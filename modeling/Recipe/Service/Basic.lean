import Recipe.Service.Message
import Recipe.Service.Method

/-!
# The service

A service answers the messages of one client. A client introduces itself first, then sends requests
and notifications, then shuts the service down and tells it to exit; the phase of this exchange
decides which messages are answered.
-/

namespace Recipe

/-- How far the exchange with a client has come. -/
inductive Phase where
  | uninitialized
  | initialized
  | shutDown
  | exited
deriving DecidableEq, Repr, Inhabited

/-- A server, and the phase of the exchange with its client. -/
structure Service where
  phase : Phase
  server : Server

namespace Service

/-- A service before its client introduces itself. -/
def start : Service :=
  ⟨.uninitialized, .start defaultLimit Workspace.defaultDebounce⟩

/-- The error of a request that does not fit the phase. -/
def phaseError : Phase → RequestError
  | .uninitialized => .notInitialized
  | _ => .invalidRequest

/-- The parameters of a message, if they have a shape. -/
def shaped? (m : Message) (shape : Shape) : Option Json :=
  m.params?.filter shape

/-- The result of a request that needs parameters of a shape. -/
def answered (m : Message) (shape : Shape) (answer : Json → Option Json) :
    Except RequestError Json :=
  match (shaped? m shape).bind answer with
  | some j => .ok j
  | none => .error .invalidParams

/-- Refuses a message as a request; a notification is ignored. -/
def refuse (s : Service) (m : Message) (e : RequestError) : Service × Reply × List Notice :=
  (s, m.reply (.error e), [])

/-- Answers a client's introduction. Only a request counts as one, and only if it is understood. -/
def introduce (s : Service) (m : Message) : Service × Reply × List Notice :=
  if s.phase = .uninitialized then
    match m.id?, (shaped? m .introduction).bind Params.handshake? with
    | some id, some event =>
      let (server, notices) := s.server.step event
      (⟨.initialized, server⟩, .response id (.ok server.encoding.capabilities), notices)
    | _, _ => s.refuse m .invalidParams
  else s.refuse m .invalidRequest

/-- Shuts the service down. The request takes no parameters. -/
def shutDown (s : Service) (m : Message) : Service × Reply × List Notice :=
  if s.phase = .initialized then
    let result := if m.params?.isNone then .ok .null else .error .invalidParams
    ({ s with phase := .shutDown }, m.reply result, [])
  else s.refuse m (phaseError s.phase)

/-- Runs a handler of an initialized service. A notification sent as a request is refused. -/
def run (s : Service) (m : Message) : Handler → Service × Reply × List Notice
  | .notification event =>
    match m.id?, m.params?.bind event with
    | none, some e =>
      let (server, notices) := s.server.step e
      ({ s with server }, .none, notices)
    | _, _ => s.refuse m .invalidRequest
  | .ignored => s.refuse m .invalidRequest
  | .request shape answer => (s, m.reply (answered m shape (answer s.server)), [])
  | .unsupported shape =>
    s.refuse m (if (shaped? m shape).isSome then .methodNotFound else .invalidParams)

/-- Handles a method that leaves the phase as it is. A method that nobody knows is told so in every
phase. -/
def dispatch (s : Service) (m : Message) : Service × Reply × List Notice :=
  match Handler.ofMethod? m.method with
  | some h =>
    if s.phase = .initialized then s.run m h else s.refuse m (phaseError s.phase)
  | none => if isExtension m.method then (s, .none, []) else s.refuse m .methodNotFound

/-- Handles a message. -/
def handle (s : Service) (m : Message) : Service × Reply × List Notice :=
  if s.phase = .exited then (s, .exited, [])
  else
    match m.method with
    | "initialize" => s.introduce m
    | "shutdown" => s.shutDown m
    | "exit" => ({ s with phase := .exited }, .none, [])
    | "$/cancelRequest" => s.refuse m .invalidRequest
    | _ => s.dispatch m

/-- Lets time pass. Nothing is sent after the exit. -/
def advance (s : Service) (ms : Nat) : Service × List Notice :=
  let (server, notices) := s.server.step (.advance ms)
  ({ s with server }, if s.phase = .exited then [] else notices)

end Service

end Recipe
