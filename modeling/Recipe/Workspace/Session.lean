import Recipe.Workspace.Basic

/-!
# Sessions

A session is a workspace with a clock. Callers update documents, keep the passes they get under a
label, wait for them, or drop them. The clock moves only when an event moves it; after each event
every wait that is over ends.
-/

namespace Recipe

/-- A workspace with a clock, the passes kept by callers, and those waited for. -/
structure Session where
  workspace : Workspace
  /-- The time since the start in milliseconds. -/
  now : Nat
  held : Table String Pass
  waiting : List (Waiting String)

/-- What happens in a session. -/
inductive SessionEvent where
  /-- Update a document and wait for its pass. -/
  | analyze (label : String) (uri : Uri) (source : String)
  /-- Update a document and keep its pass. -/
  | update (label : String) (uri : Uri) (source : String)
  /-- Wait for a kept pass from now on. -/
  | wait (label : String)
  /-- Give up a kept pass. -/
  | drop (label : String)
  /-- Let time pass. -/
  | advance (ms : Nat)
  /-- Set the limit for texts. -/
  | setLimit (limit : Nat)
  /-- Forget a document. -/
  | close (uri : Uri)

/-- What an event answers. -/
inductive SessionReply where
  | done
  /-- The uri of the pass of an update. -/
  | started (uri : Uri)
  /-- Whether there was a pass to give up. -/
  | dropped (existed : Bool)
  /-- The update was refused. -/
  | refused (e : WorkspaceError)
  /-- No pass is kept under the label. -/
  | noPass
deriving DecidableEq, Repr

/-- A pass that ended: its label, when, and with which diagnostics. -/
structure Outcome where
  label : String
  time : Nat
  diagnostics? : Option (List Diagnostic)
deriving DecidableEq, Repr

namespace Session

/-- A session at time zero. -/
def start (workspace : Workspace) : Session :=
  { workspace, now := 0, held := .empty, waiting := [] }

/-- Begins to wait for a pass. -/
def await (s : Session) (label : String) (pass : Pass) : Session :=
  { s with waiting := s.waiting ++ [⟨pass, s.now + s.workspace.debounce, label⟩] }

/-- Does what an event asks for, without ending waits. A wait that cannot begin ends at once. -/
def apply (s : Session) : SessionEvent → Session × SessionReply × List Outcome
  | .analyze label uri source =>
    match s.workspace.update uri source with
    | .ok (workspace, pass) => ({ s with workspace }.await label pass, .done, [])
    | .error _ => (s, .done, [⟨label, s.now, some []⟩])
  | .update label uri source =>
    match s.workspace.update uri source with
    | .ok (workspace, pass) =>
      ({ s with workspace, held := s.held.insert label pass }, .started uri, [])
    | .error e => (s, .refused e, [])
  | .wait label =>
    match s.held.get? label with
    | some pass => ({ s with held := s.held.erase label }.await label pass, .done, [])
    | none => (s, .noPass, [])
  | .drop label =>
    ({ s with held := s.held.erase label }, .dropped (s.held.get? label).isSome, [])
  | .advance ms => ({ s with now := s.now + ms }, .done, [])
  | .setLimit limit =>
    ({ s with workspace := { s.workspace with limit? := some limit } }, .done, [])
  | .close uri => ({ s with workspace := s.workspace.close uri }, .done, [])

/-- Ends every wait that is over. -/
def settle (s : Session) : Session × List Outcome :=
  let r := s.workspace.settle s.now s.waiting
  ({ s with workspace := r.workspace, waiting := r.waiting },
    r.finished.map fun f => ⟨f.tag, f.time, f.diagnostics?⟩)

/-- Outcomes are listed by time, then by label. -/
def outcomeLe (a b : Outcome) : Bool :=
  decide (a.time < b.time) || a.time == b.time && !decide (b.label < a.label)

/-- One event and all that follows from it before the next. -/
def step (s : Session) (e : SessionEvent) : Session × SessionReply × List Outcome :=
  let (s, reply, early) := s.apply e
  let (s, late) := s.settle
  (s, reply, (early ++ late).mergeSort outcomeLe)

end Session

end Recipe
