import Recipe.Json.Basic

/-!
# Messages

A client sends messages. One with an id is a request and gets a response with the same id, which
holds a result or an error; one without is a notification and gets none, whatever it asks for.
-/

namespace Recipe

/-- Why a request is not answered. -/
inductive RequestError where
  | notInitialized
  | invalidRequest
  | methodNotFound
  | invalidParams
deriving DecidableEq, Repr

namespace RequestError

/-- The number of an error. -/
def code : RequestError → Int
  | notInitialized => -32002
  | invalidRequest => -32600
  | methodNotFound => -32601
  | invalidParams => -32602

/-- The error in words. What is wrong with parameters is not said. -/
def message? : RequestError → Option String
  | notInitialized => some "Server not initialized"
  | invalidRequest => some "Invalid request"
  | methodNotFound => some "Method not found"
  | invalidParams => none

end RequestError

/-- A message of a client. -/
structure Message where
  method : String
  id? : Option Json
  params? : Option Json

/-- What a message is answered with. -/
inductive Reply where
  /-- Nothing is answered. -/
  | none
  /-- The service has exited. -/
  | exited
  | response (id : Json) (result : Except RequestError Json)

/-- The reply to a message: a response if it is a request. -/
def Message.reply (m : Message) (result : Except RequestError Json) : Reply :=
  match m.id? with
  | some id => .response id result
  | none => .none

/-- The value of an error. -/
def RequestError.toJson (e : RequestError) : Json :=
  .obj (("code", .int e.code) :: e.message?.toList.map fun m => ("message", .str m))

/-- The value of a reply; null when nothing is answered. -/
def Reply.toJson : Reply → Json
  | .none => .null
  | .exited => .obj [("error", .str "Exited")]
  | .response id (.ok result) => .obj [("id", id), ("jsonrpc", .str "2.0"), ("result", result)]
  | .response id (.error e) => .obj [("error", e.toJson), ("id", id), ("jsonrpc", .str "2.0")]

end Recipe
