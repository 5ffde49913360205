import Recipe.Workspace.Session

/-!
# Passes with handles

How a pass comes to know that it was replaced. The slot of a document counts the passes that were
started for it, and holds a handle of the last one: the sending end of a channel that is used once, at
whose receiving end the pass waits. A new pass uses the handle of the one before it, and a slot that is
closed drops the handle it holds; either releases the channel, and the pass gives up. A pass whose window
has ended asks nothing more. It takes the handle off the slot that has its count by then, and answers
with the document that the slot has by then, be they its own or not. The count of a slot begins anew when
its document is closed and opened again, so two passes may have the same count.

`Analyzer` is that state, `Analyzer.Session` a clock and callers around it.
-/

namespace Recipe

/-- The pass that is pending for a document: its count, and the channel by which it is cancelled. -/
structure PendingPass where
  generation : UInt64
  cancel : Nat
deriving DecidableEq, Repr

/-- What is kept of a uri: how many passes were started for it, its latest document, and the pass that
is pending. -/
structure DocumentSlot where
  generation : UInt64
  document? : Option Document
  pending? : Option PendingPass

/-- The slot of a uri that has none yet. -/
def DocumentSlot.fresh : DocumentSlot :=
  ⟨0, none, none⟩

/-- A pass as its owner has it: its document, its count, its window, and the channel at whose end it
waits. -/
structure DiagnosticPass where
  uri : Uri
  generation : UInt64
  debounce : Nat
  cancelled : Nat
deriving DecidableEq, Repr

/-- The analyzed documents. Without a limit for texts, nothing is analyzed. -/
structure Analyzer where
  limit? : Option Nat
  debounce : Nat
  slots : Table Uri DocumentSlot
  /-- The name of the next channel. -/
  nextChannel : Nat
  /-- The channels whose sending end was used or dropped. -/
  released : List Nat

namespace Analyzer

/-- An analyzer without documents. -/
def empty (limit? : Option Nat) (debounce : Nat) : Analyzer :=
  { limit?, debounce, slots := .empty, nextChannel := 0, released := [] }

/-- Uses or drops a handle, if there is one. -/
def release (a : Analyzer) : Option PendingPass → Analyzer
  | some pending => { a with released := pending.cancel :: a.released }
  | none => a

/-- Counts a pass that starts, and gives its count. -/
def beginPass (a : Analyzer) (uri : Uri) : Analyzer × UInt64 :=
  let slot := (a.slots.get? uri).getD .fresh
  let generation := slot.generation + 1
  ({ a with slots := a.slots.insert uri { slot with generation } }, generation)

/-- Puts a document and the handle of its pass in their slot, and uses the handle that was there. Nothing
is done if another pass has started since the count was given. -/
def install (a : Analyzer) (uri : Uri) (generation : UInt64) (document : Document) :
    Option (Analyzer × Nat) :=
  (a.slots.get? uri).bind fun slot =>
    if slot.generation = generation then
      let channel := a.nextChannel
      let slot' := { slot with document? := some document, pending? := some ⟨generation, channel⟩ }
      let b := { a with slots := a.slots.insert uri slot', nextChannel := channel + 1 }
      some (b.release slot.pending?, channel)
    else none

/-- Reads a text, makes it the latest document of its uri, and starts a pass for it. There is no pass
if another one has started meanwhile. -/
def update (a : Analyzer) (uri : Uri) (source : String) :
    Except WorkspaceError (Analyzer × Option DiagnosticPass) :=
  match a.limit? with
  | none => .error .uninitialized
  | some limit =>
    let (b, generation) := a.beginPass uri
    match b.install uri generation (.read limit uri source) with
    | some (c, cancelled) => .ok (c, some ⟨uri, generation, a.debounce, cancelled⟩)
    | none => .ok (b, none)

/-- Forgets a document, and drops the handle of its pass. -/
def close (a : Analyzer) (uri : Uri) : Analyzer :=
  { a with slots := a.slots.erase uri }.release ((a.slots.get? uri).bind DocumentSlot.pending?)

/-- Whether a pass is told to give up. -/
def isCancelled (a : Analyzer) (pass : DiagnosticPass) : Bool :=
  decide (pass.cancelled ∈ a.released)

/-- What a pass does when its window has ended. -/
def resume (a : Analyzer) (pass : DiagnosticPass) : Analyzer × Option (List Diagnostic) :=
  match a.slots.get? pass.uri with
  | none => (a, none)
  | some slot =>
    let b :=
      if slot.pending?.any (·.generation == pass.generation) then
        { a with slots := a.slots.insert pass.uri { slot with pending? := none } }.release slot.pending?
      else a
    (b, slot.document?.map (·.tree.diagnostics))

/-- The document in the slot of a uri. -/
def document? (a : Analyzer) (uri : Uri) : Option Document :=
  (a.slots.get? uri).bind DocumentSlot.document?

/-! ## Waiting -/

/-- A pass that is waited for until its window ends, with the label of the one who waits. -/
structure Wait where
  pass : DiagnosticPass
  due : Nat
  label : String

/-- A pass whose wait is over: when, and with which diagnostics. -/
structure Ended where
  pass : DiagnosticPass
  time : Nat
  label : String
  diagnostics? : Option (List Diagnostic)

/-- What a caller is told of a pass whose wait is over. -/
def Ended.told (f : Ended) : Outcome :=
  ⟨f.label, f.time, f.diagnostics?⟩

/-- An analyzer, the passes still waited for, and those whose wait is over. -/
structure Settled where
  analyzer : Analyzer
  waiting : List Wait
  ended : List Ended

/-- Ends every wait that is over at time `now`: a pass that is cancelled before its window ends gives up,
and one that is not goes on when its window has ended. Windows are of one length, so they end in the order
in which the waits began. -/
def settle (a : Analyzer) (now : Nat) : List Wait → Settled
  | [] => ⟨a, [], []⟩
  | w :: ws =>
    if a.isCancelled w.pass then
      let s := a.settle now ws
      { s with ended := ⟨w.pass, now, w.label, none⟩ :: s.ended }
    else if w.due ≤ now then
      let done := a.resume w.pass
      let s := done.1.settle now ws
      { s with ended := ⟨w.pass, w.due, w.label, done.2⟩ :: s.ended }
    else
      let s := a.settle now ws
      { s with waiting := w :: s.waiting }

/-- An analyzer with a clock, the passes kept by callers, and those waited for. -/
structure Session where
  analyzer : Analyzer
  now : Nat
  held : Table String DiagnosticPass
  waiting : List Wait

namespace Session

/-- A session at time zero. -/
def start (analyzer : Analyzer) : Session :=
  { analyzer, now := 0, held := .empty, waiting := [] }

/-- Begins to wait for a pass. -/
def await (s : Session) (label : String) (pass : DiagnosticPass) : Session :=
  { s with waiting := s.waiting ++ [⟨pass, s.now + pass.debounce, label⟩] }

/-- Does what an event asks for, without ending waits. A wait that cannot begin ends at once. -/
def apply (s : Session) : SessionEvent → Session × SessionReply × List Outcome
  | .analyze label uri source =>
    match s.analyzer.update uri source with
    | .ok (analyzer, some pass) => ({ s with analyzer }.await label pass, .done, [])
    | .ok (analyzer, none) => ({ s with analyzer }, .done, [⟨label, s.now, none⟩])
    | .error _ => (s, .done, [⟨label, s.now, some []⟩])
  | .update label uri source =>
    match s.analyzer.update uri source with
    | .ok (analyzer, some pass) =>
      ({ s with analyzer, held := s.held.insert label pass }, .started pass.uri, [])
    | .ok (analyzer, none) => ({ s with analyzer }, .noPass, [])
    | .error e => (s, .refused e, [])
  | .wait label =>
    match s.held.get? label with
    | some pass => ({ s with held := s.held.erase label }.await label pass, .done, [])
    | none => (s, .noPass, [])
  | .drop label =>
    ({ s with held := s.held.erase label }, .dropped (s.held.get? label).isSome, [])
  | .advance ms => ({ s with now := s.now + ms }, .done, [])
  | .setLimit limit =>
    ({ s with analyzer := { s.analyzer with limit? := some limit } }, .done, [])
  | .close uri => ({ s with analyzer := s.analyzer.close uri }, .done, [])

/-- One event and all that follows from it before the next. -/
def step (s : Session) (e : SessionEvent) : Session × SessionReply × List Outcome :=
  let (t, reply, early) := s.apply e
  let r := t.analyzer.settle t.now t.waiting
  ({ t with analyzer := r.analyzer, waiting := r.waiting }, reply,
    (early ++ r.ended.map Ended.told).mergeSort Recipe.Session.outcomeLe)

end Session

end Analyzer

end Recipe
