import Recipe.Document

/-!
# Workspaces

A workspace holds the latest document of each uri. Each update starts a diagnostics pass, which
takes the place of the pass that was pending for that uri. A pass that is still current when its
window ends gives the diagnostics of the document; one that was replaced, or whose document was
closed, gives none.
-/

namespace Recipe

/-- A diagnostics pass: the document it is for, and a number no other pass has. -/
structure Pass where
  uri : Uri
  number : Nat
deriving DecidableEq, Repr

/-- The latest document of a uri, and the number of the pass that is pending for it. -/
structure Slot where
  document : Document
  pending? : Option Nat

/-- Why an update is refused. -/
inductive WorkspaceError where
  /-- No limit has been set. -/
  | uninitialized
deriving DecidableEq, Repr

/-- The error in words. -/
def WorkspaceError.message : WorkspaceError → String
  | uninitialized => "the analyzer is not initialized with a parser"

/-- The analyzed documents. Without a limit for texts, nothing is analyzed. -/
structure Workspace where
  limit? : Option Nat
  /-- How long a document must stay as it is before its pass ends, in milliseconds. -/
  debounce : Nat
  slots : Table Uri Slot
  /-- The number of the next pass. -/
  nextPass : Nat

namespace Workspace

/-- The window of a pass unless a caller sets one. -/
def defaultDebounce : Nat :=
  500

/-- A workspace without documents. -/
def empty (limit? : Option Nat) (debounce : Nat) : Workspace :=
  { limit?, debounce, slots := .empty, nextPass := 0 }

/-- The latest document of a uri. -/
def document? (w : Workspace) (uri : Uri) : Option Document :=
  (w.slots.get? uri).map Slot.document

/-- The deepest node at a position of a document. -/
def nodeAt? (w : Workspace) (uri : Uri) (p : Position) : Option NodeRef :=
  (w.document? uri).bind fun d => d.tree.root?.map fun root => ⟨root, root.pathTo p⟩

/-- The uris that have a document. -/
def uris (w : Workspace) : List Uri :=
  w.slots.keys

/-- Reads a text, makes it the latest document of its uri, and starts a pass for it. -/
def update (w : Workspace) (uri : Uri) (source : String) :
    Except WorkspaceError (Workspace × Pass) :=
  match w.limit? with
  | none => .error .uninitialized
  | some limit =>
    let slot : Slot := ⟨.read limit uri source, some w.nextPass⟩
    .ok ({ w with slots := w.slots.insert uri slot, nextPass := w.nextPass + 1 },
      ⟨uri, w.nextPass⟩)

/-- Forgets a document and its pass. -/
def close (w : Workspace) (uri : Uri) : Workspace :=
  { w with slots := w.slots.erase uri }

/-- Whether a pass is the one pending for its document. -/
def isCurrent (w : Workspace) (pass : Pass) : Bool :=
  (w.slots.get? pass.uri).any (·.pending? == some pass.number)

/-- Ends the pass that is pending for a document, and gives the document's diagnostics. -/
def finish (w : Workspace) (pass : Pass) : Workspace × Option (List Diagnostic) :=
  match w.slots.get? pass.uri with
  | some slot =>
    if slot.pending? = some pass.number then
      ({ w with slots := w.slots.insert pass.uri { slot with pending? := none } },
        some slot.document.tree.diagnostics)
    else (w, none)
  | none => (w, none)

end Workspace

/-! ## Waiting -/

/-- A pass that is waited for until its window ends, with a tag of the one who waits. -/
structure Waiting (α : Type) where
  pass : Pass
  due : Nat
  tag : α

/-- A pass whose wait is over: when, and with which diagnostics. -/
structure Finished (α : Type) where
  pass : Pass
  time : Nat
  tag : α
  diagnostics? : Option (List Diagnostic)

/-- A workspace, the passes still waited for in it, and those whose wait is over. -/
structure Settled (α : Type) where
  workspace : Workspace
  waiting : List (Waiting α)
  finished : List (Finished α)

/-- Ends every wait that is over at time `now`: at once for a pass that is no longer current, and
when due for one that is. -/
def Workspace.settle {α : Type} (v : Workspace) (now : Nat) : List (Waiting α) → Settled α
  | [] => ⟨v, [], []⟩
  | w :: ws =>
    if !v.isCurrent w.pass then
      let s := v.settle now ws
      { s with finished := ⟨w.pass, now, w.tag, none⟩ :: s.finished }
    else if w.due ≤ now then
      let done := v.finish w.pass
      let s := done.1.settle now ws
      { s with finished := ⟨w.pass, w.due, w.tag, done.2⟩ :: s.finished }
    else
      let s := v.settle now ws
      { s with waiting := w :: s.waiting }

end Recipe
