import Recipe.Proofs.Scanner.Header
import Recipe.Proofs.Scanner.Lines
import Recipe.Proofs.Scanner.Statement

/-!
# Documents by offsets

The loop over the lines of a text reads one node in a round: a comment, a task up to its closing line, a
python definition up to the last line of its body, or the statement of a logical line. A round of it
leaves fewer lines, no operation in it faults, and it gives the nodes of the block that the grammar reads
there. So it ends, with the root of the text (`LineReader.root_eq`).
-/

namespace Recipe

open Text (bytes)
open Checked (Round loop)
open Piece (nodesAfter nodesAfter_nil nodesAfter_gap nodesAfter_cons_token nodesAfter_append textAll)
open Grammar (Line)

/-- The kind of a task. -/
def Scanner.TaskHeader.kind (h : TaskHeader) : Kind :=
  if h.python then .pythonFunctionDefinition else .functionDefinition

/-- The kind of the body of a task. -/
def Scanner.TaskHeader.contentKind (h : TaskHeader) : Kind :=
  if h.python then .pythonContent else .shellContent

namespace LineReader

variable (r : LineReader)

/-! ## Reading a document -/

/-- The content from the beginning of one line to the end of another. -/
def body (k : Kind) (first last : Nat) : Checked (List Node) := do
  let a ← Checked.get r.lines first
  let b ← Checked.get r.lines last
  Node.contentOf r.text k ⟨a.start, b.stop⟩

/-- The first line from line `first` on that closes a task. -/
def closingLine (first : Nat) : Checked (Option Nat) :=
  (List.range' first (r.lines.length - first)).findM? fun n => do
    let line ← r.lineText n
    .ok (Text.trimEnd line == ['}'])

/-- The content from the beginning of one line to the end of the line before another. -/
def bodyBefore (k : Kind) (first stop : Nat) : Checked (List Node) := do
  if first < stop then
    let last ← Checked.sub stop 1
    r.body k first last
  else .ok []

/-- A task whose body begins with line `first` and is closed by another line. -/
def closedTask (h : Scanner.TaskHeader) (first closing : Nat) : Checked (Node × Nat) := do
  let content ← r.bodyBefore h.contentKind first closing
  let brace ← Checked.get r.lines closing
  let children := h.children ++ [.leafOf r.text .punctuation h.brace] ++ content
    ++ [.leafOf r.text .punctuation ⟨brace.start, brace.start + 1⟩]
  .ok (.branchOf r.text h.kind children, closing + 1)

/-- The content from the beginning of a line to the end of the text. -/
def bodyToEnd (k : Kind) (first : Nat) : Checked (List Node) := do
  if first < r.lines.length then
    let a ← Checked.get r.lines first
    Node.contentOf r.text k ⟨a.start, bytes r.text⟩
  else .ok []

/-- A task that no line closes. -/
def openTask (h : Scanner.TaskHeader) (first : Nat) : Checked (Node × Nat) := do
  let content ← r.bodyToEnd h.contentKind first
  let children := h.children ++ [.leafOf r.text .error h.brace] ++ content
  .ok (.branchOf r.text h.kind children, r.lines.length)

/-- Reads a task whose header stands on line `n`. -/
def task (h : Scanner.TaskHeader) (n : Nat) : Checked (Node × Nat) := do
  match ← r.closingLine (n + 1) with
  | some closing => r.closedTask h (n + 1) closing
  | none => r.openTask h (n + 1)

/-- The last line of the body of a python definition among `k` lines from line `n` on, given the last
one before them. -/
def lastBodyLine : (k n : Nat) → Option Nat → Checked (Option Nat)
  | 0, _, last => .ok last
  | k + 1, n, last => do
    let line ← r.lineText n
    if (Text.trim line).isEmpty then lastBodyLine k (n + 1) last
    else if line.head?.any [' ', '\t', '#'].contains then lastBodyLine k (n + 1) (some n)
    else .ok last

/-- Reads a python definition whose header stands on line `n`. -/
def definition (children : List Node) (n : Nat) : Checked (Node × Nat) := do
  match ← r.lastBodyLine (r.lines.length - (n + 1)) (n + 1) none with
  | some last =>
    let content ← r.body .pythonContent (n + 1) last
    .ok (.branchOf r.text .pythonDefinition (children ++ content), last + 1)
  | none => .ok (.branchOf r.text .pythonDefinition children, n + 1)

/-- Reads the statement that begins at an offset of line `n`. -/
def statement (start n : Nat) : Checked (Node × Nat) := do
  let (stop, next) ← r.logicalLine n
  let s ← Scanner.enter r.text ⟨start, stop⟩
  let node ← s.statement
  .ok (node, next)

/-- Reads what begins on line `n`, given its span without the blanks around it. -/
def block (span : Span) (n : Nat) : Checked (Node × Nat) := do
  let line ← Checked.slice r.text span
  if line.head? = some '#' then .ok (.leafOf r.text .comment span, n + 1)
  else
    let s ← Scanner.enter r.text span
    match ← s.taskHeader? with
    | some h => r.task h n
    | none =>
      match ← s.definitionHeader? with
      | some children => r.definition children n
      | none => r.statement span.start n

/-- Skips a blank line, or reads what begins on a line. -/
def round (st : Nat × List Node) : Checked (Round (Nat × List Node) (List Node)) := do
  if st.1 < r.lines.length then
    let line ← Checked.get r.lines st.1
    match ← Span.trim? r.text line with
    | none => .ok (.again (st.1 + 1, st.2))
    | some span =>
      let (node, next) ← r.block span st.1
      .ok (.again (next, st.2 ++ [node]))
  else .ok (.done st.2)

/-- Reads the root of a text. -/
def root (text : List Char) : Checked Node := do
  let r ← ofText text
  let statements ← loop (r.lines.length - ·.1) r.round (0, [])
  .ok (.branch .sourceFile ((LineTable.ofText text).range ⟨0, bytes text⟩) statements)

/-! ## Bodies -/

theorem nodesAfter_content_blank (k : Kind) {b : List Char} (hb : b.all Text.isBlank = true)
    (pre cs : List Char) :
    nodesAfter pre (Grammar.content k (b ++ cs)).1 = nodesAfter (pre ++ b) (Grammar.content k cs).1 := by
  have hsplit : Text.splitTrim (b ++ cs)
      = { Text.splitTrim cs with before := b ++ (Text.splitTrim cs).before } := by
    rw [Text.splitTrim, Text.trimStart, List.dropWhile_append_of_pos (List.all_eq_true.1 hb),
      List.takeWhile_append_of_pos (List.all_eq_true.1 hb)]
    rfl
  unfold Grammar.content
  dsimp only
  rw [hsplit]
  split
  · rfl
  · rw [nodesAfter_gap, nodesAfter_gap, List.append_assoc]

namespace At

variable {r} {n : Nat} {pre : List Char} {l : Line} {ls ms : List Line}

/-- The body from the first to the last of the lines `ls`, which the reader stands at, has the nodes of the
content of their text. -/
theorem body (h : At r n pre (ls ++ ms)) (hne : ls ≠ []) (k : Kind) :
    r.body k n (n + (ls.length - 1)) = .ok (nodesAfter pre (Grammar.content k (Line.textAll ls)).1) := by
  obtain ⟨front, l, rfl⟩ := (List.eq_nil_or_concat ls).resolve_left hne
  rw [List.concat_eq_append, List.append_assoc] at h
  have hfirst : ∃ stop, Checked.get r.lines n = .ok ⟨bytes pre, stop⟩ := by
    cases front with
    | nil => exact ⟨_, h.get⟩
    | cons m front => exact ⟨_, h.get⟩
  obtain ⟨stop, hfirst⟩ := hfirst
  have hlast : At r (n + front.length) (pre ++ Line.textAll front) (l :: ms) := h.skip
  have hcontent := Piece.contentOf_append k pre (Line.textAll front ++ l.body) (l.ending ++ Line.textAll ms)
  have htext : r.text = pre ++ (Line.textAll front ++ l.body ++ (l.ending ++ Line.textAll ms)) := by
    rw [hlast.text_cons]
    simp only [List.append_assoc]
  have hbody : Line.textAll (front ++ [l]) = Line.textAll front ++ l.body ++ l.ending := by
    rw [Grammar.textAll_append, Grammar.textAll_cons, Grammar.textAll_nil, List.append_nil, Line.text,
      List.append_assoc]
  rw [List.concat_eq_append, List.length_append, List.length_singleton, Nat.add_sub_cancel,
    LineReader.body, hfirst, Checked.ok_bind, hlast.get, Checked.ok_bind, hbody,
    Grammar.content_append_blank k _ hlast.terminated.1, ← hcontent, htext, Text.bytes_append,
    Text.bytes_append, Nat.add_assoc]

theorem bodyBefore (h : At r n pre (ls ++ ms)) (k : Kind) :
    r.bodyBefore k n (n + ls.length) = .ok (nodesAfter pre (Grammar.content k (Line.textAll ls)).1) := by
  cases ls with
  | nil => exact if_neg (Nat.lt_irrefl n)
  | cons l ls =>
    have hlt : n < n + (l :: ls).length := Nat.lt_add_of_pos_right (Nat.succ_pos _)
    have hlast : n + (l :: ls).length = n + ((l :: ls).length - 1) + 1 := rfl
    rw [LineReader.bodyBefore, if_pos hlt, Checked.sub_of_eq_add hlast, Checked.ok_bind]
    exact h.body (List.cons_ne_nil l ls) k

theorem bodyToEnd (h : At r n pre ls) (k : Kind) :
    r.bodyToEnd k n = .ok (nodesAfter pre (Grammar.content k (Line.textAll ls)).1) := by
  have hlength := h.length_sub
  cases ls with
  | nil => exact if_neg (Nat.not_lt.2 (Nat.le_of_sub_eq_zero hlength))
  | cons l ls =>
    have hlt : n < r.lines.length := Nat.lt_of_sub_pos (hlength ▸ Nat.succ_pos _)
    have hcontent := Piece.contentOf_append k pre (Line.textAll (l :: ls)) []
    rw [List.append_nil, ← Text.bytes_append, ← h.text_eq] at hcontent
    rw [LineReader.bodyToEnd, if_pos hlt, h.get, Checked.ok_bind, hcontent]

theorem closingLine (h : At r n pre ls) :
    r.closingLine n = .ok ((ls.dropWhile (!·.closesTask)).head?.map fun _ =>
      n + (ls.takeWhile (!·.closesTask)).length) := by
  rw [LineReader.closingLine, h.length_sub]
  induction ls generalizing n pre with
  | nil => rfl
  | cons l ls ih =>
    rw [List.length_cons, List.range'_succ, List.findM?, h.lineText, Checked.ok_bind, Checked.ok_bind]
    cases hl : l.closesTask with
    | true =>
      have htrim : (Text.trimEnd l.body == ['}']) = true := hl
      simp [htrim, hl]
      rfl
    | false =>
      have htrim : (Text.trimEnd l.body == ['}']) = false := hl
      have hrest := ih h.next
      simp [htrim, hl, hrest, Nat.add_assoc, Nat.add_comm 1]

/-- The lines of the body of a definition: those up to the last one that is not blank, then blank lines, and
then what is not part of it. -/
theorem lastBodyLine (h : At r n pre ls) (last : Option Nat) :
    ∃ inside blanks rest, ls = inside ++ (blanks ++ rest) ∧ inside.all Line.inDefinition = true ∧
      blanks.all Line.isBlank = true ∧ rest.head?.any Line.inDefinition = false ∧
      r.lastBodyLine (r.lines.length - n) n last
        = .ok (if inside.isEmpty then last else some (n + (inside.length - 1))) := by
  rw [h.length_sub]
  induction ls generalizing n pre last with
  | nil => exact ⟨[], [], [], rfl, rfl, rfl, rfl, rfl⟩
  | cons l ls ih =>
    have hblank : (Text.trim l.body).isEmpty = l.isBlank := by
      rw [Bool.eq_iff_iff, List.isEmpty_iff]
      exact ⟨Text.all_of_core_eq_nil, Text.core_eq_nil⟩
    -- A line of the body goes before the lines that the rest of the body has.
    have hgrow : ∀ {m : Line} {inside : List Line}, n + 1 + ((m :: inside).length - 1)
        = n + ((l :: m :: inside).length - 1) := by
      intro m inside
      simp only [List.length_cons]
      omega
    rw [List.length_cons, LineReader.lastBodyLine, h.lineText, Checked.ok_bind, hblank]
    cases hb : l.isBlank with
    | true =>
      have hdef : l.inDefinition = true := by rw [Line.inDefinition, hb, Bool.true_or]
      obtain ⟨inside, blanks, rest, hls, hin, hall, hrest, hlast⟩ := ih h.next last
      rw [if_pos rfl, hlast]
      cases inside with
      | nil =>
        refine ⟨[], l :: blanks, rest, by rw [hls]; rfl, rfl, ?_, hrest, rfl⟩
        rw [List.all_cons, hb, hall]
        rfl
      | cons m inside =>
        refine ⟨l :: m :: inside, blanks, rest, by rw [hls]; rfl, ?_, hall, hrest, ?_⟩
        · rw [List.all_cons, hin, hdef]
          rfl
        · rw [hgrow]
          rfl
    | false =>
      rw [if_neg Bool.false_ne_true]
      split
      · rename_i hhead
        have hdef : l.inDefinition = true := by rw [Line.inDefinition, hhead, Bool.or_true]
        obtain ⟨inside, blanks, rest, hls, hin, hall, hrest, hlast⟩ := ih h.next (some n)
        refine ⟨l :: inside, blanks, rest, by rw [hls]; rfl, ?_, hall, hrest, ?_⟩
        · rw [List.all_cons, hin, hdef]
          rfl
        · rw [hlast]
          cases inside with
          | nil => rfl
          | cons m inside =>
            rw [hgrow]
            rfl
      · rename_i hhead
        refine ⟨[], [], l :: ls, rfl, rfl, rfl, ?_, rfl⟩
        rw [List.head?_cons, Option.any_some, Line.inDefinition, hb, Bool.false_or]
        exact Bool.eq_false_iff.2 hhead

end At

/-! ## What is read on a line -/

/-- The result is the node of what begins on the first of some lines, and the number of a line from which
the nodes of the others are read. -/
def ReadsBlock (pre : List Char) (l : Line) (ls : List Line) (result : Checked (Node × Nat)) : Prop :=
  ∃ node next pre' ms, result = .ok (node, next) ∧ At r next pre' ms ∧ ms.length ≤ ls.length ∧
    nodesAfter pre (Grammar.document (l :: ls)) = node :: nodesAfter pre' (Grammar.document ms)

theorem text_splitTrim {l : Line} {T : Text.Trimmed} (h : Text.splitTrim l.body = T) :
    T.before ++ (T.core ++ (T.after ++ l.ending)) = l.text := by
  have hbody := Text.splitTrim_append l.body
  rw [h] at hbody
  rw [Line.text, ← hbody]
  simp

namespace At

variable {r} {n next : Nat} {pre pre' : List Char} {l : Line} {ls rest : List Line} {node : Node}

/-- The reader has read the block at line `l` if it gives the node of the block and stands at the
rest of the lines, or at blank lines before the rest. -/
theorem readsBlock (h : At r n pre (l :: ls)) (blanks : List Line) (hb : blanks.all Line.isBlank = true)
    (hat : At r next pre' (blanks ++ (Grammar.block l ls).rest))
    (hle : (blanks ++ (Grammar.block l ls).rest).length ≤ ls.length)
    (hnode : nodesAfter pre (Grammar.block l ls).pieces = [node]) :
    ReadsBlock r pre l ls (.ok (node, next)) := by
  refine ⟨node, next, pre', _, rfl, hat, hle, ?_⟩
  have htext : pre' ++ Line.textAll blanks = pre ++ textAll (Grammar.block l ls).pieces := by
    have hread := (Grammar.reads_block h.terminated).eq_append
    have hskip := hat.skip.text_eq
    rw [h.text_eq, Grammar.textAll_cons, hread, ← List.append_assoc] at hskip
    exact (List.append_cancel_right hskip).symm
  have hblanks : nodesAfter pre' (Grammar.document (blanks ++ (Grammar.block l ls).rest))
      = nodesAfter (pre' ++ Line.textAll blanks) (Grammar.document (Grammar.block l ls).rest) := by
    rw [Grammar.nodesAfter_dropWhile (pre' ++ Line.textAll blanks), Grammar.nodesAfter_dropWhile pre',
      List.takeWhile_append_of_pos (List.all_eq_true.1 hb),
      List.dropWhile_append_of_pos (List.all_eq_true.1 hb), Grammar.textAll_append, List.append_assoc]
  rw [Grammar.nodesAfter_block, hnode, hblanks, htext]
  rfl

/-- The reader has read a block that is a group of kind `k` between gaps if it gives the branch over
the nodes of the group. -/
theorem readsBlock_group (h : At r n pre (l :: ls)) {k : Kind} {b g : List Char} {ps : List Piece}
    (hblock : Grammar.block l ls = ⟨[.gap b, .group k ps, .gap g], rest⟩) (hp : Piece.isTight ps = true)
    (blanks : List Line) (hb : blanks.all Line.isBlank = true) (hat : At r next pre' (blanks ++ rest))
    (hle : (blanks ++ rest).length ≤ ls.length) :
    ReadsBlock r pre l ls (.ok (.branchOf r.text k (nodesAfter (pre ++ b) ps), next)) := by
  have hread := (Grammar.reads_block h.terminated).eq_append
  have htext : r.text = pre ++ b ++ (textAll ps ++ (g ++ Line.textAll rest)) := by
    rw [h.text_eq, Grammar.textAll_cons, hread, hblock]
    simp [textAll, Piece.text]
  refine h.readsBlock blanks hb (by rwa [hblock]) (by rwa [hblock]) ?_
  rw [hblock, htext, Piece.branchOf_nodesAfter k hp]
  simp [nodesAfter_gap, nodesAfter_nil, Piece.nodesAfter_cons_group]

/-- The text of the reader, split around the trimmed text of the line that it stands at. -/
theorem text_core (h : At r n pre (l :: ls)) {T : Text.Trimmed} (hT : Text.splitTrim l.body = T) :
    r.text = pre ++ T.before ++ (T.core ++ (T.after ++ l.ending ++ Line.textAll ls)) := by
  rw [h.text_eq, Grammar.textAll_cons, ← text_splitTrim hT]
  simp

end At

/-! ## Tasks -/

theorem text_header {cs : List Char} {t : Grammar.TaskHeader} (h : Grammar.TaskHeader.read? cs = some t) :
    cs = textAll t.front ++ ['{'] := by
  have hread := (Grammar.reads_taskHeader? h []).eq_append
  rwa [List.append_nil] at hread

/-- The front of a header begins with a keyword or a name. -/
theorem head?_front {cs : List Char} {t : Grammar.TaskHeader} (h : Grammar.TaskHeader.read? cs = some t) :
    t.front.head?.any (·.kind?.isSome) = true := by
  have hwords : (Grammar.taskWords cs).pieces.head?.any (·.kind?.isSome) = true ∨
      (Grammar.taskWords cs).pieces = [] ∧ (Grammar.taskWords cs).python = false := by
    rw [Grammar.taskWords]
    split
    · exact .inl rfl
    · exact .inr ⟨rfl, rfl⟩
  unfold Grammar.TaskHeader.read? at h
  dsimp only at h
  split at h
  · cases h
  rename_i hname
  obtain ⟨opening, -, h⟩ := Option.bind_eq_some_iff.1 h
  obtain ⟨closing, -, h⟩ := Option.bind_eq_some_iff.1 h
  split at h
  · cases h
    rcases hwords with hwords | ⟨hnil, hpython⟩
    · obtain ⟨first, hfirst, hkind⟩ := (Option.any_eq_true _ _).1 hwords
      simp [hfirst, hkind]
    · rw [hpython] at hname
      simp only [Bool.not_false, Bool.and_true] at hname
      simp [hnil, Piece.tokens, hname, Piece.kind?]
  · cases h

/-- The nodes of a task are those of its header up to the brace and those of the pieces after it,
which begin where the header ends. -/
theorem nodesAfter_header {base cs : List Char} {t : Grammar.TaskHeader}
    (h : Grammar.TaskHeader.read? cs = some t) (k : Kind) (ps : List Piece) :
    nodesAfter base (t.front ++ [.token k ['{']] ++ ps)
      = nodesAfter base (t.front ++ [.token k ['{']]) ++ nodesAfter (base ++ cs) ps := by
  have hcs : textAll (t.front ++ [.token k ['{']]) = cs := by
    rw [text_header h, Piece.textAll_append]
    rfl
  rw [nodesAfter_append, hcs]

/-- The closing brace of a task stands after all that is inside. -/
theorem nodesAfter_closing (k : Kind) (base inside : List Char) :
    nodesAfter base ((Grammar.content k inside).1 ++ [.gap (Grammar.content k inside).2, Piece.mark '}'])
      = nodesAfter base (Grammar.content k inside).1 ++ [(Piece.mark '}').node (base ++ inside)] := by
  have hread := (Grammar.reads_content k inside []).eq_append
  rw [List.append_nil, List.append_nil] at hread
  have hinside : base ++ textAll (Grammar.content k inside).1 ++ (Grammar.content k inside).2
      = base ++ inside := by
    rw [List.append_assoc, ← hread]
  rw [nodesAfter_append, nodesAfter_gap, hinside, Piece.mark, nodesAfter_cons_token, nodesAfter_nil]

theorem isTight_content {ps : List Piece} (h : Piece.isTight ps = true) (k : Kind) (cs : List Char) :
    Piece.isTight (ps ++ (Grammar.content k cs).1) = true := by
  unfold Grammar.content
  dsimp only
  split
  · rwa [List.append_nil]
  · exact Piece.isTight_append (Bool.and_eq_true_iff.1 h).1 rfl

namespace At

variable {r} {n : Nat} {pre : List Char} {l : Line} {ls rest : List Line} {t : Grammar.TaskHeader}
  {T : Text.Trimmed}

theorem nodesAfter_brace (h : At r n pre (l :: ls)) (hT : Text.splitTrim l.body = T)
    (ht : Grammar.TaskHeader.read? T.core = some t) (k : Kind) :
    (Scanner.TaskHeader.after (pre ++ T.before) t).children
        ++ [.leafOf r.text k (Scanner.TaskHeader.after (pre ++ T.before) t).brace]
      = nodesAfter (pre ++ T.before) (t.front ++ [.token k ['{']]) := by
  have hleaf := Piece.leafOf_append k (pre ++ T.before ++ textAll t.front) ['{']
    (T.after ++ l.ending ++ Line.textAll ls)
  rw [Text.bytes_append, List.append_assoc, ← List.append_assoc (textAll t.front), ← text_header ht,
    ← h.text_core hT] at hleaf
  rw [nodesAfter_append, nodesAfter_cons_token, nodesAfter_nil, ← hleaf]
  rfl

theorem leafOf_closing (h : At r n pre (l :: ls)) (hl : l.closesTask = true) :
    Node.leafOf r.text .punctuation ⟨bytes pre, bytes pre + 1⟩ = (Piece.mark '}').node pre := by
  rw [h.text_cons, (Grammar.body_of_closesTask hl).1]
  exact Piece.leafOf_append .punctuation pre ['}'] _

/-- The content `cs` of a body that begins on the line after its header has the same nodes with the
end of the header's line in front of it. -/
theorem nodesAfter_inside (h : At r n pre (l :: ls)) (hT : Text.splitTrim l.body = T)
    (k : Kind) (cs : List Char) :
    nodesAfter (pre ++ l.text) (Grammar.content k cs).1
      = nodesAfter (pre ++ T.before ++ T.core) (Grammar.content k (T.after ++ l.ending ++ cs)).1 := by
  have hb : (T.after ++ l.ending).all Text.isBlank = true := by
    rw [List.all_append, ← hT, Text.all_after, h.terminated.1]
    rfl
  rw [nodesAfter_content_blank k hb, ← text_splitTrim hT]
  simp

theorem closedTask (h : At r n pre (l :: ls)) (hT : Text.splitTrim l.body = T) {closing : Line}
    (ht : Grammar.TaskHeader.read? T.core = some t) (hd : ls.dropWhile (!·.closesTask) = closing :: rest)
    (hblock : Grammar.block l ls = Grammar.taskBlock t T l.ending ls) :
    ReadsBlock r pre l ls (r.closedTask (.after (pre ++ T.before) t) (n + 1)
      (n + 1 + (ls.takeWhile (!·.closesTask)).length)) := by
  have hls : ls = ls.takeWhile (!·.closesTask) ++ (closing :: rest) := by
    rw [← hd, List.takeWhile_append_dropWhile]
  have hcloses : closing.closesTask = true := by
    have hhead := List.head?_dropWhile_not (fun l : Line => !l.closesTask) ls
    simpa [hd] using hhead
  rw [Grammar.taskBlock, hd] at hblock
  generalize ls.takeWhile (!·.closesTask) = body at hls hblock ⊢
  subst hls
  have hat := h.next.skip
  have hinside : pre ++ l.text ++ Line.textAll body
      = pre ++ T.before ++ T.core ++ (T.after ++ l.ending ++ Line.textAll body) := by
    rw [← text_splitTrim hT]
    simp
  rw [LineReader.closedTask, h.next.bodyBefore, Checked.ok_bind, hat.get, Checked.ok_bind,
    h.nodesAfter_brace hT ht, h.nodesAfter_inside hT, hat.leafOf_closing hcloses, hinside,
    List.append_assoc, ← nodesAfter_closing, ← nodesAfter_header ht]
  dsimp only [Grammar.closedTask] at hblock
  rw [List.append_assoc (t.front ++ _)] at hblock
  refine h.readsBlock_group hblock ?_ [] rfl hat.next ?_
  · rw [List.append_assoc]
    exact Piece.isTight_append (head?_front ht)
      (Grammar.any_getLast?_append _ (Grammar.any_getLast?_append _ rfl))
  · exact ((List.suffix_cons closing rest).trans (List.suffix_append body _)).length_le

theorem openTask (h : At r n pre (l :: ls)) (hT : Text.splitTrim l.body = T)
    (ht : Grammar.TaskHeader.read? T.core = some t) (hd : ls.dropWhile (!·.closesTask) = [])
    (hblock : Grammar.block l ls = Grammar.taskBlock t T l.ending ls) :
    ReadsBlock r pre l ls (r.openTask (.after (pre ++ T.before) t) (n + 1)) := by
  have hls : ls.takeWhile (!·.closesTask) = ls := by
    have hspan := List.takeWhile_append_dropWhile (p := (!·.closesTask)) (l := ls)
    rwa [hd, List.append_nil] at hspan
  rw [Grammar.taskBlock, hd, hls] at hblock
  have hend : At r (n + 1 + ls.length) (pre ++ l.text ++ Line.textAll ls) [] := by
    have hnext := h.next
    rw [← List.append_nil ls] at hnext
    exact hnext.skip
  have hlength : r.lines.length = n + 1 + ls.length := by
    have hsub := h.length_sub
    rw [List.length_cons] at hsub
    omega
  rw [LineReader.openTask, h.next.bodyToEnd, Checked.ok_bind, h.nodesAfter_brace hT ht,
    h.nodesAfter_inside hT, ← nodesAfter_header ht, hlength]
  have htight : Piece.isTight (t.front ++ [.token .error ['{']]) = true :=
    Piece.isTight_append (head?_front ht) rfl
  exact h.readsBlock_group hblock (isTight_content htight _ _) [] rfl hend (Nat.zero_le _)

theorem task (h : At r n pre (l :: ls)) (hT : Text.splitTrim l.body = T)
    (ht : Grammar.TaskHeader.read? T.core = some t)
    (hblock : Grammar.block l ls = Grammar.taskBlock t T l.ending ls) :
    ReadsBlock r pre l ls (r.task (.after (pre ++ T.before) t) n) := by
  rw [LineReader.task, h.next.closingLine, Checked.ok_bind]
  cases hd : ls.dropWhile (!·.closesTask) with
  | nil => exact h.openTask hT ht hd hblock
  | cons closing rest => exact h.closedTask hT ht hd hblock

end At

/-! ## Definitions -/

theorem isTight_definitionHeader {cs : List Char} {ps : List Piece}
    (h : Grammar.definitionHeader? cs = some ps) : Piece.isTight ps = true := by
  obtain ⟨rest, -, h⟩ := Option.bind_eq_some_iff.1 h
  dsimp only at h
  split at h
  · cases h
    rfl
  · cases h

namespace At

variable {r} {n : Nat} {pre : List Char} {l : Line} {ls : List Line} {T : Text.Trimmed}

/-- The reader takes for a python definition the lines of its body up to the last one that is not
blank, and gives the branch over the header and their content. -/
theorem definition_eq (h : At r n pre (l :: ls)) (children : List Node) :
    ∃ inside blanks rest, ls = inside ++ (blanks ++ rest) ∧
      ls.takeWhile Line.inDefinition = inside ++ blanks ∧ ls.dropWhile Line.inDefinition = rest ∧
      blanks.all Line.isBlank = true ∧
      r.definition children n = .ok (.branchOf r.text .pythonDefinition (children
        ++ nodesAfter (pre ++ l.text) (Grammar.content .pythonContent (Line.textAll inside)).1),
        n + 1 + inside.length) := by
  obtain ⟨inside, blanks, rest, hls, hin, hblank, hrest, hlast⟩ := h.next.lastBodyLine none
  have hall : (inside ++ blanks).all Line.inDefinition = true := by
    rw [List.all_append, hin, Bool.true_and, List.all_eq_true]
    intro b hb
    rw [Line.inDefinition, List.all_eq_true.1 hblank b hb, Bool.true_or]
  have htake : rest.takeWhile Line.inDefinition = [] ∧ rest.dropWhile Line.inDefinition = rest := by
    cases rest with
    | nil => exact ⟨rfl, rfl⟩
    | cons m rest =>
      have hm : ¬m.inDefinition = true := Bool.eq_false_iff.1 hrest
      exact ⟨List.takeWhile_cons_of_neg hm, List.dropWhile_cons_of_neg hm⟩
  refine ⟨inside, blanks, rest, hls, ?_, ?_, hblank, ?_⟩
  · rw [hls, ← List.append_assoc, List.takeWhile_append_of_pos (List.all_eq_true.1 hall), htake.1,
      List.append_nil]
  · rw [hls, ← List.append_assoc, List.dropWhile_append_of_pos (List.all_eq_true.1 hall), htake.2]
  · rw [LineReader.definition, hlast, Checked.ok_bind]
    cases inside with
    | nil =>
      have hnone : nodesAfter (pre ++ l.text) (Grammar.content .pythonContent (Line.textAll [])).1 = [] := rfl
      rw [hnone, List.append_nil]
      rfl
    | cons m inside =>
      have hnext := h.next
      rw [hls] at hnext
      exact congrArg (· >>= _) (hnext.body (List.cons_ne_nil m inside) .pythonContent)

theorem definition (h : At r n pre (l :: ls)) (hT : Text.splitTrim l.body = T) {ps : List Piece}
    (hd : Grammar.definitionHeader? T.core = some ps)
    (hblock : Grammar.block l ls = Grammar.definitionBlock ps T l.ending ls) :
    ReadsBlock r pre l ls (r.definition (nodesAfter (pre ++ T.before) ps) n) := by
  obtain ⟨inside, blanks, rest, hls, htake, hdrop, hblank, hread⟩ :=
    h.definition_eq (nodesAfter (pre ++ T.before) ps)
  have hcore := (Grammar.reads_definitionHeader? hd []).eq_append
  rw [List.append_nil, List.append_nil] at hcore
  have hat := h.next
  rw [hls] at hat
  have hb : (Line.textAll blanks).all Text.isBlank = true := by
    have hall := Grammar.all_textAll_takeWhile hat.skip.terminated
    rw [List.takeWhile_append_of_pos (List.all_eq_true.1 hblank), Grammar.textAll_append, List.all_append,
      Bool.and_eq_true] at hall
    exact hall.1
  rw [Grammar.definitionBlock, htake, hdrop, Grammar.textAll_append, ← List.append_assoc,
    Grammar.content_append_blank _ _ hb] at hblock
  rw [hread, h.nodesAfter_inside hT, hcore, ← nodesAfter_append]
  have htight := isTight_definitionHeader hd
  refine h.readsBlock_group hblock (isTight_content htight _ _) blanks hblank hat.skip ?_
  rw [hls]
  exact (List.suffix_append inside _).length_le

end At

/-! ## Statements -/

/-- The blanks before a line only go before the logical line that it begins. -/
theorem logicalLine_core {l : Line} {T : Text.Trimmed} (hT : Text.splitTrim l.body = T) (hcore : T.core ≠ [])
    (ls : List Line) : Grammar.logicalLine l ls
      = { Grammar.logicalLine { l with body := T.core ++ T.after } ls with
          text := T.before ++ (Grammar.logicalLine { l with body := T.core ++ T.after } ls).text } := by
  have htrim : Text.trimEnd (T.core ++ T.after) = T.core := by
    rw [← hT]
    exact congrArg Text.trimEnd (Text.trimEnd_append_trailing (Text.trimStart l.body))
  have hbody : l.body = T.before ++ (T.core ++ T.after) := by rw [← hT, Text.splitTrim_append]
  have hend : Text.trimEnd l.body = T.before ++ T.core := by
    have happend := Text.trimEnd_append T.before (by rwa [htrim])
    rwa [← hbody, htrim] at happend
  have hjoins := Grammar.joinsNext_core (by rwa [hT])
  rw [hT] at hjoins
  have hline : (⟨Text.trimEnd l.body, Text.trailing l.body ++ l.ending, ls⟩ : Grammar.LogicalLine)
      = ⟨T.before ++ Text.trimEnd (T.core ++ T.after),
          Text.trailing (T.core ++ T.after) ++ l.ending, ls⟩ := by
    rw [Text.trailing, Text.trailing, hend, htrim, hbody]
    simp
  cases ls with
  | nil => exact hline
  | cons m ls =>
    rw [Grammar.logicalLine, Grammar.logicalLine, hjoins]
    split
    · rw [← text_splitTrim hT]
      simp [Line.text]
    · exact hline

namespace At

variable {r} {n : Nat} {pre : List Char} {l : Line} {ls : List Line} {T : Text.Trimmed}

theorem statement (h : At r n pre (l :: ls)) (hT : Text.splitTrim l.body = T) (hcore : T.core ≠ [])
    (hblock : Grammar.block l ls = Grammar.statementBlock T l ls) :
    ReadsBlock r pre l ls (r.statement (bytes pre + bytes T.before) n) := by
  obtain ⟨next, hline, hat⟩ := h.logicalLine
  have htext := Grammar.append_logicalLine l ls
  rw [logicalLine_core hT hcore] at hline hat htext
  rw [Grammar.statementBlock] at hblock
  generalize Grammar.logicalLine { l with body := T.core ++ T.after } ls = line at hline hat htext hblock
  dsimp only at hline hat htext
  have hr : r.text = pre ++ T.before ++ (line.text ++ (line.after ++ Line.textAll line.rest)) := by
    rw [h.text_eq, Grammar.textAll_cons, ← htext]
    simp
  have henter := Scanner.enter_between (pre ++ T.before) line.text (line.after ++ Line.textAll line.rest)
  rw [← hr, Text.bytes_append, Nat.add_assoc, ← Text.bytes_append T.before] at henter
  have hkind : (Grammar.Statement.read line.text).piece.kind?.isSome = true := by
    obtain ⟨k, -, hk⟩ := List.mem_map.1 (Grammar.kind?_read line.text)
    rw [← hk]
    rfl
  rw [LineReader.statement, hline, Checked.ok_bind]
  dsimp only
  rw [henter, Checked.ok_bind, Scanner.statement_between, Checked.ok_bind]
  refine h.readsBlock [] rfl (by rwa [hblock]) (Grammar.length_block_rest_le l ls) ?_
  rw [hblock, nodesAfter_gap, Piece.nodesAfter_cons _ _ hkind, nodesAfter_gap, nodesAfter_nil]

end At

/-! ## Rounds -/

namespace At

variable {r} {n : Nat} {pre : List Char} {l : Line} {ls : List Line}

theorem comment (h : At r n pre (l :: ls)) {T : Text.Trimmed} (hT : Text.splitTrim l.body = T)
    (hblock : Grammar.block l ls
      = ⟨[.gap T.before, .token .comment T.core, .gap (T.after ++ l.ending)], ls⟩) :
    ReadsBlock r pre l ls (.ok (.leafOf r.text .comment
      ⟨bytes pre + bytes T.before, bytes pre + bytes T.before + bytes T.core⟩, n + 1)) := by
  have hleaf := Piece.leafOf_append .comment (pre ++ T.before) T.core (T.after ++ l.ending ++ Line.textAll ls)
  rw [← h.text_core hT, Text.bytes_append] at hleaf
  refine h.readsBlock [] rfl (by rw [hblock]; exact h.next) (Grammar.length_block_rest_le l ls) ?_
  rw [hblock, hleaf, nodesAfter_gap, nodesAfter_cons_token, nodesAfter_gap, nodesAfter_nil]

theorem block (h : At r n pre (l :: ls)) {T : Text.Trimmed} (hT : Text.splitTrim l.body = T)
    (hcore : T.core ≠ []) :
    ReadsBlock r pre l ls
      (r.block ⟨bytes pre + bytes T.before, bytes pre + bytes T.before + bytes T.core⟩ n) := by
  have hslice : Checked.slice r.text ⟨bytes pre + bytes T.before, bytes pre + bytes T.before + bytes T.core⟩
      = .ok T.core := by
    have hslice := Text.slice_append (pre ++ T.before) T.core (T.after ++ l.ending ++ Line.textAll ls)
    rw [← h.text_core hT, Text.bytes_append] at hslice
    rw [Checked.slice, hslice]
  have henter := Scanner.enter_between (pre ++ T.before) T.core (T.after ++ l.ending ++ Line.textAll ls)
  rw [← h.text_core hT, Text.bytes_append] at henter
  have hsolid : Scanner.Solid T.core := by
    rw [← hT]
    exact ⟨fun _ => Text.head?_core, fun _ => Text.getLast?_core⟩
  have hblock := Grammar.block.eq_1 l ls
  rw [hT, if_neg (mt List.isEmpty_iff.1 hcore)] at hblock
  rw [LineReader.block, hslice, Checked.ok_bind]
  by_cases hhash : T.core.head? = some '#'
  · rw [if_pos hhash] at hblock ⊢
    exact h.comment hT hblock
  rw [if_neg hhash] at hblock ⊢
  rw [henter, Checked.ok_bind, Scanner.taskHeader?_between hsolid, Checked.ok_bind]
  cases ht : Grammar.TaskHeader.read? T.core with
  | some t =>
    rw [ht] at hblock
    exact h.task hT ht hblock
  | none =>
    rw [ht] at hblock
    dsimp only [Option.map_none] at hblock ⊢
    rw [Scanner.definitionHeader?_between, Checked.ok_bind]
    cases hd : Grammar.definitionHeader? T.core with
    | some ps =>
      rw [hd] at hblock
      exact h.definition hT hd hblock
    | none =>
      rw [hd] at hblock
      exact h.statement hT hcore hblock

/-- A round skips a line that is blank, or reads what begins on a line. -/
theorem round (h : At r n pre (l :: ls)) (out : List Node) :
    ∃ next nodes pre' ms, r.round (n, out) = .ok (.again (next, out ++ nodes)) ∧ At r next pre' ms ∧
      ms.length ≤ ls.length ∧
      nodesAfter pre (Grammar.document (l :: ls)) = nodes ++ nodesAfter pre' (Grammar.document ms) := by
  have hlt : n < r.lines.length := by
    have hlength := h.length_sub
    rw [List.length_cons] at hlength
    omega
  have htrim := Span.trim?_append pre l.body (l.ending ++ Line.textAll ls)
  rw [← h.text_cons] at htrim
  rw [LineReader.round, if_pos hlt, h.get, Checked.ok_bind, htrim, Checked.ok_bind]
  by_cases hcore : (Text.splitTrim l.body).core = []
  · have hblock : Grammar.block l ls = ⟨[.gap l.text], ls⟩ := by
      rw [Grammar.block, hcore]
      rfl
    refine ⟨n + 1, [], pre ++ l.text, ls, ?_, h.next, Nat.le_refl _, ?_⟩
    · rw [if_pos (List.isEmpty_iff.2 hcore), List.append_nil]
    · rw [Grammar.nodesAfter_block, hblock, nodesAfter_gap, nodesAfter_nil]
      simp [textAll, Piece.text]
  · obtain ⟨node, next, pre', ms, hread, hat, hle, hnodes⟩ := h.block rfl hcore
    refine ⟨next, [node], pre', ms, ?_, hat, hle, hnodes⟩
    rw [if_neg (mt List.isEmpty_iff.1 hcore)]
    dsimp only
    rw [hread, Checked.ok_bind]

/-- Each round leaves fewer lines, so the loop ends, with the nodes of all lines. -/
theorem loop_round (h : At r n pre ls) (out : List Node) :
    loop (r.lines.length - ·.1) r.round (n, out) = .ok (out ++ nodesAfter pre (Grammar.document ls)) := by
  induction hk : ls.length using Nat.strongRecOn generalizing n pre ls out with
  | ind k ih =>
    have hlength := h.length_sub
    cases ls with
    | nil =>
      have hround : r.round (n, out) = .ok (.done out) :=
        if_neg (Nat.not_lt.2 (Nat.le_of_sub_eq_zero hlength))
      rw [Checked.loop_done hround, Grammar.nodesAfter_nil, List.append_nil]
    | cons l ls =>
      obtain ⟨next, nodes, pre', ms, hround, hat, hle, hnodes⟩ := h.round out
      have hlt : ms.length < (l :: ls).length := Nat.lt_succ_of_le hle
      have hleft : r.lines.length - next < r.lines.length - n := by rwa [hat.length_sub, hlength]
      rw [Checked.loop_again hround hleft, ih ms.length (hk ▸ hlt) hat _ rfl, hnodes, List.append_assoc]

end At

/-- The reader by offsets reads the root of every text. -/
theorem root_eq (cs : List Char) : root cs = .ok (rootNode cs) := by
  have hloop := (at_ofText cs).loop_round []
  have hrange : (LineTable.ofText cs).range ⟨0, bytes cs⟩ = (Cursor.after []).rangeTo (.after cs) := by
    have hstop := LineTable.position_bytes cs []
    rw [List.append_nil] at hstop
    rw [LineTable.range, hstop, Cursor.rangeTo, Cursor.offset_after, Cursor.offset_after,
      ← LineTable.position_bytes [] cs]
    rfl
  rw [root, ofText_eq, Checked.ok_bind, hloop, Checked.ok_bind, hrange, ← range_rootNode]
  rfl

end LineReader

/-- Every text within the limit can be read by byte offsets without a fault, and the result is the root of its
tree. The reader checks each look-up, slice and difference, that its scanners stay in their windows and
between characters, and that each round of a loop leaves less to do than the one before. -/
theorem parse_by_offsets {limit : Nat} {source : String} (h : bytes source.toList ≤ limit) :
    ∃ root, LineReader.root source.toList = .ok root ∧ parse limit source = .ok ⟨source, some root⟩ :=
  ⟨rootNode source.toList, LineReader.root_eq source.toList, parse_eq_ok h⟩

/-- Characters of several bytes where windows end, groups of braces in others, a group and a value that
nothing closes, and a task that no line closes. -/
def windowEnds : String :=
  "A$\x7bb\x7bä\x7d\x7d[c] = \"\\ü$\x7b@f(\x7b\x7d)\x7d$\x7b\" ∞\nB ?= 'ä\\\n ∞\npython x() \x7b\r\n ö\u00a0"

theorem parse_by_offsets_windowEnds :
    bytes windowEnds.toList ≤ 128 ∧ ∃ root, LineReader.root windowEnds.toList = .ok root ∧
      parse 128 windowEnds = .ok ⟨windowEnds, some root⟩ :=
  ⟨by decide, parse_by_offsets (by decide)⟩

end Recipe
