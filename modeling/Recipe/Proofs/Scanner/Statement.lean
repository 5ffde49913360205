import Recipe.Proofs.Scanner.Assignment

/-!
# Statements by offsets

A directive is its keyword and a loop over words, one path, or a variable with an optional flag. The
scanner that reads a statement tries the keywords one after the other, and goes back to where the
statement begins when a keyword turns out to be the name of a variable. It reads every logical line as
`Statement.read` does (`statement_between`).
-/

namespace Recipe.Scanner

open Text (bytes isAscii)
open Checked (Round loop)
open Piece (nodesAfter nodesAfter_nil nodesAfter_gap nodesAfter_cons_token nodesAfter_append textAll)
open Grammar (Cut Directive SpacedWord)

variable (s : Scanner)

/-! ## Arguments -/

/-- The kind of the next word of a directive, given the nodes before it and the word. -/
def wordKind (a : Grammar.Arguments) (children : List Node) (word : List Char) : Kind :=
  if a = .task ∧ 1 < children.length ∧ (word = "after".toList ∨ word = "before".toList) then .keyword
  else if a = .paths then .path else .identifier

/-- Reads a word and the spacing after it. -/
def wordRound (a : Grammar.Arguments) (st : Scanner × List Node) :
    Checked (Round (Scanner × List Node) (Scanner × List Node)) := do
  if st.1.atEnd then .ok (.done st)
  else
    let next ← st.1.scanWord
    if st.1.pos < next.pos then
      let word ← Checked.slice st.1.text ⟨st.1.pos, next.pos⟩
      let after ← next.skipSpacing
      .ok (.again (after, st.2 ++ [st.1.token (wordKind a st.2 word) next]))
    else .ok (.done st)

/-- Reads words as far as they go: the nodes up to there and the scanner after them. -/
def words (a : Grammar.Arguments) (keyword : Node) : Checked (List Node × Scanner) := do
  let st ← loop (·.1.left) (wordRound a) (s, [keyword])
  .ok (st.2, st.1)

/-- Reads the path up to the end of the window. -/
def path (keyword : Node) : Checked (List Node × Scanner) := do
  let path ← Node.contentOf s.text .path ⟨s.pos, s.stop⟩
  let s₁ ← s.moveTo s.stop
  .ok (keyword :: path, s₁)

/-- Reads a variable with an optional flag, unless the flag is broken. -/
def variableFlag (keyword : Node) : Checked (Option (List Node × Scanner)) := do
  let s₁ ← s.scanName
  if s.pos < s₁.pos then
    match ← s₁.optionalFlag [keyword, s.token .identifier s₁] with
    | none => .ok none
    | some (children, s₂) =>
      let s₃ ← s₂.skipSpacing
      .ok (some (children, s₃))
  else
    let s₂ ← s₁.skipSpacing
    .ok (some ([keyword], s₂))

/-- Reads the arguments of a directive after its keyword. -/
def arguments (a : Grammar.Arguments) (keyword : Node) : Checked (Option (List Node × Scanner)) :=
  match a with
  | .path => some <$> s.path keyword
  | .variableFlag => s.variableFlag keyword
  | .paths | .names | .task => some <$> s.words a keyword

variable {base seen rest post cs : List Char}

theorem slice_between {t b : List Char} (h : rest = t ++ b) :
    Checked.slice (between base seen rest post).text
        ⟨(between base seen rest post).pos, (between base (seen ++ t) b post).pos⟩ = .ok t := by
  have hslice := Text.slice_append (base ++ seen) t (b ++ post)
  rw [List.append_assoc, Text.bytes_append] at hslice
  rw [Checked.slice, text_between, pos_between, pos_between, h, List.append_assoc, Text.bytes_append,
    ← Nat.add_assoc, hslice]

theorem spacing_spacing (cs : List Char) :
    Grammar.spacing (Grammar.spacing cs).rest = ⟨[], (Grammar.spacing cs).rest⟩ := by
  unfold Grammar.spacing
  induction cs with
  | nil => rfl
  | cons c cs ih =>
    rw [Cut.scan]
    split
    · exact ih
    · rename_i h
      rw [Cut.scan, if_neg h]

/-- Where a word begins it is read, with the spacing after it. -/
theorem wordRound_between {a : Grammar.Arguments} {ps : List Piece} {gap : List Char}
    (h : (Grammar.word cs).front ≠ []) :
    wordRound a (between base (textAll ps ++ gap) cs post, nodesAfter base ps)
      = .ok (.again
          (let w := (Grammar.word cs).front
          let qs := ps ++ SpacedWord.pieces (wordKind a (nodesAfter base ps) w) ⟨gap, w⟩
          let next := Grammar.spacing (Grammar.word cs).rest
          (between base (textAll qs ++ next.front) next.rest post, nodesAfter base qs))) := by
  have hcs : cs = (Grammar.word cs).front ++ (Grammar.word cs).rest := (Grammar.front_append_word cs).symm
  have hne : cs.isEmpty = false := by
    cases cs with
    | nil => exact absurd rfl h
    | cons c cs => rfl
  rw [wordRound]
  dsimp only
  rw [atEnd_between, hne, scanWord_between, if_neg Bool.false_ne_true, Checked.ok_bind,
    if_pos (pos_lt_between.2 h), slice_between hcs, Checked.ok_bind, skipSpacing_between, Checked.ok_bind,
    token_between hcs]
  simp [SpacedWord.pieces, Piece.textAll_append, nodesAfter_append, nodesAfter_gap, nodesAfter_cons_token,
    nodesAfter_nil, textAll, Piece.text]

/-- Where no word begins the loop over words ends. -/
theorem wordRound_between_done {a : Grammar.Arguments} {children : List Node}
    (h : (Grammar.word cs).front = []) :
    wordRound a (between base seen cs post, children)
      = .ok (.done (between base seen cs post, children)) := by
  rw [wordRound]
  dsimp only
  rw [scanWord_between, Checked.ok_bind, if_neg (mt pos_lt_between.1 (not_not_intro h)), ite_self]

theorem left_between_word {seen' : List Char} (h : (Grammar.word cs).front ≠ []) :
    (between base seen' (Grammar.spacing (Grammar.word cs).rest).rest post).left
      < (between base seen cs post).left := by
  have hcs : cs = ((Grammar.word cs).front ++ (Grammar.spacing (Grammar.word cs).rest).front)
      ++ (Grammar.spacing (Grammar.word cs).rest).rest := by
    rw [List.append_assoc, Grammar.front_append_spacing, Grammar.front_append_word]
  conv => rhs; rw [hcs]
  exact left_between_lt _ fun he => h (List.append_eq_nil_iff.1 he).1

/-- Rounds over words whose kinds `kindOf` do not depend on the nodes before them give the nodes of
all words, and leave the scanner after the last one. -/
theorem loop_wordRound {a : Grammar.Arguments} {kindOf : SpacedWord → Kind} {ps : List Piece}
    (hk : ∀ others w, wordKind a (nodesAfter base ps ++ others) w.word = kindOf w) :
    loop (·.1.left) (wordRound a)
        (between base (textAll ps ++ (Grammar.spacing cs).front) (Grammar.spacing cs).rest post,
          nodesAfter base ps)
      = .ok (let qs := ps ++ (Grammar.words cs).words.flatMap fun w => w.pieces (kindOf w)
          (between base (textAll qs ++ (Grammar.words cs).last.front) (Grammar.words cs).last.rest post,
            nodesAfter base qs)) := by
  fun_induction Grammar.words cs generalizing ps with
  | case1 cs gap h =>
    rw [List.flatMap_nil, List.append_nil]
    exact Checked.loop_done (wordRound_between_done ‹_›)
  | case2 cs gap next h =>
    rename_i ih
    have hkind := hk [] ⟨gap.front, next.front⟩
    rw [List.append_nil] at hkind
    refine (Checked.loop_again (wordRound_between h) (left_between_word h)).trans ?_
    dsimp only
    rw [hkind, ih]
    · simp only [List.flatMap_cons, List.append_assoc]
      rfl
    · intro others w
      rw [nodesAfter_append, List.append_assoc]
      exact hk _ w

/-- The pieces of the words that a directive takes. -/
def wordPieces (a : Grammar.Arguments) (ws : List SpacedWord) : List Piece :=
  match a with
  | .task => Grammar.taskPieces ws
  | a => ws.flatMap (SpacedWord.pieces (if a = .paths then .path else .identifier))

theorem words_of_loop {a : Grammar.Arguments} {w gap : List Char} {st : Scanner × List Node}
    (h : loop (·.1.left) (wordRound a)
      (between base (textAll [.token .keyword w] ++ gap) cs post, nodesAfter base [.token .keyword w])
      = .ok st) :
    (between base (w ++ gap) cs post).words a ((Piece.token .keyword w).node base) = .ok (st.2, st.1) := by
  rw [textAll, textAll, Piece.text, List.append_nil, nodesAfter_cons_token, nodesAfter_nil] at h
  rw [words, h]
  rfl

/-- After the name of a task a word has the kind of a clause. -/
theorem wordKind_task {children : List Node} (h : 1 < children.length) (w : SpacedWord) :
    wordKind .task children w.word = Grammar.clauseKind w :=
  if_congr ⟨fun hw => hw.2.2, fun hw => ⟨rfl, h, hw⟩⟩ rfl (if_neg (by decide))

theorem words_between {a : Grammar.Arguments} {w : List Char} :
    (between base (w ++ (Grammar.spacing cs).front) (Grammar.spacing cs).rest post).words a
        ((Piece.token .keyword w).node base)
      = .ok (let ps := .token .keyword w :: wordPieces a (Grammar.words cs).words
          (nodesAfter base ps,
            between base (textAll ps ++ (Grammar.words cs).last.front)
              (Grammar.words cs).last.rest post)) := by
  cases a with
  | task =>
    rw [Grammar.words]
    dsimp only
    split
    · rename_i h
      exact words_of_loop (Checked.loop_done (wordRound_between_done h))
    · -- The first word is the name of the task. Two nodes stand before every other word.
      rename_i h
      have hk : ∀ (gap name : List Char) (others : List Node) (v : SpacedWord),
          wordKind .task
            (nodesAfter base ([.token .keyword w] ++ SpacedWord.pieces .identifier ⟨gap, name⟩) ++ others)
            v.word = Grammar.clauseKind v := by
        intro gap name others v
        refine wordKind_task ?_ v
        simp [SpacedWord.pieces, nodesAfter_gap, nodesAfter_cons_token]
      exact words_of_loop ((Checked.loop_again (wordRound_between h) (left_between_word h)).trans
        (loop_wordRound (hk _ _)))
  | paths => exact words_of_loop (loop_wordRound fun _ _ => rfl)
  | path => exact words_of_loop (loop_wordRound fun _ _ => rfl)
  | names => exact words_of_loop (loop_wordRound fun _ _ => rfl)
  | variableFlag => exact words_of_loop (loop_wordRound fun _ _ => rfl)

theorem path_between {keyword : Node} :
    (between base seen rest post).path keyword
      = .ok (keyword :: nodesAfter (base ++ seen) (Grammar.content .path rest).1,
          between base (seen ++ rest) [] post) := by
  have hpath := Piece.contentOf_append .path (base ++ seen) rest post
  rw [List.append_assoc, Text.bytes_append] at hpath
  rw [path, moveTo_stop_between, text_between, pos_between, stop_between, hpath]
  rfl

theorem variableFlag_between {keyword : Node} :
    (between base seen cs post).variableFlag keyword
      = .ok (let name := Grammar.fullName cs
          if name.front.isEmpty then
            let gap := Grammar.spacing name.rest
            some ([keyword], between base (seen ++ name.front ++ gap.front) gap.rest post)
          else (Grammar.optionalFlag name.rest).map fun flag =>
            let gap := Grammar.spacing flag.rest
            ([keyword, (Piece.token .identifier name.front).node (base ++ seen)]
                ++ nodesAfter (base ++ (seen ++ name.front)) flag.pieces,
              between base (seen ++ name.front ++ textAll flag.pieces ++ gap.front) gap.rest post)) := by
  have hname := Grammar.front_append_fullName cs
  rw [variableFlag, scanName_between, Checked.ok_bind]
  by_cases hfront : (Grammar.fullName cs).front = []
  · rw [if_neg (mt pos_lt_between.1 (not_not_intro hfront)), skipSpacing_between]
    dsimp only
    rw [if_pos (List.isEmpty_iff.2 hfront)]
    rfl
  · rw [if_pos (pos_lt_between.2 hfront), token_between hname.symm, optionalFlag_between, Checked.ok_bind]
    dsimp only
    rw [if_neg (mt List.isEmpty_iff.1 hfront)]
    cases Grammar.optionalFlag (Grammar.fullName cs).rest with
    | none => rfl
    | some flag =>
      simp only [Option.map_some, skipSpacing_between]
      rfl

/-! ## Directives -/

/-- The node of a directive from its children and the scanner after them. Without arguments the whole
window is an error. -/
def finish (k : Kind) : Option (List Node × Scanner) → Node
  | none => s.wholeError
  | some (children, last) => if children.length = 1 then s.wholeError else last.close k children

/-- Reads a directive after its keyword. -/
def directive (d : Directive) (keyword : Node) : Checked Node := do
  let s₁ ← s.skipSpacing
  let found ← s₁.arguments d.arguments keyword
  .ok (s.finish d.kind found)

theorem isTight_words (a : Grammar.Arguments) (w : List Char) {ws : List SpacedWord} (h : ws ≠ []) :
    Piece.isTight (.token .keyword w :: wordPieces a ws) = true := by
  have hlast : ∀ (kindOf : SpacedWord → Kind) {vs : List SpacedWord}, vs ≠ [] →
      (vs.flatMap fun v => v.pieces (kindOf v)).getLast?.any (·.kind?.isSome) = true := by
    intro kindOf vs hv
    rw [← List.dropLast_append_getLast hv, List.flatMap_append, List.flatMap_singleton, List.getLast?_append]
    rfl
  refine @Piece.isTight_append [.token .keyword w] _ rfl ?_
  cases a with
  | task =>
    obtain ⟨v, vs, rfl⟩ := List.exists_cons_of_ne_nil h
    cases vs with
    | nil => rfl
    | cons u us =>
      have hus := hlast Grammar.clauseKind (List.cons_ne_nil u us)
      obtain ⟨last, hl, hgap⟩ := (Option.any_eq_true _ _).1 hus
      change (v.pieces .identifier ++ _).getLast?.any _ = true
      rw [List.getLast?_append, hl]
      exact hgap
  | _ => exact hlast _ h

theorem isTight_optionalFlag {flag : Grammar.Parts} (h : Grammar.optionalFlag cs = some flag)
    {ps : List Piece} (hp : Piece.isTight ps = true) : Piece.isTight (ps ++ flag.pieces) = true := by
  rw [Grammar.optionalFlag] at h
  split at h
  · rw [flag?_eq] at h
    obtain ⟨_, -, hflag⟩ := Option.bind_eq_some_iff.1 h
    obtain ⟨_, -, rfl⟩ := Option.map_eq_some_iff.1 hflag
    exact Piece.isTight_append (Bool.and_eq_true_iff.1 hp).1 rfl
  · cases h
    rwa [List.append_nil]

section

variable {s : Scanner} {d : Directive} (hs : s.wholeError = (Grammar.Statement.refused cs).piece.node base)

include hs

theorem finish_words (a : Grammar.Arguments) (ws : Grammar.Words) :
    s.finish d.kind (some (let ps := .token .keyword d.word.toList :: wordPieces a ws.words
        (nodesAfter base ps, between base (textAll ps ++ ws.last.front) ws.last.rest post)))
      = (d.ofWords cs ws (wordPieces a ws.words)).piece.node base := by
  rw [finish, Directive.ofWords]
  cases hws : ws.words with
  | nil => cases a <;> exact hs
  | cons v vs =>
    have hclose := @close_between base [] post d.kind _
      (isTight_words a d.word.toList (List.cons_ne_nil v vs))
      ws.last
    rw [List.append_nil, List.nil_append] at hclose
    rw [if_neg, hclose]
    · rfl
    · cases a <;> simp [wordPieces, Grammar.taskPieces, SpacedWord.pieces, nodesAfter_gap,
        nodesAfter_cons_token]

theorem finish_path :
    s.finish d.kind (some (let gap := Grammar.spacing rest
        let seen := d.word.toList ++ gap.front
        ((Piece.token .keyword d.word.toList).node base
            :: nodesAfter (base ++ seen) (Grammar.content .path gap.rest).1,
          between base (seen ++ gap.rest) [] post)))
      = (d.readPath cs rest).piece.node base := by
  dsimp only [finish, Directive.readPath, Grammar.content]
  split
  · exact hs
  · have hpath := Text.splitTrim_append (Grammar.spacing rest).rest
    rw [if_neg (by simp [nodesAfter_gap, nodesAfter_cons_token]), close, atEnd_between, List.isEmpty_nil,
      if_pos rfl]
    have hbranch := @branchOf_between base
      (d.word.toList ++ (Grammar.spacing rest).front ++ (Grammar.spacing rest).rest) [] post []
      (Text.splitTrim (Grammar.spacing rest).rest).after d.kind
      [.token .keyword d.word.toList,
        .gap ((Grammar.spacing rest).front ++ (Text.splitTrim (Grammar.spacing rest).rest).before),
        .token .path (Text.splitTrim (Grammar.spacing rest).rest).core]
    rw [List.append_nil base] at hbranch
    refine hbranch rfl ?_ ?_
    · simp [nodesAfter_gap, nodesAfter_cons_token]
    · simp [textAll, Piece.text, hpath]

theorem finish_variableFlag :
    s.finish d.kind (let gap := Grammar.spacing rest
        let seen := d.word.toList ++ gap.front
        let name := Grammar.fullName gap.rest
        if name.front.isEmpty then
          let gap := Grammar.spacing name.rest
          some ([(Piece.token .keyword d.word.toList).node base],
            between base (seen ++ name.front ++ gap.front) gap.rest post)
        else (Grammar.optionalFlag name.rest).map fun flag =>
          let gap := Grammar.spacing flag.rest
          ([(Piece.token .keyword d.word.toList).node base,
              (Piece.token .identifier name.front).node (base ++ seen)]
              ++ nodesAfter (base ++ (seen ++ name.front)) flag.pieces,
            between base (seen ++ name.front ++ textAll flag.pieces ++ gap.front) gap.rest post))
      = (d.readVariableFlag cs rest).piece.node base := by
  dsimp only [Directive.readVariableFlag]
  split
  · exact hs
  · cases hflag : Grammar.optionalFlag (Grammar.fullName (Grammar.spacing rest).rest).rest with
    | none => exact hs
    | some flag =>
      have hclose := @close_between base [] post d.kind _ (isTight_optionalFlag hflag
        (show Piece.isTight [.token .keyword d.word.toList, .gap (Grammar.spacing rest).front,
          .token .identifier (Grammar.fullName (Grammar.spacing rest).rest).front] = true from rfl))
        (Grammar.spacing flag.rest)
      rw [List.append_nil, List.nil_append] at hclose
      rw [Option.map_some, finish, if_neg (by simp)]
      refine Eq.trans ?_ hclose
      simp [textAll, Piece.text, nodesAfter_gap, nodesAfter_cons_token]

end

/-- The scanner that has got past the keyword of a directive and the spacing gives the node of the
directive that the grammar reads. -/
theorem directive_between {s : Scanner} {d : Directive}
    (hskip : s.skipSpacing
      = .ok (between base (d.word.toList ++ (Grammar.spacing rest).front) (Grammar.spacing rest).rest post))
    (hs : s.wholeError = (Grammar.Statement.refused cs).piece.node base) :
    s.directive d ((Piece.token .keyword d.word.toList).node base)
      = .ok ((d.read cs rest).piece.node base) := by
  rw [directive, hskip, Checked.ok_bind, Directive.read]
  cases d.arguments with
  | path => simp only [arguments, path_between, Checked.map_ok, Checked.ok_bind, finish_path hs]
  | variableFlag => simp only [arguments, variableFlag_between, Checked.ok_bind, finish_variableFlag hs]
  | paths =>
    simp only [arguments, words_between, Checked.map_ok, Checked.ok_bind, finish_words hs]
    rfl
  | names =>
    simp only [arguments, words_between, Checked.map_ok, Checked.ok_bind, finish_words hs]
    rfl
  | task =>
    simp only [arguments, words_between, Checked.map_ok, Checked.ok_bind, finish_words hs]
    rfl

/-- Reads an assignment; what is none is an error. -/
def assignment : Checked Node := do
  let found ← s.assignment?
  .ok (found.getD s.wholeError)

/-- Tries the words of some directives. One that is followed by an operator is the name of a variable,
and the statement is read again from its beginning. -/
def directives : List Directive → Checked Node
  | [] => s.assignment
  | d :: ds => do
    match ← s.eatKeyword? d.word with
    | none => directives ds
    | some s₁ =>
      let s₂ ← s₁.skipSpacing
      if ← s₂.atOperator then
        let s₃ ← s₂.moveTo s.pos
        s₃.assignment
      else s₂.directive d (s.token .keyword s₁)

theorem assignment_between :
    (between base [] cs post).assignment = .ok ((Grammar.Statement.readAssignment cs).piece.node base) := by
  rw [assignment, assignment?_between, Checked.ok_bind, wholeError_between, List.append_nil]
  cases h : Grammar.assignment? cs <;> simp [Grammar.Statement.readAssignment, h, Grammar.Statement.refused]

theorem directives_between {ds : List Directive} (h : ∀ d ∈ ds, d.word.toList.all isAscii = true) :
    (between base [] cs post).directives ds
      = .ok ((match ds.findSome? fun d => (Grammar.keyword? d.word cs).map fun rest => (d, rest) with
          | some (d, rest) =>
            if (Grammar.operator? (Grammar.spacing rest).rest).isSome then Grammar.Statement.readAssignment cs
            else d.read cs rest
          | none => Grammar.Statement.readAssignment cs : Grammar.Statement).piece.node base) := by
  induction ds with
  | nil => exact assignment_between
  | cons d ds ih =>
    have hd := h d List.mem_cons_self
    rw [directives, eatKeyword?_between hd, Checked.ok_bind, List.findSome?_cons]
    cases hword : Grammar.keyword? d.word cs with
    | none => exact ih fun e he => h e (List.mem_cons_of_mem d he)
    | some rest =>
      have hcs := Grammar.eq_append_of_keyword? hword
      simp only [Option.map_some, skipSpacing_between, Checked.ok_bind, atOperator_between]
      split
      · have hback : (between base ([] ++ d.word.toList ++ (Grammar.spacing rest).front)
            (Grammar.spacing rest).rest post).moveTo (between base [] cs post).pos
              = .ok (between base [] cs post) := by
          refine moveTo_between ?_ rfl
          rw [List.append_assoc, Grammar.front_append_spacing, List.append_assoc, ← hcs]
        rw [hback, Checked.ok_bind, assignment_between]
      · have hskip := @skipSpacing_between base (d.word.toList ++ (Grammar.spacing rest).front)
          (Grammar.spacing rest).rest post
        rw [spacing_spacing, List.append_nil] at hskip
        rw [token_between hcs, List.append_nil]
        refine directive_between hskip ?_
        rw [wholeError_between, List.append_assoc, Grammar.front_append_spacing, List.nil_append, ← hcs]
        rfl

/-! ## Statements -/

/-- Reads an export after its keyword: an assignment or the name of a variable. -/
def exported (keyword : Node) : Checked Node := do
  let s₁ ← s.skipSpacing
  let s₂ ← s₁.scanName
  let s₃ ← s₂.skipSpacing
  if s₁.pos < s₂.pos then
    if ← s₃.atOperator then
      let s₄ ← s₃.moveTo s₁.pos
      match ← s₄.assignment? with
      | none => .ok s.wholeError
      | some node => .ok (.branchOf s.text .exportStatement [keyword, node])
    else if s₃.atEnd then
      .ok (.branchOf s.text .exportStatement [keyword, s₁.token .identifier s₂])
    else .ok s.wholeError
  else .ok s.wholeError

/-- Reads the statement of a logical line. -/
def statement : Checked Node := do
  match ← s.eatKeyword? "export" with
  | some s₁ => s₁.exported (s.token .keyword s₁)
  | none =>
    match ← s.eatKeyword? Directive.exportFunctions.word with
    | some s₁ => s₁.directive Directive.exportFunctions (s.token .keyword s₁)
    | none => s.directives Directive.table

/-- The branch over the keyword `export` and the node of the piece `p` after the spacing is the node
of the export of `p`. -/
theorem branchOf_export {p : Piece} {after : List Char} (hp : p.kind?.isSome = true)
    (h : (Grammar.spacing rest).rest = p.text ++ after) :
    Node.branchOf (between base "export".toList rest post).text .exportStatement
        [(Piece.token .keyword "export".toList).node base,
          p.node (base ++ ("export".toList ++ (Grammar.spacing rest).front))]
      = (Piece.group .exportStatement
          [.token .keyword "export".toList, .gap (Grammar.spacing rest).front, p]).node base := by
  have hgap := Grammar.front_append_spacing rest
  have hgroup := @branchOf_between base "export".toList rest post [] after .exportStatement
    [.token .keyword "export".toList, .gap (Grammar.spacing rest).front, p]
  rw [List.append_nil base] at hgroup
  refine hgroup (by simpa [Piece.isTight, Piece.kind?] using hp) ?_ ?_
  · simp [nodesAfter_cons_token, nodesAfter_gap, nodesAfter_nil, Piece.nodesAfter_cons _ _ hp]
  · rw [h] at hgap
    simp [textAll, Piece.text, hgap]

theorem exported_between (hcs : cs = "export".toList ++ rest) :
    (between base "export".toList rest post).exported ((Piece.token .keyword "export".toList).node base)
      = .ok ((Grammar.Statement.readExport cs rest).piece.node base) := by
  have hname := Grammar.front_append_fullName (Grammar.spacing rest).rest
  have hwhole : (between base "export".toList rest post).wholeError
      = (Grammar.Statement.refused cs).piece.node base := by
    rw [wholeError_between, ← hcs]
    rfl
  rw [exported, skipSpacing_between, Checked.ok_bind, scanName_between, Checked.ok_bind, skipSpacing_between,
    Checked.ok_bind, hwhole, Grammar.Statement.readExport]
  by_cases hfront : (Grammar.fullName (Grammar.spacing rest).rest).front = []
  · rw [if_neg (mt pos_lt_between.1 (not_not_intro hfront)), if_pos (List.isEmpty_iff.2 hfront)]
  · rw [if_pos (pos_lt_between.2 hfront), atOperator_between, Checked.ok_bind,
      if_neg (mt List.isEmpty_iff.1 hfront)]
    split
    · have hback : (between base ("export".toList ++ (Grammar.spacing rest).front
            ++ (Grammar.fullName (Grammar.spacing rest).rest).front
            ++ (Grammar.spacing (Grammar.fullName (Grammar.spacing rest).rest).rest).front)
          (Grammar.spacing (Grammar.fullName (Grammar.spacing rest).rest).rest).rest post).moveTo
            (between base ("export".toList ++ (Grammar.spacing rest).front)
              (Grammar.spacing rest).rest post).pos
          = .ok (between base ("export".toList ++ (Grammar.spacing rest).front)
              (Grammar.spacing rest).rest post) := by
        refine moveTo_between ?_ rfl
        rw [List.append_assoc, Grammar.front_append_spacing, List.append_assoc, hname]
      rw [hback, Checked.ok_bind, assignment?_between, Checked.ok_bind]
      cases hst : Grammar.assignment? (Grammar.spacing rest).rest with
      | none => rfl
      | some st =>
        have hread := (Grammar.spells_assignment? hst [] rfl).1.eq_append
        rw [List.append_nil, List.append_nil, textAll, textAll, List.append_nil] at hread
        exact congrArg Except.ok (branchOf_export (by rw [Grammar.kind?_assignment? hst]; rfl) hread)
    · rw [atEnd_between, token_between hname.symm, branchOf_export rfl hname.symm]
      split <;> rfl

theorem statement_between :
    (between base [] cs post).statement = .ok ((Grammar.Statement.read cs).piece.node base) := by
  have htable : ∀ d ∈ Directive.table, d.word.toList.all isAscii = true := by decide
  have hfunctions : Directive.exportFunctions.word.toList.all isAscii = true := by decide
  rw [statement, eatKeyword?_between (by decide), Checked.ok_bind, Grammar.Statement.read]
  cases hexport : Grammar.keyword? "export" cs with
  | some rest =>
    have hcs := Grammar.eq_append_of_keyword? hexport
    simp only [Option.map_some, token_between hcs, List.append_nil]
    exact exported_between hcs
  | none =>
    simp only [Option.map_none, eatKeyword?_between hfunctions, Checked.ok_bind]
    cases hword : Grammar.keyword? Directive.exportFunctions.word cs with
    | some rest =>
      have hcs := Grammar.eq_append_of_keyword? hword
      simp only [Option.map_some, token_between hcs, List.append_nil]
      refine directive_between skipSpacing_between ?_
      rw [wholeError_between, List.nil_append, ← hcs]
      rfl
    | none => exact directives_between htable

end Recipe.Scanner
