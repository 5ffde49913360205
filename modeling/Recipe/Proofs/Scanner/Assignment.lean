import Recipe.Proofs.Grammar.Filled
import Recipe.Proofs.Scanner.Place

/-!
# Assignments by offsets

A quoted value is read in a loop that looks at one byte, then moves over it, over the character after a
backslash, or past the closing brace of an expansion; plain text is kept as the offset where it began. An
assignment is a name, a loop over its overrides, an optional flag, an operator and a value.
-/

namespace Recipe.Scanner

open Text (bytes isAscii inClass AsciiClass)
open Checked (Round loop)
open Piece (nodesAfter nodesAfter_nil nodesAfter_gap nodesAfter_cons_token nodesAfter_append textAll)
open Grammar (Cut Value Segment)

variable (s : Scanner)

/-! ## Values -/

/-- The expansion whose dollar sign comes next and whose closing brace stands at an offset. -/
def expansion (close : Nat) : Node :=
  let isInline := (Text.utf8 s.text)[s.pos + 2]? == some '@'.toUInt8
  let opener := if isInline then 3 else 2
  let inside := if isInline then Kind.pythonContent else .identifier
  let content :=
    if s.pos + opener < close then [Node.leafOf s.text inside ⟨s.pos + opener, close⟩] else []
  .branchOf s.text (if isInline then .inlinePython else .variableExpansion)
    (.leafOf s.text .punctuation ⟨s.pos, s.pos + opener⟩ :: content ++
      [.leafOf s.text .punctuation ⟨close, close + 1⟩])

/-- Where the reading of a value stands: the nodes so far, and where the plain text after them
began. -/
structure InValue where
  scanner : Scanner
  plainStart : Nat
  children : List Node

/-- The nodes so far and the plain text up to here. -/
def InValue.nodes (v : InValue) : List Node :=
  if v.plainStart < v.scanner.pos then
    v.children ++ [.leafOf v.scanner.text .stringContent ⟨v.plainStart, v.scanner.pos⟩]
  else v.children

/-- Moves over the next byte or character of a value, or past an expansion. -/
def valueRound (quote : UInt8) (v : InValue) : Checked (Round InValue (Option (List Node × Scanner))) := do
  let s := v.scanner
  match ← s.peek with
  | none => .ok (.done none)
  | some b =>
    if b == quote then
      let next ← s.bump
      .ok (.done (some (v.nodes ++ [.leafOf s.text .punctuation ⟨s.pos, s.pos + 1⟩], next)))
    else if b == '\\'.toUInt8 then
      let next ← (← s.bump).bumpChar
      .ok (.again { v with scanner := next })
    else if ← s.opensGroup then
      match ← s.braceEnd (· == quote) with
      | some close =>
        let next ← s.moveTo (close + 1)
        .ok (.again ⟨next, next.pos, v.nodes ++ [s.expansion close]⟩)
      | none =>
        let next ← s.bump
        .ok (.again { v with scanner := next })
    else
      let next ← s.bumpChar
      .ok (.again { v with scanner := next })

/-- Reads a value from its opening quote on. Without the closing quote the rest of the window is an
error. -/
def value (quote : UInt8) : Checked (Node × Scanner) := do
  let opened ← s.bump
  match ← loop (·.scanner.left) (valueRound quote)
    ⟨opened, opened.pos, [.leafOf s.text .punctuation ⟨s.pos, s.pos + 1⟩]⟩ with
  | some (children, next) => .ok (.branchOf s.text .string children, next)
  | none => .ok (s.restError, ← s.moveTo s.stop)

variable {base seen rest post : List Char} {p : Char → Bool}

theorem textAll_tokens (k : Kind) (t : List Char) : textAll (Piece.tokens k t) = t := by
  cases t <;> simp [Piece.tokens, textAll, Piece.text]

theorem isTight_between_marks (c d : Piece) (hc : c.kind?.isSome = true) (hd : d.kind?.isSome = true)
    (ps : List Piece) : Piece.isTight (c :: ps ++ [d]) = true := by
  rw [Piece.isTight, List.getLast?_concat, List.cons_append, List.head?_cons, Option.any_some,
    Option.any_some, hc, hd]
  rfl

/-- The branch over the leaves of an opening, of the text inside it unless that is empty, and of a
closing brace is the node of the group with these tokens. -/
theorem branchOf_bracketed (k kind : Kind) {opening inside after : List Char} {close : Nat}
    (h : rest = opening ++ (inside ++ '}' :: after))
    (hc : close = bytes base + bytes seen + bytes opening + bytes inside) :
    Node.branchOf (between base seen rest post).text k
        (.leafOf (between base seen rest post).text .punctuation
            ⟨bytes base + bytes seen, bytes base + bytes seen + bytes opening⟩ ::
          (if bytes base + bytes seen + bytes opening < close then
            [.leafOf (between base seen rest post).text kind
              ⟨bytes base + bytes seen + bytes opening, close⟩] else []) ++
          [.leafOf (between base seen rest post).text .punctuation ⟨close, close + 1⟩])
      = (Piece.group k (.token .punctuation opening :: Piece.tokens kind inside ++ [Piece.mark '}'])).node
          (base ++ seen) := by
  have hopen : Node.leafOf (between base seen rest post).text .punctuation
      ⟨bytes base + bytes seen, bytes base + bytes seen + bytes opening⟩
        = (Piece.token .punctuation opening).node (base ++ seen) :=
    leafOf_between (by rw [h]) rfl
  have hin : Node.leafOf (between base seen rest post).text kind
      ⟨bytes base + bytes seen + bytes opening, close⟩
        = (Piece.token kind inside).node (base ++ (seen ++ opening)) :=
    leafOf_between (by rw [h, List.append_assoc]) (by rw [hc, Text.bytes_append, Nat.add_assoc])
  have hclose : Node.leafOf (between base seen rest post).text .punctuation ⟨close, close + 1⟩
      = (Piece.mark '}').node (base ++ (seen ++ (opening ++ inside))) :=
    leafOf_between (b := after) (by rw [h]; simp)
      (by rw [hc, Text.bytes_append, Text.bytes_append, ← Nat.add_assoc, ← Nat.add_assoc]; rfl)
  have hif : (if bytes base + bytes seen + bytes opening < close then
      [(Piece.token kind inside).node (base ++ (seen ++ opening))] else [])
        = nodesAfter (base ++ (seen ++ opening)) (Piece.tokens kind inside) := by
    cases inside with
    | nil => simp [Piece.tokens, nodesAfter_nil, hc]
    | cons c inside =>
      have := c.utf8Size_pos
      rw [if_pos (by rw [hc, Text.bytes_cons]; omega)]
      rfl
  rw [hopen, hin, hclose, hif]
  refine branchOf_between (b := after) (isTight_between_marks _ _ rfl rfl _) ?_ ?_
  · simp [nodesAfter_append, nodesAfter_cons_token, nodesAfter_nil, textAll_tokens, Piece.mark]
  · rw [h]
    simp [Piece.textAll_append, textAll_tokens, Piece.mark, textAll, Piece.text]

theorem expansion_between {g : Cut} (h : Grammar.braceGroup p rest = some g) :
    (between base seen ('$' :: rest) post).expansion (bytes base + bytes seen + 2 + bytes g.front)
      = (Grammar.expansionPiece g.front).node (base ++ seen) := by
  have hrest := Grammar.eq_of_braceGroup h
  have hbyte : ((Text.utf8 (between base seen ('$' :: rest) post).text)[bytes base + bytes seen + 2]?
      == some '@'.toUInt8) = (g.front.head? == some '@') := by
    have hlt : 2 < bytes ('$' :: rest) := by
      rw [hrest, List.cons_append]
      simp only [Text.bytes_cons, Text.bytes_append, show '$'.utf8Size = 1 from rfl,
        show '{'.utf8Size = 1 from rfl, show '}'.utf8Size = 1 from rfl]
      omega
    have hm := Text.getElem?_utf8 (base ++ seen) ('$' :: rest) post hlt
    rw [Text.bytes_append, List.append_assoc] at hm
    rw [text_between, hm, hrest, List.cons_append, Text.utf8_cons_ascii (by decide),
      Text.utf8_cons_ascii (by decide), List.getElem?_cons_succ, List.getElem?_cons_succ,
      ← List.head?_eq_getElem?, Text.head?_utf8_beq (by decide)]
    cases g.front <;> rfl
  rw [expansion, pos_between, hbyte]
  by_cases hg : g.front.head? = some '@'
  · obtain ⟨code, hcode⟩ := List.head?_eq_some_iff.1 hg
    have hwindow : '$' :: rest = ['$', '{', '@'] ++ (code ++ '}' :: g.rest) := by
      rw [hrest, hcode]
      rfl
    have hclose : bytes base + bytes seen + 2 + bytes g.front
        = bytes base + bytes seen + bytes ['$', '{', '@'] + bytes code := by
      rw [hcode, Text.bytes_cons, show '@'.utf8Size = 1 from rfl, show bytes ['$', '{', '@'] = 3 from rfl]
      omega
    rw [hg, hclose, hcode]
    exact branchOf_bracketed .inlinePython .pythonContent hwindow rfl
  · have hwindow : '$' :: rest = ['$', '{'] ++ (g.front ++ '}' :: g.rest) := by
      rw [hrest]
      rfl
    have hpiece : Grammar.expansionPiece g.front = .group .variableExpansion
        (.token .punctuation ['$', '{'] :: Piece.tokens .identifier g.front ++ [Piece.mark '}']) := by
      unfold Grammar.expansionPiece
      split
      · rename_i hcode
        exact absurd (congrArg List.head? hcode) hg
      · rfl
    rw [beq_eq_false_iff_ne.2 hg, hpiece]
    exact branchOf_bracketed .variableExpansion .identifier hwindow rfl

/-- Adds plain text in front, if there is any. -/
def withPlain (cs : List Char) (v : Value) : Value :=
  if cs = [] then v else v.addPlain cs

theorem withPlain_addPlain (cs : List Char) {ds : List Char} (h : ds ≠ []) (v : Value) :
    withPlain cs (v.addPlain ds) = withPlain (cs ++ ds) v := by
  rw [withPlain, withPlain, if_neg (List.append_ne_nil_of_right_ne_nil cs h)]
  cases cs with
  | nil => rfl
  | cons c cs =>
    rw [if_neg (List.cons_ne_nil c cs)]
    obtain ⟨- | ⟨⟨t⟩ | ⟨i⟩, ss⟩, r⟩ := v <;> simp [Value.addPlain]

theorem pieces_withPlain (cs : List Char) {v : Value} (h : ∀ t, v.segments.head? ≠ some (.plain t)) :
    (withPlain cs v).segments.map Segment.piece
      = Piece.tokens .stringContent cs ++ v.segments.map Segment.piece := by
  cases cs with
  | nil => rfl
  | cons c cs =>
    rw [withPlain, if_neg (List.cons_ne_nil c cs), Value.addPlain]
    split
    · rename_i hs
      rw [hs] at h
      exact absurd rfl (h _)
    · rfl

theorem text_expansionPiece (inside : List Char) :
    (Grammar.expansionPiece inside).text = '$' :: '{' :: inside ++ ['}'] := by
  unfold Grammar.expansionPiece
  split <;> simp [Piece.text, textAll, Piece.textAll_append, textAll_tokens, Piece.mark]

variable {q c : Char} {cs : List Char}

/-- The next byte is told from ASCII bytes as the next character is. -/
theorem exists_peek : ∃ b, (between base seen (c :: cs) post).peek = .ok (some b) ∧
    ∀ d, isAscii d = true → (b == d.toUInt8) = (c == d) := by
  obtain ⟨b, -, hb⟩ := Text.exists_head?_utf8 c cs
  refine ⟨b, by rw [peek_between, hb], fun d hd => ?_⟩
  have h := Text.head?_utf8_beq hd (c :: cs)
  rwa [hb, List.head?_cons, Option.some_beq_some, Option.some_beq_some] at h

theorem leafOf_mark (hq : isAscii q = true) :
    Node.leafOf (between base seen (q :: cs) post).text .punctuation
      ⟨bytes base + bytes seen, bytes base + bytes seen + 1⟩ = (Piece.mark q).node (base ++ seen) := by
  have hone : bytes [q] = 1 := Text.utf8Size_of_isAscii hq
  refine leafOf_between (t := [q]) (b := cs) rfl ?_
  rw [hone]

/-- A round ends the value, or goes on past an expansion, an escaped character or one character. -/
theorem valueRound_between (hq : isAscii q = true) (start : Nat) (children : List Node) :
    valueRound q.toUInt8 ⟨between base seen (c :: cs) post, start, children⟩ = .ok (
      let v : InValue := ⟨between base seen (c :: cs) post, start, children⟩
      if c = q then
        .done (some (v.nodes ++ [(Piece.mark q).node (base ++ seen)], between base (seen ++ [q]) cs post))
      else if c = '\\' then
        .again { v with scanner := between base (seen ++ c :: cs.take 1) (cs.drop 1) post }
      else if c = '$' then
        match Grammar.braceGroup (· == q) cs with
        | some g =>
          .again ⟨between base (seen ++ ('$' :: '{' :: g.front ++ ['}'])) g.rest post,
            bytes base + bytes (seen ++ ('$' :: '{' :: g.front ++ ['}'])),
            v.nodes ++ [(Grammar.expansionPiece g.front).node (base ++ seen)]⟩
        | none => .again { v with scanner := between base (seen ++ [c]) cs post }
      else .again { v with scanner := between base (seen ++ [c]) cs post }) := by
  obtain ⟨b, hpeek, hb⟩ := @exists_peek base seen post c cs
  have hp : AsciiClass (· == q) := Text.asciiClass_beq hq
  rw [valueRound]
  simp only [hpeek, Checked.ok_bind, hb q hq, hb '\\' (by decide)]
  simp only [beq_iff_eq]
  split
  · rename_i h
    subst h
    rw [bump_between hq, pos_between, leafOf_mark hq]
    rfl
  split
  · rename_i h
    subst h
    rw [bump_between (by decide), Checked.ok_bind]
    cases cs with
    | nil =>
      rw [bumpChar_between_nil]
      rfl
    | cons d cs =>
      rw [bumpChar_between, List.append_assoc]
      rfl
  split
  · rename_i h
    subst h
    cases hg : Grammar.braceGroup (· == q) cs with
    | some g =>
      rw [opensGroup_of_braceGroup hg, braceEnd_of_braceGroup hp (Text.beq_toUInt8 hq) hg]
      simp only [Checked.ok_bind, if_true]
      rw [moveTo_of_braceGroup hg, expansion_between hg]
      rfl
    | none =>
      rw [opensGroup_between, Checked.ok_bind]
      split
      · rename_i ho
        obtain ⟨ds, rfl⟩ := List.head?_eq_some_iff.1 (beq_iff_eq.1 (Bool.and_eq_true_iff.1 ho).2)
        rw [braceEnd_of_braceGroup_eq_none hp (Text.beq_toUInt8 hq) hg, bump_between (by decide)]
        rfl
      · rw [bumpChar_between]
        rfl
  · rename_i h
    rw [opensGroup_between, List.head?_cons, Option.some_beq_some, beq_eq_false_iff_ne.2 h, bumpChar_between]
    rfl

theorem nodes_between {pre plain : List Char} {children : List Node} :
    InValue.nodes ⟨between base (pre ++ plain) rest post, bytes base + bytes pre, children⟩
      = children ++ nodesAfter (base ++ pre) (Piece.tokens .stringContent plain) := by
  have hleaf : Node.leafOf (between base (pre ++ plain) rest post).text .stringContent
      ⟨bytes base + bytes pre, bytes base + bytes (pre ++ plain)⟩
        = (Piece.token .stringContent plain).node (base ++ pre) :=
    leafOf_between (b := rest) (List.append_assoc _ _ _) (by rw [Text.bytes_append, Nat.add_assoc])
  rw [InValue.nodes]
  dsimp only
  rw [pos_between, hleaf, Text.bytes_append]
  cases plain with
  | nil => simp [Piece.tokens, nodesAfter_nil]
  | cons c plain =>
    have := c.utf8Size_pos
    rw [if_pos (by rw [Text.bytes_cons]; omega)]
    rfl

/-- The nodes and the scanner with which a value ends that begins after `pre`, with plain text pending in
front of it. -/
def valueEnd (base pre post : List Char) (children : List Node) (q : Char) (plain : List Char) (v : Value) :
    List Node × Scanner :=
  let ps := (withPlain plain v).segments.map Segment.piece ++ [Piece.mark q]
  (children ++ nodesAfter (base ++ pre) ps, between base (pre ++ textAll ps) v.rest post)

variable {pre plain : List Char} {children : List Node}

theorem valueEnd_comp_addPlain {ds : List Char} (h : ds ≠ []) :
    valueEnd base pre post children q plain ∘ Value.addPlain ds
      = valueEnd base pre post children q (plain ++ ds) := by
  funext v
  simp only [Function.comp, valueEnd, withPlain_addPlain plain h, Grammar.rest_addPlain]

theorem valueEnd_comp_addExpansion (inside : List Char) :
    valueEnd base pre post children q plain ∘ Value.addExpansion inside
      = valueEnd base (pre ++ plain ++ ('$' :: '{' :: inside ++ ['}'])) post
          (children ++ nodesAfter (base ++ pre) (Piece.tokens .stringContent plain)
            ++ [(Grammar.expansionPiece inside).node (base ++ (pre ++ plain))]) q [] := by
  funext v
  have hgap : (Grammar.expansionPiece inside).kind?.isSome = true := by
    unfold Grammar.expansionPiece
    split <;> rfl
  have hps := pieces_withPlain plain (v := v.addExpansion inside) (by simp [Value.addExpansion])
  simp only [Function.comp, valueEnd, hps]
  simp only [Value.addExpansion, withPlain, if_true, List.map_cons, Segment.piece, nodesAfter_append,
    Piece.textAll_append, textAll_tokens, textAll, Piece.nodesAfter_cons _ _ hgap, text_expansionPiece,
    List.append_assoc, List.cons_append, List.nil_append]

/-- The loop over a value reads it as `Value.read?` does. -/
theorem loop_valueRound (hq : isAscii q = true) :
    loop (·.scanner.left) (valueRound q.toUInt8)
        ⟨between base (pre ++ plain) rest post, bytes base + bytes pre, children⟩
      = .ok ((Value.read? q rest).map (valueEnd base pre post children q plain)) := by
  fun_induction Value.read? q rest generalizing pre plain children with
  | case1 =>
    refine Checked.loop_done ?_
    rw [valueRound, peek_between]
    rfl
  | case2 cs =>
    have hps := pieces_withPlain plain (v := ⟨[], cs⟩) (by simp)
    refine Checked.loop_done ?_
    rw [valueRound_between hq, if_pos rfl, nodes_between]
    simp [valueEnd, hps, nodesAfter_append, nodesAfter_cons_token, nodesAfter_nil, Piece.textAll_append,
      textAll_tokens, Piece.mark, textAll, Piece.text]
  | case3 h =>
    have hround := @valueRound_between base (pre ++ plain) post q '\\' [] hq (bytes base + bytes pre) children
    rw [if_neg h, if_pos rfl] at hround
    refine (Checked.loop_again hround (left_between_lt ['\\'] (List.cons_ne_nil _ _))).trans
      (Checked.loop_done ?_)
    rw [valueRound]
    simp only [List.drop_nil, peek_between]
    rfl
  | case4 d cs h ih =>
    have hround := @valueRound_between base (pre ++ plain) post q '\\' (d :: cs) hq (bytes base + bytes pre)
      children
    rw [if_neg h, if_pos rfl, List.append_assoc] at hround
    rw [Option.map_map, valueEnd_comp_addPlain (List.cons_ne_nil _ _), ← ih]
    exact Checked.loop_again hround (left_between_lt ['\\', d] (List.cons_ne_nil _ _))
  | case5 cs g hg _ hd hs ih =>
    have hround := @valueRound_between base (pre ++ plain) post q '$' cs hq (bytes base + bytes pre) children
    rw [if_neg hd, if_neg hs, if_pos rfl, hg, nodes_between] at hround
    rw [Option.map_map, valueEnd_comp_addExpansion, ← ih, List.append_nil]
    exact Checked.loop_again hround (left_of_braceGroup hg)
  | case6 cs hg hd hs ih =>
    have hround := @valueRound_between base (pre ++ plain) post q '$' cs hq (bytes base + bytes pre) children
    rw [if_neg hd, if_neg hs, if_pos rfl, hg, List.append_assoc] at hround
    rw [Option.map_map, valueEnd_comp_addPlain (List.cons_ne_nil _ _), ← ih]
    exact Checked.loop_again hround (left_between_lt ['$'] (List.cons_ne_nil _ _))
  | case7 c cs hc hs hd ih =>
    have hround := @valueRound_between base (pre ++ plain) post q c cs hq (bytes base + bytes pre) children
    rw [if_neg hc, if_neg hs, if_neg hd, List.append_assoc] at hround
    rw [Option.map_map, valueEnd_comp_addPlain (List.cons_ne_nil _ _), ← ih]
    exact Checked.loop_again hround (left_between_lt [c] (List.cons_ne_nil _ _))

theorem value_between (hq : isAscii q = true) :
    (between base seen (q :: cs) post).value q.toUInt8 = .ok (
      match Value.read? q cs with
      | some v =>
        ((v.piece q).node (base ++ seen), between base (seen ++ (v.piece q).text) v.rest post)
      | none =>
        ((Piece.token .error (q :: cs)).node (base ++ seen), between base (seen ++ q :: cs) [] post)) := by
  have hloop := @loop_valueRound base cs post q (seen ++ [q]) [] [(Piece.mark q).node (base ++ seen)] hq
  rw [List.append_nil] at hloop
  rw [value, bump_between hq, Checked.ok_bind, pos_between, pos_between, leafOf_mark hq, hloop,
    Checked.ok_bind]
  cases hv : Value.read? q cs with
  | none =>
    simp only [Option.map_none, moveTo_stop_between, restError_between]
    rfl
  | some v =>
    have hcs : cs = textAll (v.segments.map Segment.piece) ++ q :: v.rest := by
      have h := (Grammar.reads_value? hv []).eq_append
      rwa [List.append_nil, List.append_nil] at h
    have hnode : Node.branchOf (between base seen (q :: cs) post).text .string
        ((Piece.mark q).node (base ++ seen) ::
          nodesAfter (base ++ (seen ++ [q])) (v.segments.map Segment.piece ++ [Piece.mark q]))
        = (v.piece q).node (base ++ seen) := by
      refine branchOf_between (b := v.rest) (isTight_between_marks _ _ rfl rfl _) ?_ ?_
      · simp [nodesAfter_append, nodesAfter_cons_token, Piece.mark]
      · simp [hcs, Piece.textAll_append, Piece.mark, textAll, Piece.text]
    simp only [Option.map_some, valueEnd, withPlain, if_true, List.singleton_append, hnode]
    simp [Value.piece, Piece.text, Piece.textAll_append, Piece.mark, textAll]

/-! ## Flags and overrides -/

/-- Reads a flag in brackets, after some nodes. -/
def flag? (children : List Node) : Checked (Option (List Node × Scanner)) := do
  match ← s.eat? "[" with
  | none => .ok none
  | some s₁ =>
    let s₂ ← s₁.skipClass Grammar.isFlagChar
    match ← s₂.eat? "]" with
    | none => .ok none
    | some s₃ =>
      let flag := Node.branchOf s.text .variableFlag
        (s.token .punctuation s₁ :: s₁.tokens .identifier s₂ ++ [s₂.token .punctuation s₃])
      .ok (some (children ++ [flag], s₃))

/-- Reads a flag if a bracket comes next. -/
def optionalFlag (children : List Node) : Checked (Option (List Node × Scanner)) := do
  if (← s.peek) == some '['.toUInt8 then s.flag? children else .ok (some (children, s))

/-- Reads an override if one comes next. -/
def overrideRound (st : Scanner × List Node) :
    Checked (Round (Scanner × List Node) (Option (Scanner × List Node))) := do
  if ← st.1.atOverride then
    match ← st.1.eat? ":" with
    | none => .ok (.done none)
    | some s₁ =>
      let s₂ ← s₁.scanBaseName
      let override := Node.branchOf st.1.text .override [st.1.token .punctuation s₁, s₁.token .identifier s₂]
      .ok (.again (s₂, st.2 ++ [override]))
  else .ok (.done (some st))

theorem flag?_eq (cs : List Char) :
    Grammar.flag? cs = (Grammar.literal? "[" cs).bind fun rest =>
      (Grammar.literal? "]" (Cut.span Grammar.isFlagChar rest).rest).map fun after =>
        ⟨[.group .variableFlag (Piece.mark '[' ::
          Piece.tokens .identifier (Cut.span Grammar.isFlagChar rest).front ++ [Piece.mark ']'])],
          after⟩ := by
  unfold Grammar.flag?
  split
  · rename_i rest
    rw [literal?_cons '[' rfl, if_pos rfl, Option.bind_some]
    dsimp only
    split
    · rename_i after hafter
      rw [hafter, literal?_cons ']' rfl, if_pos rfl]
      rfl
    · rename_i hne
      cases hr : (Cut.span Grammar.isFlagChar rest).rest with
      | nil => rw [literal?_nil ']' rfl]; rfl
      | cons d ds => rw [literal?_cons ']' rfl, if_neg (by rintro rfl; exact hne ds hr)]; rfl
  · rename_i hne
    cases cs with
    | nil => rw [literal?_nil '[' rfl]; rfl
    | cons d ds => rw [literal?_cons '[' rfl, if_neg (by rintro rfl; exact hne ds rfl)]; rfl

theorem flag?_between :
    (between base seen rest post).flag? children = .ok ((Grammar.flag? rest).map fun f =>
      (children ++ nodesAfter (base ++ seen) f.pieces,
        between base (seen ++ textAll f.pieces) f.rest post)) := by
  rw [flag?, eat?_between (by decide), flag?_eq, Checked.ok_bind]
  cases hopen : Grammar.literal? "[" rest with
  | none => rfl
  | some cs =>
    simp only [Option.map_some, Option.bind_some, skipClass_between Grammar.asciiClass_isFlagChar,
      Checked.ok_bind, eat?_between (show "]".toList.all isAscii = true by decide)]
    cases hclose : Grammar.literal? "]" (Cut.span Grammar.isFlagChar cs).rest with
    | none => rfl
    | some after =>
      have hrest := Grammar.eq_append_of_literal? hopen
      have hcs := Grammar.eq_append_of_literal? hclose
      have hspan := Grammar.front_append_span Grammar.isFlagChar cs
      simp only [Option.map_some, token_between hrest, token_between hcs, tokens_between hspan.symm]
      rw [branchOf_between (a := seen) (b := after) (isTight_between_marks (Piece.mark '[') (Piece.mark ']')
        rfl rfl (Piece.tokens .identifier (Cut.span Grammar.isFlagChar cs).front))]
      · simp [Piece.nodesAfter_cons_group, nodesAfter_nil, textAll, Piece.text, Piece.textAll_append,
          textAll_tokens, Piece.mark]
      · simp [nodesAfter_append, nodesAfter_cons_token, nodesAfter_nil, textAll_tokens, Piece.mark]
      · have hwindow : rest
            = "[".toList ++ ((Cut.span Grammar.isFlagChar cs).front ++ ("]".toList ++ after)) := by
          rw [← hcs, hspan, hrest]
        rw [hwindow]
        simp [textAll, Piece.text, Piece.textAll_append, textAll_tokens, Piece.mark]

theorem optionalFlag_between :
    (between base seen rest post).optionalFlag children = .ok ((Grammar.optionalFlag rest).map fun f =>
      (children ++ nodesAfter (base ++ seen) f.pieces,
        between base (seen ++ textAll f.pieces) f.rest post)) := by
  rw [optionalFlag, peek_between, Checked.ok_bind, Text.head?_utf8_beq (by decide), flag?_between,
    Grammar.optionalFlag]
  simp only [beq_iff_eq]
  split
  · rfl
  · simp [textAll, nodesAfter_nil]

theorem overrideRound_between (h : Grammar.startsOverride (':' :: cs) = true) :
    overrideRound (between base seen (':' :: cs) post, children)
      = .ok (.again (between base (seen ++ ':' :: (Grammar.baseName cs).front)
        (Grammar.baseName cs).rest post,
          children ++ [(Grammar.overridePiece (Grammar.baseName cs).front).node (base ++ seen)])) := by
  have hname := Grammar.front_append_baseName cs
  have hnode : Node.branchOf (between base seen (':' :: cs) post).text .override
      [(Piece.token .punctuation [':']).node (base ++ seen),
        (Piece.token .identifier (Grammar.baseName cs).front).node (base ++ (seen ++ [':']))]
      = (Grammar.overridePiece (Grammar.baseName cs).front).node (base ++ seen) := by
    refine branchOf_between (b := (Grammar.baseName cs).rest) rfl ?_ ?_
    · simp [nodesAfter_cons_token, nodesAfter_nil, Piece.mark]
    · simp [textAll, Piece.text, Piece.mark, hname]
  have heat : (between base seen (':' :: cs) post).eat? ":"
      = .ok (some (between base (seen ++ [':']) cs post)) := by
    rw [eat?_between (by decide), literal?_cons ':' rfl, if_pos rfl]
    rfl
  rw [overrideRound]
  simp only [atOverride_between, Checked.ok_bind, h, if_true, heat, scanBaseName_between]
  rw [token_between (show ':' :: cs = [':'] ++ cs from rfl), token_between hname.symm, hnode,
    List.append_assoc]
  rfl

theorem loop_overrideRound :
    loop (·.1.left) overrideRound (between base seen rest post, children)
      = .ok (some (between base (seen ++ (Grammar.overrides rest).1.flatMap (':' :: ·))
          (Grammar.overrides rest).2 post,
        children ++ nodesAfter (base ++ seen) ((Grammar.overrides rest).1.map Grammar.overridePiece))) := by
  fun_induction Grammar.overrides rest generalizing seen children with
  | case1 =>
    refine Checked.loop_done ?_
    rw [overrideRound]
    simp [atOverride_between, Grammar.startsOverride, nodesAfter_nil]
  | case2 c cs ho =>
    rename_i others ih
    obtain rfl : c = ':' := Option.some.inj (head?_of_startsOverride ho)
    refine (Checked.loop_again (overrideRound_between ho) (left_between_baseName _)).trans (ih.trans ?_)
    simp [others, Piece.nodesAfter_cons_group, Grammar.overridePiece, textAll, Piece.text, Piece.mark]
  | case3 c cs ho =>
    refine Checked.loop_done ?_
    rw [overrideRound]
    simp [atOverride_between, ho, nodesAfter_nil]

/-! ## Assignments -/

/-- The branch over some nodes and, as an error, over what is left of the window. -/
def close (k : Kind) (children : List Node) : Node :=
  .branchOf s.text k (if s.atEnd then children else children ++ [s.restError])

/-- Reads the value of an assignment, given its first byte and the nodes before it. -/
def assignedValue (b : UInt8) (children : List Node) : Checked Node := do
  if b == '"'.toUInt8 || b == '\''.toUInt8 then
    let (node, s₁) ← s.value b
    let s₂ ← s₁.skipSpacing
    .ok (s₂.close .variableAssignment (children ++ [node]))
  else .ok (.branchOf s.text .variableAssignment (children ++ [s.restError]))

/-- Reads what follows an operator, given the scanner before the operator and the nodes before it. -/
def assigned (before : Scanner) (children : List Node) : Checked Node := do
  let s₁ ← s.skipSpacing
  match ← s₁.peek with
  | none => .ok (.branchOf s.text .variableAssignment (children ++ [before.token .error s]))
  | some b => s₁.assignedValue b (children ++ [before.token .operator s])

/-- Reads an assignment, unless there is no name or no operator in its place. -/
def assignment? : Checked (Option Node) := do
  let s₁ ← s.scanBaseName
  if s.pos < s₁.pos then
    match ← loop (·.1.left) overrideRound (s₁, [s.token .identifier s₁]) with
    | none => .ok none
    | some (s₂, children) =>
      match ← s₂.optionalFlag children with
      | none => .ok none
      | some (children, s₃) =>
        let s₄ ← s₃.skipSpacing
        match ← s₄.eatOperator? with
        | none => .ok none
        | some s₅ => some <$> s₅.assigned s₄ children
  else .ok none

theorem close_between {k : Kind} {parts : List Piece} (hp : Piece.isTight parts = true) (last : Cut) :
    (between base (seen ++ (textAll parts ++ last.front)) last.rest post).close k
      (nodesAfter (base ++ seen) parts)
      = (Grammar.Statement.close k parts last).piece.node (base ++ seen) := by
  have hhead : parts.head?.any (·.kind?.isSome) = true := (Bool.and_eq_true_iff.1 hp).1
  rw [close, atEnd_between, Grammar.Statement.close]
  split
  · exact branchOf_between (b := last.front ++ last.rest) hp rfl (by simp only [List.append_assoc])
  · rw [restError_between]
    refine branchOf_between (b := []) (Piece.isTight_append hhead rfl) ?_ ?_
    · simp [nodesAfter_append, nodesAfter_gap, nodesAfter_cons_token, nodesAfter_nil]
    · simp [textAll, Piece.text, Piece.textAll_append]

theorem assignedValue_between {front : List Piece} (hf : front.head?.any (·.kind?.isSome) = true) {b : UInt8}
    (hb : ∀ d, isAscii d = true → (b == d.toUInt8) = (c == d)) :
    (between base (seen ++ textAll front) (c :: cs) post).assignedValue b (nodesAfter (base ++ seen) front)
      = .ok ((match (if Grammar.isQuote c then Value.read? c cs else none) with
          | some v => .close .variableAssignment (front ++ [v.piece c]) (Grammar.spacing v.rest)
          | none => ⟨.group .variableAssignment (front ++ [.token .error (c :: cs)]), []⟩ :
            Grammar.Statement).piece.node (base ++ seen)) := by
  -- A value that is not quoted, or does not end, is an error up to the end.
  have herror : ∀ {done left : List Char}, done ++ left = textAll front ++ c :: cs →
      Node.branchOf (between base (seen ++ done) left post).text .variableAssignment
        (nodesAfter (base ++ seen) front
          ++ [(Piece.token .error (c :: cs)).node (base ++ (seen ++ textAll front))])
        = (Piece.group .variableAssignment (front ++ [.token .error (c :: cs)])).node (base ++ seen) := by
    intro done left h
    refine branchOf_between (b := []) (Piece.isTight_append hf rfl) ?_ ?_
    · simp [nodesAfter_append, nodesAfter_cons_token, nodesAfter_nil]
    · simp [h, textAll, Piece.text, Piece.textAll_append]
  rw [assignedValue, hb '"' (by decide), hb '\'' (by decide), ← Grammar.isQuote, restError_between]
  cases hq : Grammar.isQuote c with
  | false => exact congrArg Except.ok (herror rfl)
  | true =>
    have hc : isAscii c = true := by
      rw [Grammar.isQuote, Bool.or_eq_true, beq_iff_eq, beq_iff_eq] at hq
      rcases hq with rfl | rfl <;> rfl
    obtain rfl : b = c.toUInt8 := by
      have h := hb c hc
      rwa [beq_self_eq_true, beq_iff_eq] at h
    simp only [if_true, value_between hc, Checked.ok_bind]
    cases Value.read? c cs with
    | none =>
      simp only [skipSpacing_between, Checked.ok_bind, close, atEnd_between]
      refine congrArg Except.ok ?_
      rw [List.append_assoc, List.append_assoc]
      exact herror (by simp [Grammar.spacing, Cut.scan])
    | some v =>
      have hgap : (v.piece c).kind?.isSome = true := rfl
      have htight : Piece.isTight (front ++ [v.piece c]) = true := Piece.isTight_append hf rfl
      have hclose := @close_between base seen post .variableAssignment _ htight (Grammar.spacing v.rest)
      simp only [Piece.textAll_append, textAll, nodesAfter_append, Piece.nodesAfter_cons _ _ hgap,
        nodesAfter_nil, List.append_nil, List.append_assoc] at hclose
      simp only [skipSpacing_between, Checked.ok_bind, List.append_assoc, hclose]

theorem assigned_between {before : List Piece} (hb : before.head?.any (·.kind?.isSome) = true) (op : Cut) :
    (between base (seen ++ (textAll before ++ op.front)) op.rest post).assigned
        (between base (seen ++ textAll before) (op.front ++ op.rest) post) (nodesAfter (base ++ seen) before)
      = .ok ((Grammar.assigned before op).piece.node (base ++ seen)) := by
  have htoken : ∀ k, (between base (seen ++ textAll before) (op.front ++ op.rest) post).token k
      (between base (seen ++ (textAll before ++ op.front)) op.rest post)
        = (Piece.token k op.front).node (base ++ (seen ++ textAll before)) := by
    intro k
    rw [← List.append_assoc seen]
    exact token_between rfl
  rw [assigned, skipSpacing_between, Checked.ok_bind, Grammar.assigned]
  cases hrest : (Grammar.spacing op.rest).rest with
  | nil =>
    rw [peek_between, Checked.ok_bind, htoken]
    refine congrArg Except.ok (branchOf_between (b := op.rest) (Piece.isTight_append hb rfl) ?_ ?_)
    · simp [nodesAfter_append, nodesAfter_cons_token, nodesAfter_nil]
    · simp [textAll, Piece.text, Piece.textAll_append]
  | cons c cs =>
    have hhead : (before ++ [Piece.token .operator op.front, .gap (Grammar.spacing op.rest).front]).head?.any
        (·.kind?.isSome) = true := by
      obtain ⟨first, hf, hfirst⟩ := (Option.any_eq_true _ _).1 hb
      rw [List.head?_append, hf]
      exact hfirst
    have hseen : seen ++ (textAll before ++ op.front) ++ (Grammar.spacing op.rest).front
        = seen ++ textAll (before ++ [.token .operator op.front, .gap (Grammar.spacing op.rest).front]) := by
      simp [textAll, Piece.text, Piece.textAll_append]
    have hnodes : nodesAfter (base ++ seen) before
          ++ [(Piece.token .operator op.front).node (base ++ (seen ++ textAll before))]
        = nodesAfter (base ++ seen)
            (before ++ [.token .operator op.front, .gap (Grammar.spacing op.rest).front]) := by
      simp [nodesAfter_append, nodesAfter_gap, nodesAfter_cons_token, nodesAfter_nil]
    obtain ⟨b, hpeek, hb⟩ := @exists_peek base
      (seen ++ textAll (before ++ [.token .operator op.front, .gap (Grammar.spacing op.rest).front]))
      post c cs
    rw [hseen, hpeek, Checked.ok_bind, htoken .operator, hnodes]
    exact assignedValue_between hhead hb

theorem assignment?_between :
    (between base seen rest post).assignment?
      = .ok ((Grammar.assignment? rest).map fun st => st.piece.node (base ++ seen)) := by
  have hname := Grammar.front_append_baseName rest
  rw [assignment?, scanBaseName_between, Checked.ok_bind, Grammar.assignment?, Grammar.target?]
  by_cases hfront : (Grammar.baseName rest).front = []
  · rw [if_neg (mt pos_lt_between.1 (not_not_intro hfront)), hfront]
    rfl
  · rw [if_pos (pos_lt_between.2 hfront), token_between hname.symm, loop_overrideRound, Checked.ok_bind,
      if_neg (mt List.isEmpty_iff.1 hfront)]
    dsimp only
    rw [optionalFlag_between, Checked.ok_bind]
    cases Grammar.optionalFlag (Grammar.overrides (Grammar.baseName rest).rest).2 with
    | none => rfl
    | some flag =>
      simp only [Option.map_some, Option.bind_some, skipSpacing_between, Checked.ok_bind,
        eatOperator?_between]
      cases hop : Grammar.operator? (Grammar.spacing flag.rest).rest with
      | none => rfl
      | some op =>
        have hbefore := @assigned_between base seen post
          (.token .identifier (Grammar.baseName rest).front ::
              (Grammar.overrides (Grammar.baseName rest).rest).1.map Grammar.overridePiece ++ flag.pieces
            ++ [.gap (Grammar.spacing flag.rest).front]) rfl op
        rw [Grammar.eq_append_of_operator? hop]
        simp only [Piece.textAll_append, textAll, Piece.text, Grammar.textAll_overridePieces,
          nodesAfter_append, nodesAfter_cons_token, nodesAfter_gap, nodesAfter_nil, List.append_assoc,
          List.append_nil, List.cons_append] at hbefore
        simp only [Option.map_some, List.append_assoc, List.cons_append, List.nil_append, hbefore]
        rfl

end Recipe.Scanner
