import Mathlib.Data.List.Basic
import Recipe.Proofs.Embedded.Body
import Recipe.Proofs.Grammar.Inline
import Recipe.Proofs.Tree.Append

/-!
# Embedded code

Which code a statement embeds is said by its nodes and the source (`Node.embeddedCode`). Candidates fit
the code of a part of the source if they stand there one after the other, each around a text without
blanks at its ends, and are that code (`Candidate.Fits`); this is kept when parts are put together
(`Fits.append`). The candidates of inline code fit it wherever it stands (`Candidate.fits_inlines`): its
closing brace keeps it apart from what follows.
-/

namespace Recipe

open Text (bytes)
open Piece (textAll nodesAfter)

/-! ## Ranges of trimmed texts -/

/-- A text begins and ends with characters that are not blank. -/
structure Text.Solid (cs : List Char) : Prop where
  starts : ∃ c, cs.head? = some c ∧ isBlank c = false
  ends : EndsSolid cs

theorem Text.solid_core {cs : List Char} (h : (splitTrim cs).core ≠ []) :
    Solid (splitTrim cs).core := by
  have hh := List.head?_eq_some_head h
  have hl := List.getLast?_eq_some_getLast h
  exact ⟨⟨_, hh, head?_core hh⟩, _, hl, getLast?_core hl⟩

namespace Range

/-- The range of a text that stands after another. -/
def after (pre body : List Char) : Range :=
  (Cursor.after pre).rangeTo (.after (pre ++ body))

@[simp] theorem start_after (pre body : List Char) : (after pre body).span.start = bytes pre :=
  Cursor.offset_after pre

@[simp] theorem stop_after (pre body : List Char) :
    (after pre body).span.stop = bytes pre + bytes body := by
  rw [← Text.bytes_append]
  exact Cursor.offset_after (pre ++ body)

theorem covers_after (pre body post : List Char) :
    (after pre body).Covers (pre ++ (body ++ post)) body :=
  ⟨pre, post, rfl, rfl⟩

/-- The range of a text after another without the blanks around it, unless it is blank. -/
def core? (pre text : List Char) : Option Range :=
  if (Text.splitTrim text).core.isEmpty then none
  else some (after (pre ++ (Text.splitTrim text).before) (Text.splitTrim text).core)

/-- The range of the text in a range of a source without the blanks around it, unless it is blank. -/
def trimmed? (source : List Char) (r : Range) : Option Range :=
  (Text.slice source r.span.start r.span.stop).bind fun body =>
    let t := Text.splitTrim body
    let start := r.span.start + bytes t.before
    if t.core.isEmpty then none
    else some ((LineTable.ofText source).range ⟨start, start + bytes t.core⟩)

theorem range_eq_after (pre body post : List Char) :
    (LineTable.ofText (pre ++ (body ++ post))).range ⟨bytes pre, bytes pre + bytes body⟩
      = after pre body := by
  have hstop := LineTable.position_bytes (pre ++ body) post
  rw [List.append_assoc, Text.bytes_append] at hstop
  rw [LineTable.range, LineTable.position_bytes, hstop, after, Cursor.rangeTo, Cursor.offset_after,
    Cursor.offset_after, Text.bytes_append]

theorem trimmed?_after (pre text post : List Char) :
    (after pre text).trimmed? (pre ++ (text ++ post)) = core? pre text := by
  have hslice := (covers_after pre text post).slice
  have hsplit := Text.splitTrim_append text
  rw [trimmed?, hslice, Option.bind_some, core?]
  generalize Text.splitTrim text = t at hsplit ⊢
  dsimp only
  split
  · rfl
  · have hrange := range_eq_after (pre ++ t.before) t.core (t.after ++ post)
    rw [List.append_assoc, ← List.append_assoc t.core, ← List.append_assoc t.before, hsplit,
      Text.bytes_append] at hrange
    rw [start_after, hrange]

/-- The trimmed range of a leaf is the range of its text without the blanks around it. -/
theorem trimmedRange?_leaf (k : Kind) (pre text : List Char) :
    Candidate.trimmedRange? (.leaf k (after pre text) (String.ofList text)) = core? pre text := by
  have hcursor : Cursor.mk (after pre text).span.start (after pre text).start = .after pre := rfl
  rw [Candidate.trimmedRange?, Node.text?, Option.bind_some, String.toList_ofList, core?]
  dsimp only
  rw [Node.range, hcursor, Cursor.advance_after, Cursor.advance_after]
  rfl

theorem core?_nil (pre : List Char) : core? pre [] = none := rfl

end Range

/-! ## The code of a statement -/

namespace Node

/-- The nodes of inline code in some trees. -/
def inlines (ns : List Node) : List Node :=
  (preorderAll ns).filter (·.kind == .inlinePython)

/-- The inline code in a node of inline code, without the blanks around it. -/
def inlineCode (source : List Char) (n : Node) : List (Language × Range) :=
  (n.childrenOfKind .pythonContent).filterMap fun content =>
    (content.range.trimmed? source).map fun r => (.python, r)

/-- The code that a statement embeds: the content of a task, a definition as a whole, and the inline
code in any other statement. -/
def embeddedCode (source : List Char) (n : Node) : List (Language × Range) :=
  match n.kind with
  | .functionDefinition => (n.childrenOfKind .shellContent).map fun content => (.shell, content.range)
  | .pythonFunctionDefinition =>
    (n.childrenOfKind .pythonContent).map fun content => (.python, content.range)
  | .pythonDefinition => [(.python, n.range)]
  | _ => (inlines [n]).flatMap (inlineCode source)

end Node

namespace Candidate

/-- Candidates stand one after the other between two offsets, and none of them reaches the next one or
the end. -/
def Ordered (start stop : Nat) : List Candidate → Prop
  | [] => start ≤ stop
  | c :: cs =>
    start ≤ c.range.span.start ∧ c.range.span.start ≤ c.range.span.stop ∧
      Ordered (c.range.span.stop + 1) stop cs

theorem Ordered.mono {start start' stop : Nat} {cs : List Candidate} (h : Ordered start stop cs)
    (hs : start' ≤ start) : Ordered start' stop cs := by
  cases cs with
  | nil => exact Nat.le_trans hs h
  | cons c cs => exact ⟨Nat.le_trans hs h.1, h.2⟩

theorem Ordered.append {start mid stop : Nat} {cs ds : List Candidate} (hc : Ordered start mid cs)
    (hd : Ordered mid stop ds) : Ordered start stop (cs ++ ds) := by
  induction cs generalizing start with
  | nil => exact hd.mono hc
  | cons c cs ih => exact ⟨hc.1, hc.2.1, ih hc.2.2⟩

/-- Language and range of a candidate. -/
def place (c : Candidate) : Language × Range :=
  (c.language, c.range)

/-- Candidates stand one after the other, each of them has the range of a solid text of the source, and
together they are the given code. -/
structure Fits (source : List Char) (start stop : Nat) (cs : List Candidate)
    (code : List (Language × Range)) : Prop where
  ordered : Ordered start stop cs
  solid : ∀ c ∈ cs, ∃ body, c.range.Covers source body ∧ Text.Solid body
  map_place : cs.map place = code

namespace Fits

variable {source : List Char} {start mid stop : Nat} {cs ds : List Candidate}
  {code code' : List (Language × Range)}

theorem nil (h : start ≤ stop) : Fits source start stop [] [] :=
  ⟨h, fun _ hc => (nomatch hc), rfl⟩

theorem append (hc : Fits source start mid cs code) (hd : Fits source mid stop ds code') :
    Fits source start stop (cs ++ ds) (code ++ code') :=
  ⟨hc.ordered.append hd.ordered, List.forall_mem_append.2 ⟨hc.solid, hd.solid⟩, by
    rw [List.map_append, hc.map_place, hd.map_place]⟩

theorem mono {start' stop' : Nat} (h : Fits source start stop cs code) (hs : start' ≤ start)
    (he : stop ≤ stop') : Fits source start' stop' cs code := by
  have hd : Fits source stop stop' [] [] := nil he
  have := h.append hd
  rw [List.append_nil, List.append_nil] at this
  exact ⟨this.ordered.mono hs, this.solid, this.map_place⟩

/-- The one candidate over a solid text `body` fits the code that `body` is. -/
theorem single (pre : List Char) {body : List Char} (post : List Char) (hb : Text.Solid body)
    (l : Language) (dedent : Bool) : Fits (pre ++ (body ++ post)) (bytes pre) (bytes pre + bytes body + 1)
      [⟨l, .after pre body, dedent⟩] [(l, .after pre body)] := by
  refine ⟨⟨?_, ?_, ?_⟩, fun c hc => ?_, rfl⟩
  · simp
  · simp
  · simp [Ordered]
  · rw [List.mem_singleton.1 hc]
    exact ⟨body, Range.covers_after pre body post, hb⟩

/-- The candidate over `text` without the blanks around it fits the code that it is, and there is
neither if `text` is blank. -/
theorem core? (pre text post : List Char) (l : Language) (dedent : Bool) :
    Fits (pre ++ (text ++ post)) (bytes pre) (bytes pre + bytes text + 1)
      ((Range.core? pre text).toList.map fun r => ⟨l, r, dedent⟩)
      ((Range.core? pre text).toList.map fun r => (l, r)) := by
  have hsplit := Text.splitTrim_append text
  unfold Range.core?
  split
  · exact nil (by omega)
  · rename_i hc
    have hb := Text.solid_core (by simpa using hc)
    have hsingle := single (pre ++ (Text.splitTrim text).before) ((Text.splitTrim text).after ++ post)
      hb l dedent
    have hbytes := congrArg bytes hsplit
    generalize Text.splitTrim text = t at hsplit hsingle hbytes
    rw [List.append_assoc, ← List.append_assoc t.core, ← List.append_assoc t.before, hsplit] at hsingle
    simp only [Text.bytes_append] at hsingle hbytes
    exact hsingle.mono (by omega) (by omega)

end Fits

end Candidate

/-! ## Inline code -/

namespace Node

theorem child?_eq_head? (n : Node) (k : Kind) : n.child? k = (n.childrenOfKind k).head? :=
  List.head?_filter.symm

theorem inlines_leaf {k : Kind} (hk : k ≠ .inlinePython) (r : Range) (t : String) (ns : List Node) :
    inlines (.leaf k r t :: ns) = inlines ns := by
  rw [inlines, preorderAll, preorder, List.singleton_append,
    List.filter_cons_of_neg (by simpa [kind] using hk)]
  rfl

theorem inlines_branch {k : Kind} (hk : k ≠ .inlinePython) (r : Range) (cs ns : List Node) :
    inlines (.branch k r cs :: ns) = inlines cs ++ inlines ns := by
  rw [inlines, preorderAll, preorder, List.cons_append,
    List.filter_cons_of_neg (by simpa [kind] using hk), List.filter_append]
  rfl

theorem inlines_inline (r : Range) {cs : List Node} (h : inlines cs = []) (ns : List Node) :
    inlines (.branch .inlinePython r cs :: ns) = .branch .inlinePython r cs :: inlines ns := by
  have hcs : (preorderAll cs).filter (·.kind == .inlinePython) = [] := h
  rw [inlines, preorderAll, preorder, List.cons_append, List.filter_cons_of_pos (by rfl),
    List.filter_append, hcs]
  rfl

end Node

namespace Piece

variable (pre : List Char) (k : Kind) (ps : List Piece)

theorem nodesAfter_token (t : List Char) : nodesAfter pre (.token k t :: ps)
    = .leaf k (.after pre t) (String.ofList t) :: nodesAfter (pre ++ t) ps :=
  nodes_token ..

theorem nodesAfter_group (inside : List Piece) : nodesAfter pre (.group k inside :: ps)
    = .branch k (.after pre (textAll inside)) (nodesAfter pre inside)
      :: nodesAfter (pre ++ textAll inside) ps :=
  nodes_group ..

/-- The children that a text becomes, if it is not empty. -/
theorem nodesAfter_tokens (t : List Char) : nodesAfter pre (Piece.tokens k t ++ ps)
    = (if t.isEmpty then [] else [.leaf k (.after pre t) (String.ofList t)])
      ++ nodesAfter (pre ++ t) ps := by
  unfold Piece.tokens
  split
  · rename_i h
    rw [List.isEmpty_iff.1 h, List.append_nil]
    rfl
  · exact nodesAfter_token pre k ps t

end Piece

namespace Candidate

/-- The candidate of a node of inline code, unless the code is blank. -/
def ofInline (n : Node) : List Candidate :=
  ((n.child? .pythonContent).bind trimmedRange?).toList.map fun r => ⟨.python, r, false⟩

theorem inline_eq (n : Node) : inline n = (Node.inlines [n]).flatMap ofInline := by
  rw [inline, Node.walk_eq_preorder, Node.inlines, Node.preorderAll, Node.preorderAll,
    List.append_nil, List.filterMap_filterMap, List.filterMap_eq_flatMap_toList, List.map_flatMap]
  rfl

end Candidate

open Grammar (Inlines inlinePiece)

/-- The node of inline code has the code as its one content, and no inline code inside it. -/
theorem nodesAfter_inlinePiece (pre code : List Char) (ps : List Piece) :
    ∃ r cs, nodesAfter pre (inlinePiece code :: ps)
        = .branch .inlinePython r cs :: nodesAfter (pre ++ (inlinePiece code).text) ps ∧
      Node.inlines cs = [] ∧
      (Node.branch .inlinePython r cs).childrenOfKind .pythonContent = if code.isEmpty then []
        else [.leaf .pythonContent (.after (pre ++ ['$', '{', '@']) code) (String.ofList code)] := by
  refine ⟨_, _, Piece.nodesAfter_group .., ?_, ?_⟩
  · rw [List.cons_append, Piece.nodesAfter_token, Piece.nodesAfter_tokens,
      Node.inlines_leaf (by decide)]
    split
    · exact Node.inlines_leaf (by decide) ..
    · exact (Node.inlines_leaf (by decide) ..).trans (Node.inlines_leaf (by decide) ..)
  · rw [Node.childrenOfKind, Node.children, List.cons_append, Piece.nodesAfter_token,
      Piece.nodesAfter_tokens]
    split <;> rfl

theorem text_inlinePiece (code : List Char) :
    (inlinePiece code).text = ['$', '{', '@'] ++ (code ++ ['}']) := by
  have := (Grammar.reads_expansionPiece ('@' :: code) []).eq_append
  rw [List.append_nil, Piece.textAll, Piece.textAll, List.append_nil] at this
  exact this.symm

namespace Candidate

/-- The candidate of inline code is the code without the blanks around it, unless it is blank. -/
theorem ofInline_eq {pre code : List Char} {n : Node}
    (hn : n.childrenOfKind .pythonContent = if code.isEmpty then []
      else [.leaf .pythonContent (.after pre code) (String.ofList code)]) (post : List Char) :
    ofInline n = (Range.core? pre code).toList.map (⟨.python, ·, false⟩) ∧
      n.inlineCode (pre ++ (code ++ post)) = (Range.core? pre code).toList.map (Language.python, ·) := by
  rw [ofInline, Node.child?_eq_head?, Node.inlineCode, hn]
  split
  · rename_i hc
    rw [List.isEmpty_iff.1 hc, Range.core?_nil]
    exact ⟨rfl, rfl⟩
  · rw [List.head?_cons, Option.bind_some, Range.trimmedRange?_leaf, List.filterMap_eq_flatMap_toList,
      List.flatMap_singleton, Node.range, Range.trimmed?_after, Option.toList_map]
    exact ⟨rfl, rfl⟩

theorem fits_inlinePiece (pre code post : List Char) {n : Node}
    (hn : n.childrenOfKind .pythonContent = if code.isEmpty then []
      else [.leaf .pythonContent (.after (pre ++ ['$', '{', '@']) code) (String.ofList code)]) :
    Fits (pre ++ ((inlinePiece code).text ++ post)) (bytes pre) (bytes (pre ++ (inlinePiece code).text))
      (ofInline n) (n.inlineCode (pre ++ ((inlinePiece code).text ++ post))) := by
  have hfits := Fits.core? (pre ++ ['$', '{', '@']) code (['}'] ++ post) .python false
  obtain ⟨hcandidate, hcode⟩ := ofInline_eq hn (['}'] ++ post)
  rw [← hcandidate, ← hcode] at hfits
  have hbrace : bytes ['}'] = 1 := rfl
  rw [text_inlinePiece]
  simp only [List.append_assoc] at hfits ⊢
  simp only [Text.bytes_append] at hfits ⊢
  exact hfits.mono (by omega) (by omega)

/-- The candidates of the inline nodes of pieces fit the code of those nodes. -/
theorem fits_inlines {ps : List Piece} (h : Inlines ps) (pre post : List Char) :
    Fits (pre ++ (textAll ps ++ post)) (bytes pre) (bytes (pre ++ textAll ps))
      ((Node.inlines (nodesAfter pre ps)).flatMap ofInline)
      ((Node.inlines (nodesAfter pre ps)).flatMap (Node.inlineCode (pre ++ (textAll ps ++ post)))) := by
  induction h generalizing pre post with
  | nil => exact .nil (by simp)
  | @token k t ps hk _ ih =>
    have := ih (pre ++ t) post
    rw [Piece.nodesAfter_token, Node.inlines_leaf hk, textAll, Piece.text]
    simp only [List.append_assoc] at this ⊢
    exact this.mono (by simp [Text.bytes_append]) (Nat.le_refl _)
  | @gap g ps _ ih =>
    have := ih (pre ++ g) post
    rw [Piece.nodesAfter_gap, textAll, Piece.text]
    simp only [List.append_assoc] at this ⊢
    exact this.mono (by simp [Text.bytes_append]) (Nat.le_refl _)
  | @group k inside ps hk _ _ ihi ihp =>
    have hi := ihi pre (textAll ps ++ post)
    have hp := ihp (pre ++ textAll inside) post
    rw [Piece.nodesAfter_group, Node.inlines_branch hk, List.flatMap_append, List.flatMap_append,
      textAll, Piece.text]
    simp only [List.append_assoc] at hi hp ⊢
    exact hi.append hp
  | @inline code ps _ ih =>
    obtain ⟨r, cs, hn, hcs, hcontent⟩ := nodesAfter_inlinePiece pre code ps
    have hi := fits_inlinePiece pre code (textAll ps ++ post) hcontent
    have hp := ih (pre ++ (inlinePiece code).text) post
    rw [hn, Node.inlines_inline r hcs, List.flatMap_cons, List.flatMap_cons, textAll]
    simp only [List.append_assoc] at hi hp ⊢
    exact hi.append hp

end Candidate

end Recipe
