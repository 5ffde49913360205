import Recipe.Proofs.Grammar.Task
import Recipe.Proofs.Scanner.Scan
import Recipe.Proofs.Tree.Append

/-!
# Nodes by offsets

A reader by offsets makes its nodes from spans: a leaf has the text of its span, and a branch reaches
from the beginning of its first child to the end of its last (`Node.leafOf`, `Node.branchOf`). Pieces
laid out in a text give the same nodes: a token gives the leaf of its span, and the pieces of a group
give its branch as long as no gap stands at either end (`Piece.branchOf_nodesAfter`).
-/

namespace Recipe

open Text (bytes)

/-- The leaf of a span. -/
def Node.leafOf (text : List Char) (k : Kind) (span : Span) : Node :=
  .leaf k ((LineTable.ofText text).range span)
    (String.ofList ((Text.slice text span.start span.stop).getD []))

/-- The branch over some children. -/
def Node.branchOf (text : List Char) (k : Kind) (children : List Node) : Node :=
  let start := (children.head?.map (·.range.span.start)).getD 0
  let stop := (children.getLast?.map (·.range.span.stop)).getD start
  .branch k ((LineTable.ofText text).range ⟨start, stop⟩) children

/-- The span without the blanks at its ends, unless there is nothing else in it. -/
def Span.trim? (text : List Char) (span : Span) : Checked (Option Span) :=
  match Text.slice text span.start span.stop with
  | none => .ok none
  | some cs =>
    if (Text.trimStart cs).isEmpty then .ok none
    else do
      let skipped ← Checked.sub (bytes cs) (bytes (Text.trimStart cs))
      .ok (some ⟨span.start + skipped, span.start + bytes (Text.trimEnd cs)⟩)

theorem Span.trim?_append (pre mid post : List Char) :
    Span.trim? (pre ++ (mid ++ post)) ⟨bytes pre, bytes pre + bytes mid⟩
      = .ok (if (Text.splitTrim mid).core.isEmpty then none
          else some ⟨bytes pre + bytes (Text.splitTrim mid).before,
            bytes pre + bytes (Text.splitTrim mid).before + bytes (Text.splitTrim mid).core⟩) := by
  have hmid : mid = (Text.splitTrim mid).before ++ Text.trimStart mid :=
    (List.takeWhile_append_dropWhile ..).symm
  rw [trim?, Text.slice_append]
  cases hs : Text.trimStart mid with
  | nil =>
    have hcore : (Text.splitTrim mid).core = [] := congrArg Text.trimEnd hs
    simp [hcore, hs]
  | cons c cs =>
    have hcore : (Text.splitTrim mid).core ≠ [] := by
      have hhead := List.head?_dropWhile_not Text.isBlank mid
      intro h
      have hall : (Text.trimStart mid).all Text.isBlank = true := Text.trimEnd_eq_nil.1 h
      rw [Text.trimStart] at hs hall
      rw [hs] at hhead hall
      rw [List.all_cons, hhead] at hall
      cases hall
    have hskip := congrArg bytes hmid
    rw [Text.bytes_append] at hskip
    have hend : Text.trimEnd mid = (Text.splitTrim mid).before ++ (Text.splitTrim mid).core := by
      conv => lhs; rw [hmid]
      exact Text.trimEnd_append _ hcore
    rw [if_neg (by simpa using hcore)]
    simp only [hs] at hskip ⊢
    rw [if_neg (by simp), Checked.sub_of_eq_add hskip, Checked.ok_bind, hend, Text.bytes_append,
      ← Nat.add_assoc]

/-- The leaf of a span without the blanks at its ends, unless there is nothing else in it. -/
def Node.contentOf (text : List Char) (k : Kind) (span : Span) : Checked (List Node) := do
  let inside ← Span.trim? text span
  .ok (inside.toList.map (.leafOf text k))

namespace Piece

/-- The node of a token or a group that stands after `pre`. -/
def node (pre : List Char) (p : Piece) : Node :=
  (nodesAfter pre [p]).headD default

variable (pre : List Char) (k : Kind) (ps : List Piece)

theorem node_token (t : List Char) : (token k t).node pre
    = .leaf k ((Cursor.after pre).rangeTo (.after (pre ++ t))) (String.ofList t) := by
  rw [node, nodesAfter, nodes_token]
  rfl

theorem node_group (inside : List Piece) : (group k inside).node pre
    = .branch k ((Cursor.after pre).rangeTo (.after (pre ++ textAll inside))) (nodesAfter pre inside) := by
  rw [node, nodesAfter, nodes_group]
  rfl

theorem nodesAfter_cons_token (t : List Char) :
    nodesAfter pre (token k t :: ps) = (token k t).node pre :: nodesAfter (pre ++ t) ps := by
  rw [nodesAfter, nodes_token, node_token]
  rfl

theorem nodesAfter_cons_group (inside : List Piece) :
    nodesAfter pre (group k inside :: ps)
      = (group k inside).node pre :: nodesAfter (pre ++ textAll inside) ps := by
  rw [nodesAfter, nodes_group, node_group]
  rfl

theorem nodesAfter_cons {p : Piece} (h : p.kind?.isSome = true) :
    nodesAfter pre (p :: ps) = p.node pre :: nodesAfter (pre ++ p.text) ps := by
  cases p with
  | token k t => exact nodesAfter_cons_token pre k ps t
  | group k inside => exact nodesAfter_cons_group pre k ps inside
  | gap g => cases h

theorem range_node {p : Piece} (h : p.kind?.isSome = true) :
    (p.node pre).range = (Cursor.after pre).rangeTo (.after (pre ++ p.text)) := by
  cases p with
  | token k t => rw [node_token]; rfl
  | group k inside => rw [node_group]; rfl
  | gap g => cases h

/-- No gap stands at either end of the pieces, and there are some. -/
def isTight (ps : List Piece) : Bool :=
  ps.head?.any (·.kind?.isSome) && ps.getLast?.any (·.kind?.isSome)

theorem isTight_append {ps qs : List Piece} (hp : ps.head?.any (·.kind?.isSome) = true)
    (hq : qs.getLast?.any (·.kind?.isSome) = true) : isTight (ps ++ qs) = true := by
  obtain ⟨first, hf, hfirst⟩ := (Option.any_eq_true _ _).1 hp
  obtain ⟨last, hl, hlast⟩ := (Option.any_eq_true _ _).1 hq
  rw [isTight, List.getLast?_append, List.head?_append, hf, hl, Option.some_or, Option.some_or,
    Option.any_some, Option.any_some, hfirst, hlast]
  rfl

theorem leafOf_append (pre t post : List Char) :
    Node.leafOf (pre ++ (t ++ post)) k ⟨bytes pre, bytes pre + bytes t⟩ = (token k t).node pre := by
  have hstop := LineTable.position_bytes (pre ++ t) post
  rw [Text.bytes_append, List.append_assoc] at hstop
  rw [Node.leafOf, Text.slice_append, node_token, LineTable.range, LineTable.position_bytes, hstop,
    Cursor.rangeTo, Cursor.offset_after, Cursor.offset_after, Text.bytes_append]
  rfl

theorem contentOf_append (pre mid post : List Char) :
    Node.contentOf (pre ++ (mid ++ post)) k ⟨bytes pre, bytes pre + bytes mid⟩
      = .ok (nodesAfter pre (Grammar.content k mid).1) := by
  rw [Node.contentOf, Span.trim?_append, Checked.ok_bind, Grammar.content]
  split
  · rfl
  · have hleaf := leafOf_append k (pre ++ (Text.splitTrim mid).before) (Text.splitTrim mid).core
      ((Text.splitTrim mid).after ++ post)
    have htext : pre ++ (Text.splitTrim mid).before
        ++ ((Text.splitTrim mid).core ++ ((Text.splitTrim mid).after ++ post)) = pre ++ (mid ++ post) := by
      conv => rhs; rw [← Text.splitTrim_append mid]
      simp
    rw [htext, Text.bytes_append] at hleaf
    simp [nodesAfter_gap, nodesAfter_cons_token, nodesAfter_nil, hleaf]

/-- The branch over pieces that no gap begins or ends is their group. -/
theorem branchOf_nodesAfter {pre post : List Char} {ps : List Piece} (h : isTight ps = true) :
    Node.branchOf (pre ++ (textAll ps ++ post)) k (nodesAfter pre ps) = (group k ps).node pre := by
  rw [isTight, Bool.and_eq_true, Option.any_eq_true, Option.any_eq_true] at h
  obtain ⟨⟨first, hfirst, hf⟩, last, hlast, hl⟩ := h
  have hstart : (nodesAfter pre ps).head?.map (·.range.span.start) = some (bytes pre) := by
    obtain ⟨qs, rfl⟩ := List.head?_eq_some_iff.1 hfirst
    rw [nodesAfter_cons pre qs hf, List.head?_cons, Option.map_some, range_node pre hf]
    exact congrArg some (Cursor.offset_after pre)
  have hstop : (nodesAfter pre ps).getLast?.map (·.range.span.stop) = some (bytes (pre ++ textAll ps)) := by
    obtain ⟨qs, rfl⟩ := List.getLast?_eq_some_iff.1 hlast
    rw [nodesAfter_append, nodesAfter_cons _ [] hl, nodesAfter_nil, List.getLast?_concat, Option.map_some,
      range_node _ hl]
    refine congrArg some ((Cursor.offset_after _).trans ?_)
    rw [textAll_append]
    simp [textAll]
  have hpos := LineTable.position_bytes (pre ++ textAll ps) post
  rw [List.append_assoc] at hpos
  rw [Node.branchOf, hstart, hstop, node_group]
  dsimp only [Option.getD_some]
  rw [LineTable.range, LineTable.position_bytes, hpos, Cursor.rangeTo, Cursor.offset_after,
    Cursor.offset_after]

end Piece

namespace Scanner

variable (s : Scanner)

/-- The leaf from here to where another scanner stands. -/
def token (k : Kind) (next : Scanner) : Node :=
  .leafOf s.text k ⟨s.pos, next.pos⟩

/-- The leaf from here to where another scanner stands, unless it would be empty. -/
def tokens (k : Kind) (next : Scanner) : List Node :=
  if s.pos < next.pos then [s.token k next] else []

/-- The whole window as an error. -/
def wholeError : Node :=
  .leafOf s.text .error ⟨s.start, s.stop⟩

/-- The rest of the window as an error. -/
def restError : Node :=
  .leafOf s.text .error ⟨s.pos, s.stop⟩

variable {base seen rest post a t b : List Char} {k : Kind}

/-- The leaf of a part of the window is the token that stands there. -/
theorem leafOf_between (h : seen ++ rest = a ++ (t ++ b)) {span : Span}
    (hs : span = ⟨bytes base + bytes a, bytes base + bytes a + bytes t⟩) :
    Node.leafOf (between base seen rest post).text k span = (Piece.token k t).node (base ++ a) := by
  have hleaf := Piece.leafOf_append k (base ++ a) t (b ++ post)
  have htext : (between base seen rest post).text = (base ++ a) ++ (t ++ (b ++ post)) := by
    rw [text_between, ← List.append_assoc seen, h]
    simp
  rw [htext, hs, ← Text.bytes_append]
  exact hleaf

theorem token_between (h : rest = t ++ b) :
    (between base seen rest post).token k (between base (seen ++ t) b post)
      = (Piece.token k t).node (base ++ seen) :=
  leafOf_between (by rw [h]) (by rw [pos_between, pos_between, Text.bytes_append, Nat.add_assoc])

theorem pos_lt_between {r : List Char} :
    (between base seen rest post).pos < (between base (seen ++ t) r post).pos ↔ t ≠ [] := by
  rw [pos_between, pos_between, Text.bytes_append, Ne, ← Text.bytes_eq_zero]
  omega

theorem tokens_between (h : rest = t ++ b) :
    (between base seen rest post).tokens k (between base (seen ++ t) b post)
      = Piece.nodesAfter (base ++ seen) (Piece.tokens k t) := by
  rw [tokens, token_between h, Piece.tokens]
  cases t with
  | nil => rw [if_neg (by rw [pos_lt_between]; exact not_not_intro rfl)]; rfl
  | cons c t => rw [if_pos (pos_lt_between.2 (List.cons_ne_nil c t))]; rfl

theorem restError_between :
    (between base seen rest post).restError = (Piece.token .error rest).node (base ++ seen) :=
  leafOf_between (by rw [List.append_nil]) rfl

theorem wholeError_between :
    (between base seen rest post).wholeError = (Piece.token .error (seen ++ rest)).node base := by
  have h : (between base seen rest post).wholeError = (Piece.token .error (seen ++ rest)).node (base ++ []) :=
    leafOf_between (by rw [List.append_nil]; rfl)
      (by rw [start_between, stop_between, Text.bytes_append, Nat.add_assoc]; rfl)
  rwa [List.append_nil] at h

/-- The branch over pieces in the window is their group. -/
theorem branchOf_between {ps : List Piece} {children : List Node} (hp : Piece.isTight ps = true)
    (hc : children = Piece.nodesAfter (base ++ a) ps) (h : seen ++ rest = a ++ (Piece.textAll ps ++ b)) :
    Node.branchOf (between base seen rest post).text k children = (Piece.group k ps).node (base ++ a) := by
  have hbranch := @Piece.branchOf_nodesAfter k (base ++ a) (b ++ post) ps hp
  have htext : (between base seen rest post).text = (base ++ a) ++ (Piece.textAll ps ++ (b ++ post)) := by
    rw [text_between, ← List.append_assoc seen, h]
    simp
  rwa [htext, hc]

end Scanner

end Recipe
