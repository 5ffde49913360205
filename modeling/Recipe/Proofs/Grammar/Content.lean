import Mathlib.Computability.RegularExpressions
import Recipe.Proofs.Grammar.Task

/-!
# The content of groups

What stands in a group is a word of the language of its kind, written as a regular expression over
kinds (`Kind.content?`). Gaps are no part of the word: they leave no node. Every reader makes groups
that fit their kind, one lemma each, and so does the reading of a whole text (`fits_read`).
-/

namespace Recipe

open RegularExpression (char star)

/-! ## The language of each kind -/

namespace Content

/-- The expression for at most one occurrence of `r`. -/
def opt (r : RegularExpression Kind) : RegularExpression Kind :=
  r + 1

/-- The expression for one or more occurrences of `r`. -/
def plus (r : RegularExpression Kind) : RegularExpression Kind :=
  r * star r

/-- The expression for one child, of any of the kinds `ks`. -/
def oneOf (ks : List Kind) : RegularExpression Kind :=
  ks.foldr (fun k r => char k + r) 0

/-- The children of an assignment before its operator: a name, overrides and a flag. -/
def target : RegularExpression Kind :=
  char .identifier * star (char .override) * opt (char .variableFlag)

/-- The children of an assignment after its target: an operator and a string, with an error for what
is missing or left over. -/
def value : RegularExpression Kind :=
  char .error + char .operator * char .error
    + char .operator * char .string * opt (char .error)

/-- The body of a task in its braces, with content of a kind. An error stands for the opening brace
if no line closes the task. -/
def braces (content : Kind) : RegularExpression Kind :=
  char .punctuation * opt (char content) * char .punctuation + char .error * opt (char content)

/-- The kinds that stand in a document. -/
def statements : List Kind :=
  [.variableAssignment, .functionDefinition, .pythonFunctionDefinition, .pythonDefinition,
    .inheritDirective, .includeDirective, .requireDirective, .exportStatement, .unsetStatement,
    .addTaskStatement, .delTaskStatement, .addHandlerStatement, .exportFunctionsStatement,
    .comment, .error]

end Content

open Content

/-- The words of kinds that the children of a node of each kind spell. The kinds of leaves have
none. -/
def Kind.content? : Kind → Option (RegularExpression Kind)
  | sourceFile => some (star (oneOf statements))
  | variableAssignment => some (target * value)
  | variableFlag => some (char punctuation * opt (char identifier) * char punctuation)
  | override => some (char punctuation * char identifier)
  | string =>
    some (char punctuation * star (oneOf [stringContent, variableExpansion, inlinePython])
      * char punctuation)
  | variableExpansion => some (char punctuation * opt (char identifier) * char punctuation)
  | inlinePython => some (char punctuation * opt (char pythonContent) * char punctuation)
  | functionDefinition =>
    some (star (char keyword) * char identifier * (char punctuation * char punctuation)
      * braces shellContent)
  | pythonFunctionDefinition =>
    some (plus (char keyword) * opt (char identifier) * (char punctuation * char punctuation)
      * braces pythonContent)
  | pythonDefinition =>
    some (char keyword * char identifier * char pythonContent * char punctuation
      * opt (char pythonContent))
  | inheritDirective => some (char keyword * (plus (char path) * opt (char error)))
  | includeDirective | requireDirective => some (char keyword * char path)
  | exportStatement => some (char keyword * oneOf [variableAssignment, identifier])
  | unsetStatement =>
    some (char keyword * (char identifier * opt (char variableFlag) * opt (char error)))
  | addTaskStatement =>
    some (char keyword * (char identifier * star (oneOf [identifier, keyword]) * opt (char error)))
  | delTaskStatement | addHandlerStatement | exportFunctionsStatement =>
    some (char keyword * (plus (char identifier) * opt (char error)))
  | identifier | keyword | operator | punctuation | stringContent | shellContent | pythonContent
  | path | comment | error => none

namespace Content

theorem append_mem {P Q : RegularExpression Kind} {u v : List Kind} (hu : u ∈ P.matches')
    (hv : v ∈ Q.matches') : u ++ v ∈ (P * Q).matches' :=
  Language.append_mem_mul hu hv

theorem cons_mem {k : Kind} {Q : RegularExpression Kind} {v : List Kind} (hv : v ∈ Q.matches') :
    k :: v ∈ (char k * Q).matches' :=
  append_mem (u := [k]) rfl hv

theorem mem_oneOf {ks : List Kind} {w : List Kind} :
    w ∈ (oneOf ks).matches' ↔ ∃ k ∈ ks, w = [k] := by
  induction ks with
  | nil => exact ⟨nofun, nofun⟩
  | cons k ks ih =>
    simp only [List.mem_cons, exists_eq_or_imp]
    rw [← ih]
    rfl

theorem mem_star_of_forall {r : RegularExpression Kind} {w : List Kind}
    (h : ∀ k ∈ w, [k] ∈ r.matches') : w ∈ (star r).matches' := by
  refine Language.mem_kstar.2 ⟨w.map fun k => [k], ?_, fun u hu => ?_⟩
  · rw [← List.flatMap_def, List.flatMap_singleton']
  · obtain ⟨k, hk, rfl⟩ := List.mem_map.1 hu
    exact h k hk

theorem mem_star_oneOf {ks w : List Kind} (h : w ⊆ ks) : w ∈ (star (oneOf ks)).matches' :=
  mem_star_of_forall fun k hk => mem_oneOf.2 ⟨k, h hk, rfl⟩

theorem mem_star_char {k : Kind} {w : List Kind} (h : ∀ l ∈ w, l = k) :
    w ∈ (star (char k)).matches' :=
  mem_star_of_forall fun l hl => by rw [h l hl]; rfl

theorem mem_opt {k : Kind} {w : List Kind} (h : w = [] ∨ w = [k]) : w ∈ (opt (char k)).matches' :=
  h.symm

end Content

/-! ## Pieces that fit -/

namespace Piece

/-- The kinds of the nodes that pieces become. -/
def kinds (ps : List Piece) : List Kind :=
  ps.filterMap kind?

@[simp] theorem kinds_nil : kinds [] = [] := rfl

@[simp] theorem kinds_token (k : Kind) (t : List Char) (ps : List Piece) :
    kinds (token k t :: ps) = k :: kinds ps := rfl

@[simp] theorem kinds_gap (g : List Char) (ps : List Piece) : kinds (gap g :: ps) = kinds ps := rfl

@[simp] theorem kinds_group (k : Kind) (inside ps : List Piece) :
    kinds (group k inside :: ps) = k :: kinds ps := rfl

@[simp] theorem kinds_mark (c : Char) (ps : List Piece) :
    kinds (mark c :: ps) = .punctuation :: kinds ps := rfl

@[simp] theorem kinds_append (ps qs : List Piece) : kinds (ps ++ qs) = kinds ps ++ kinds qs :=
  List.filterMap_append

theorem kinds_tokens (k : Kind) (cs : List Char) :
    kinds (tokens k cs) = [] ∨ kinds (tokens k cs) = [k] := by
  unfold tokens
  split
  · exact .inl rfl
  · exact .inr rfl

theorem kinds_singleton {p : Piece} {k : Kind} (h : p.kind? = some k) : kinds [p] = [k] := by
  simp [kinds, h]

theorem kinds_flatMap {α : Type} {f : α → List Piece} {k : α → Kind}
    (h : ∀ x, kinds (f x) = [k x]) (xs : List α) : kinds (xs.flatMap f) = xs.map k := by
  induction xs with
  | nil => rfl
  | cons x xs ih => rw [List.flatMap_cons, kinds_append, h, ih, List.map_cons, List.singleton_append]

theorem kinds_map {α : Type} {f : α → Piece} {k : α → Kind} (h : ∀ x, (f x).kind? = some (k x))
    (xs : List α) : kinds (xs.map f) = xs.map k := by
  induction xs with
  | nil => rfl
  | cons x xs ih => rw [List.map_cons, kinds, List.filterMap_cons_some (h x), ← kinds, ih, List.map_cons]

/-- A python task has its keyword among its pieces. -/
def SaysPython (k : Kind) (inside : List Piece) : Prop :=
  k = .pythonFunctionDefinition → token .keyword "python".toList ∈ inside

/-- At any depth, tokens have kinds without content, and what stands in a group is a word of its
kind. -/
inductive Fits : List Piece → Prop where
  | nil : Fits []
  | token {k : Kind} {t : List Char} {ps : List Piece} :
    k.content? = none → Fits ps → Fits (.token k t :: ps)
  | gap {g : List Char} {ps : List Piece} : Fits ps → Fits (.gap g :: ps)
  | group {k : Kind} {r : RegularExpression Kind} {inside ps : List Piece} :
    k.content? = some r → kinds inside ∈ r.matches' → SaysPython k inside → Fits inside → Fits ps →
      Fits (.group k inside :: ps)

namespace Fits

theorem append {ps qs : List Piece} (hp : Fits ps) (hq : Fits qs) : Fits (ps ++ qs) := by
  induction hp with
  | nil => exact hq
  | token hk _ ih => exact .token hk ih
  | gap _ ih => exact .gap ih
  | group hk hw hs hi _ _ ih => exact .group hk hw hs hi ih

theorem flatMap {α : Type} {f : α → List Piece} (h : ∀ x, Fits (f x)) (xs : List α) :
    Fits (xs.flatMap f) := by
  induction xs with
  | nil => exact .nil
  | cons x xs ih => exact (h x).append ih

theorem map {α : Type} {f : α → Piece} (h : ∀ x, Fits [f x]) (xs : List α) : Fits (xs.map f) :=
  List.map_eq_flatMap ▸ flatMap h xs

theorem mark (c : Char) : Fits [Piece.mark c] :=
  .token rfl .nil

theorem tokens {k : Kind} (hk : k.content? = none) (cs : List Char) : Fits (Piece.tokens k cs) := by
  unfold Piece.tokens
  split
  · exact .nil
  · exact .token hk .nil

/-- A group of kind `k` fits if its inside fits and the kinds of its inside match the expression of
`k`. -/
theorem single {k : Kind} {r : RegularExpression Kind} {inside : List Piece}
    (hk : k.content? = some r) (hn : k ≠ .pythonFunctionDefinition) (hi : Fits inside)
    (hw : kinds inside ∈ r.matches') : Fits [.group k inside] :=
  .group hk hw (fun h => absurd h hn) hi .nil

end Fits

end Piece

namespace Grammar

open Piece (Fits kinds kind?)

/-! ## Assignments -/

/-- A group fits that holds an opening token, the text `cs` as one token of kind `content` unless it
is empty, and a closing mark. -/
theorem fits_between {k content : Kind} {opening : List Char} {c : Char}
    (hk : k.content? = some (char .punctuation * opt (char content) * char .punctuation))
    (hn : k ≠ .pythonFunctionDefinition) (hc : content.content? = none) (cs : List Char) :
    Fits [.group k (.token .punctuation opening :: Piece.tokens content cs ++ [Piece.mark c])] := by
  refine .single hk hn (.token rfl ((Fits.tokens hc cs).append (.mark c))) ?_
  rw [Piece.kinds_append, Piece.kinds_token]
  exact append_mem (cons_mem (mem_opt (Piece.kinds_tokens content cs))) rfl

theorem fits_expansionPiece (inside : List Char) : Fits [expansionPiece inside] := by
  unfold expansionPiece
  split
  · exact fits_between rfl (by decide) rfl _
  · exact fits_between rfl (by decide) rfl _

theorem fits_valuePiece (quote : Char) (v : Value) : Fits [v.piece quote] := by
  have hsegment : ∀ s : Segment, Fits [s.piece] := by
    intro s
    cases s with
    | plain t => exact .token rfl .nil
    | expansion inside => exact fits_expansionPiece inside
  have hkind : ∀ s : Segment, kinds [s.piece] ⊆ [.stringContent, .variableExpansion, .inlinePython] := by
    intro s
    cases s with
    | plain t => simp [Segment.piece]
    | expansion inside =>
      unfold Segment.piece expansionPiece
      dsimp only
      split <;> simp
  have hkinds : ∀ ss : List Segment, kinds (ss.map Segment.piece) ⊆
      [.stringContent, .variableExpansion, .inlinePython] := by
    intro ss
    induction ss with
    | nil => exact List.nil_subset _
    | cons s ss ih =>
      rw [List.map_cons, ← List.singleton_append, Piece.kinds_append]
      exact List.append_subset.2 ⟨hkind s, ih⟩
  refine .single rfl (by decide) (.token rfl ((Fits.map hsegment _).append (.mark quote))) ?_
  rw [Piece.kinds_append, Piece.kinds_mark]
  exact append_mem (cons_mem (mem_star_oneOf (hkinds _))) rfl

theorem fits_optionalFlag {cs : List Char} {flag : Parts} (h : optionalFlag cs = some flag) :
    Fits flag.pieces ∧ (kinds flag.pieces = [] ∨ kinds flag.pieces = [.variableFlag]) := by
  unfold optionalFlag flag? at h
  split at h
  · split at h
    · dsimp only at h
      split at h
      · cases h
        exact ⟨fits_between rfl (by decide) rfl _, .inr rfl⟩
      · cases h
    · cases h
  · cases h
    exact ⟨.nil, .inl rfl⟩

theorem fits_target? {cs : List Char} {parts : Parts} (h : target? cs = some parts) :
    Fits parts.pieces ∧ kinds parts.pieces ∈ target.matches' := by
  unfold target? at h
  dsimp only at h
  split at h
  · cases h
  · obtain ⟨flag, hf, rfl⟩ := Option.map_eq_some_iff.1 h
    obtain ⟨hfits, hkinds⟩ := fits_optionalFlag hf
    have hoverride : ∀ name, Fits [overridePiece name] := fun name =>
      .single rfl (by decide) (.token rfl (.token rfl .nil)) (append_mem (u := [_]) rfl rfl)
    refine ⟨.token rfl ((Fits.map hoverride _).append hfits), ?_⟩
    rw [Piece.kinds_append, Piece.kinds_token, Piece.kinds_map (k := fun _ => .override) fun _ => rfl]
    exact append_mem (cons_mem (mem_star_char (by simp))) (mem_opt hkinds)

/-- A closed statement fits if the kinds of its parts match the expression of its kind both alone
and with an error after them. -/
theorem fits_close {k : Kind} {r : RegularExpression Kind} {parts : List Piece}
    (hk : k.content? = some r) (hn : k ≠ .pythonFunctionDefinition) (hp : Fits parts)
    (hw : kinds parts ∈ r.matches') (he : kinds parts ++ [.error] ∈ r.matches') (last : Cut) :
    Fits [(Statement.close k parts last).piece] := by
  unfold Statement.close
  split
  · exact .single hk hn hp hw
  · refine .single hk hn (hp.append (.gap (.token rfl .nil))) ?_
    rwa [Piece.kinds_append]

theorem fits_assigned {before : List Piece} (hb : Fits before)
    (hw : kinds before ∈ target.matches') (op : Cut) : Fits [(assigned before op).piece] := by
  have hfront : ∀ gap, Fits (before ++ [.token .operator op.front, .gap gap]) := fun gap =>
    hb.append (.token rfl (.gap .nil))
  have hvalue : ∀ after : List Kind, after ∈ value.matches' →
      kinds before ++ after ∈ (target * value).matches' := fun _ => append_mem hw
  unfold assigned
  dsimp only
  split
  · refine .single rfl (by decide) (hb.append (.token rfl .nil)) ?_
    rw [Piece.kinds_append]
    exact hvalue [.error] (by decide)
  · split
    · refine fits_close rfl (by decide) ((hfront _).append (fits_valuePiece _ _)) ?_ ?_ _
      · rw [List.append_assoc, Piece.kinds_append]
        exact hvalue [.operator, .string] (by decide)
      · rw [List.append_assoc, Piece.kinds_append, List.append_assoc]
        exact hvalue [.operator, .string, .error] (by decide)
    · refine .single rfl (by decide) ((hfront _).append (.token rfl .nil)) ?_
      rw [List.append_assoc, Piece.kinds_append]
      exact hvalue [.operator, .error] (by decide)

theorem fits_refused (cs : List Char) : Fits [(Statement.refused cs).piece] :=
  .token rfl .nil

theorem fits_assignment? {cs : List Char} {s : Statement} (h : assignment? cs = some s) :
    Fits [s.piece] := by
  obtain ⟨parts, ht, h⟩ := Option.bind_eq_some_iff.1 h
  obtain ⟨op, -, rfl⟩ := Option.map_eq_some_iff.1 h
  obtain ⟨hfits, hkinds⟩ := fits_target? ht
  refine fits_assigned (hfits.append (.gap .nil)) ?_ op
  rwa [Piece.kinds_append, Piece.kinds_gap, Piece.kinds_nil, List.append_nil]

theorem fits_readAssignment (cs : List Char) : Fits [(Statement.readAssignment cs).piece] := by
  unfold Statement.readAssignment
  cases h : assignment? cs with
  | none => exact fits_refused cs
  | some s => exact fits_assignment? h

/-! ## Exports and directives -/

theorem fits_readExport (cs rest : List Char) : Fits [(Statement.readExport cs rest).piece] := by
  unfold Statement.readExport
  dsimp only
  split
  · exact fits_refused cs
  split
  · split
    · rename_i s hs
      refine .single rfl (by decide) (.token rfl (.gap (fits_assignment? hs))) ?_
      rw [Piece.kinds_append, Piece.kinds_singleton (kind?_assignment? hs)]
      exact cons_mem (mem_oneOf.2 ⟨.variableAssignment, by decide, rfl⟩)
    · exact fits_refused cs
  split
  · exact .single rfl (by decide) (.token rfl (.gap (.token rfl .nil)))
      (cons_mem (mem_oneOf.2 ⟨.identifier, by decide, rfl⟩))
  · exact fits_refused cs

/-- What stands after the keyword of a directive, by what the directive takes. -/
def Arguments.language : Arguments → RegularExpression Kind
  | paths => plus (char .path) * opt (char .error)
  | path => char .path
  | names => plus (char .identifier) * opt (char .error)
  | task => char .identifier * star (oneOf [.identifier, .keyword]) * opt (char .error)
  | variableFlag => char .identifier * opt (char .variableFlag) * opt (char .error)

theorem fits_word {k : Kind} (hk : k.content? = none) (w : SpacedWord) : Fits (w.pieces k) :=
  .gap (.token hk .nil)

/-- Words that are all given the kind `k` fit, and their kinds match `plus` of it if there is any
word. -/
theorem fits_words {k : Kind} (hk : k.content? = none) (ws : List SpacedWord) :
    Fits (ws.flatMap (SpacedWord.pieces k)) ∧
      (ws ≠ [] → kinds (ws.flatMap (SpacedWord.pieces k)) ∈ (plus (char k)).matches') := by
  refine ⟨.flatMap (fits_word hk) ws, fun hw => ?_⟩
  rw [Piece.kinds_flatMap (k := fun _ => k) fun _ => rfl]
  obtain ⟨w, ws, rfl⟩ := List.exists_cons_of_ne_nil hw
  exact cons_mem (mem_star_char (by simp))

/-- The words of an `addtask` or `deltask` line fit, and their kinds are an identifier followed by
identifiers and keywords. -/
theorem fits_taskPieces (ws : List SpacedWord) :
    Fits (taskPieces ws) ∧ (ws ≠ [] →
      kinds (taskPieces ws) ∈ (char Kind.identifier * star (oneOf [.identifier, .keyword])).matches') := by
  have hclause : ∀ w, clauseKind w ∈ [Kind.identifier, .keyword] := by
    intro w
    unfold clauseKind
    split <;> decide
  have hleaf : ∀ w, (clauseKind w).content? = none := by
    intro w
    unfold clauseKind
    split <;> rfl
  cases ws with
  | nil => exact ⟨.nil, fun hw => absurd rfl hw⟩
  | cons w ws =>
    refine ⟨(fits_word rfl w).append (.flatMap (fun v => fits_word (hleaf v) v) ws), fun _ => ?_⟩
    rw [taskPieces, Piece.kinds_append, Piece.kinds_flatMap (k := clauseKind) fun _ => rfl]
    refine cons_mem (mem_star_oneOf fun k hk => ?_)
    obtain ⟨v, -, rfl⟩ := List.mem_map.1 hk
    exact hclause v

section Directive

variable {d : Directive} (hn : d.kind ≠ .pythonFunctionDefinition)

include hn

/-- A closed directive fits if what stands after its keyword fits and matches the expression `P`
that its kind allows there. -/
theorem fits_close_keyword {P : RegularExpression Kind} {pieces : List Piece}
    (hk : d.kind.content? = some (char .keyword * (P * opt (char .error)))) (hp : Fits pieces)
    (hw : kinds pieces ∈ P.matches') (last : Cut) :
    Fits [(Statement.close d.kind (.token .keyword d.word.toList :: pieces) last).piece] := by
  refine fits_close hk hn (.token rfl hp) ?_ ?_ last
  · rw [Piece.kinds_token, ← List.append_nil (kinds pieces)]
    exact cons_mem (append_mem hw (mem_opt (.inl rfl)))
  · rw [Piece.kinds_token]
    exact cons_mem (append_mem hw (mem_opt (.inr rfl)))

theorem fits_ofWords {P : RegularExpression Kind} {ws : Words} {pieces : List Piece}
    (hk : d.kind.content? = some (char .keyword * (P * opt (char .error))))
    (hp : Fits pieces ∧ (ws.words ≠ [] → kinds pieces ∈ P.matches')) (cs : List Char) :
    Fits [(d.ofWords cs ws pieces).piece] := by
  unfold Directive.ofWords
  split
  · exact fits_refused cs
  · rename_i hw
    exact fits_close_keyword hn hk hp.1 (hp.2 (by simpa using hw)) ws.last

theorem fits_readPath (hk : d.kind.content? = some (char .keyword * char .path))
    (cs rest : List Char) : Fits [(d.readPath cs rest).piece] := by
  unfold Directive.readPath
  dsimp only
  split
  · exact fits_refused cs
  · exact .single hk hn (.token rfl (.gap (.token rfl .nil))) (cons_mem rfl)

theorem fits_readVariableFlag
    (hk : d.kind.content? = some (char .keyword * Arguments.variableFlag.language))
    (cs rest : List Char) : Fits [(d.readVariableFlag cs rest).piece] := by
  unfold Directive.readVariableFlag
  dsimp only
  split
  · exact fits_refused cs
  split
  · rename_i flag hf
    obtain ⟨hfits, hkinds⟩ := fits_optionalFlag hf
    exact fits_close_keyword hn hk (.gap (.token rfl hfits)) (cons_mem (mem_opt hkinds)) _
  · exact fits_refused cs

theorem fits_directive (hk : d.kind.content? = some (char .keyword * d.arguments.language))
    (cs rest : List Char) : Fits [(d.read cs rest).piece] := by
  unfold Directive.read
  split <;> rename_i ha <;> rw [ha] at hk
  · exact fits_readPath hn hk cs rest
  · exact fits_readVariableFlag hn hk cs rest
  · exact fits_ofWords hn hk (fits_words rfl _) cs
  · exact fits_ofWords hn hk (fits_words rfl _) cs
  · exact fits_ofWords hn hk (fits_taskPieces _) cs

end Directive

theorem content?_of_mem_table : ∀ d ∈ Directive.exportFunctions :: Directive.table,
    d.kind.content? = some (char .keyword * d.arguments.language) := by
  unfold Directive.table
  simp only [List.forall_mem_cons]
  exact ⟨rfl, rfl, rfl, rfl, rfl, rfl, rfl, rfl, rfl, List.forall_mem_nil _⟩

/-- The piece of the statement that is read from `cs` fits, whatever `cs` is. -/
theorem fits_statement (cs : List Char) : Fits [(Statement.read cs).piece] := by
  have hdirective : ∀ d ∈ Directive.exportFunctions :: Directive.table, ∀ rest,
      Fits [(d.read cs rest).piece] := by
    intro d hd
    have hn : ∀ d ∈ Directive.exportFunctions :: Directive.table,
      d.kind ≠ .pythonFunctionDefinition := by decide
    exact fits_directive (hn d hd) (content?_of_mem_table d hd) cs
  unfold Statement.read
  split
  · exact fits_readExport ..
  split
  · exact hdirective _ List.mem_cons_self _
  split
  · rename_i d rest hd
    split
    · exact fits_readAssignment cs
    · obtain ⟨e, he, hr⟩ := List.exists_of_findSome?_eq_some hd
      obtain ⟨_, _, hde⟩ := Option.map_eq_some_iff.1 hr
      cases hde
      exact hdirective d (List.mem_cons_of_mem _ he) rest
  · exact fits_readAssignment cs

/-! ## Tasks and definitions -/

theorem fits_taskWords (cs : List Char) :
    Fits (taskWords cs).pieces ∧ (∀ k ∈ kinds (taskWords cs).pieces, k = .keyword) ∧
      ((taskWords cs).python = true →
        .token .keyword "python".toList ∈ (taskWords cs).pieces) := by
  fun_induction taskWords cs with
  | case1 cs w rest h _ ih =>
    obtain ⟨hfits, hkinds, hpython⟩ := ih
    refine ⟨.token rfl (.gap hfits), List.forall_mem_cons.2 ⟨rfl, hkinds⟩, fun hp => ?_⟩
    rcases Bool.or_eq_true_iff.1 hp with hw | hp
    · rw [eq_of_beq hw]
      exact List.mem_cons_self
    · exact .tail _ (.tail _ (hpython hp))
  | case2 cs h => exact ⟨.nil, List.forall_mem_nil _, Bool.noConfusion⟩

theorem fits_mark? {c : Char} {cs : List Char} {ps : Parts} (h : mark? c cs = some ps) :
    Fits ps.pieces ∧ kinds ps.pieces = [.punctuation] := by
  unfold mark? at h
  split at h
  · split at h
    · cases h
      exact ⟨.token rfl (.gap .nil), rfl⟩
    · cases h
  · cases h

/-- The keywords and the name of a task. -/
def TaskHeader.names (h : TaskHeader) : RegularExpression Kind :=
  if h.python then plus (char .keyword) * opt (char .identifier)
  else star (char .keyword) * char .identifier

theorem content?_taskKind (h : TaskHeader) : h.kind.content?
    = some (h.names * (char .punctuation * char .punctuation) * braces h.contentKind) := by
  unfold TaskHeader.kind TaskHeader.contentKind TaskHeader.names
  split <;> rfl

theorem fits_taskHeader {cs : List Char} {h : TaskHeader} (hh : TaskHeader.read? cs = some h) :
    Fits h.front ∧
      kinds h.front ∈ (h.names * (char Kind.punctuation * char Kind.punctuation)).matches' ∧
      (h.python = true → .token .keyword "python".toList ∈ h.front) := by
  obtain ⟨hwords, hkeywords, hpython⟩ := fits_taskWords cs
  unfold TaskHeader.read? at hh
  dsimp only at hh
  split at hh
  · cases hh
  rename_i hname
  obtain ⟨opening, ho, hh⟩ := Option.bind_eq_some_iff.1 hh
  obtain ⟨closing, hc, hh⟩ := Option.bind_eq_some_iff.1 hh
  obtain ⟨hofits, hokinds⟩ := fits_mark? ho
  obtain ⟨hcfits, hckinds⟩ := fits_mark? hc
  split at hh
  · cases hh
    refine ⟨?_, ?_, fun hp => ?_⟩
    · exact (((hwords.append (.tokens rfl _)).append (.gap .nil)).append hofits).append hcfits
    · simp only [Piece.kinds_append, hokinds, hckinds, Piece.kinds_gap, Piece.kinds_nil,
        List.append_nil, List.append_assoc _ [Kind.punctuation]]
      refine append_mem ?_ (cons_mem rfl)
      unfold TaskHeader.names
      split
      · -- The keyword python is among the words, so there is one.
        rename_i hp
        refine append_mem ?_ (mem_opt (Piece.kinds_tokens _ _))
        have hne : kinds (taskWords cs).pieces ≠ [] := List.ne_nil_of_mem
          (List.mem_filterMap.2 ⟨_, hpython hp, rfl⟩)
        obtain ⟨k, ks, hks⟩ := List.exists_cons_of_ne_nil hne
        rw [hks, List.forall_mem_cons] at hkeywords
        rw [hks, hkeywords.1]
        exact cons_mem (mem_star_char hkeywords.2)
      · -- Without the keyword python there is a name.
        rename_i hp
        replace hp : (taskWords cs).python = false := Bool.eq_false_iff.2 hp
        have hne : (Cut.span isTaskNameChar (taskWords cs).rest).front.isEmpty = false := by
          rw [hp, Bool.not_false, Bool.and_true] at hname
          exact Bool.eq_false_iff.2 hname
        rw [Piece.tokens, hne]
        exact append_mem (mem_star_char hkeywords) rfl
    · simp only [List.mem_append]
      exact .inl (.inl (.inl (.inl (hpython hp))))
  · cases hh

theorem fits_content {k : Kind} (hk : k.content? = none) (cs : List Char) :
    Fits (content k cs).1 ∧ (kinds (content k cs).1 = [] ∨ kinds (content k cs).1 = [k]) := by
  unfold content
  dsimp only
  split
  · exact ⟨.nil, .inl rfl⟩
  · exact ⟨.gap (.token hk .nil), .inr rfl⟩

section Task

variable {cs : List Char} {h : TaskHeader} (hh : TaskHeader.read? cs = some h)

include hh

/-- A task is its header and a body that fits. -/
theorem fits_task {tail : List Piece} (ht : Fits tail)
    (hw : kinds tail ∈ (braces h.contentKind).matches') : Fits [.group h.kind (h.front ++ tail)] := by
  obtain ⟨hfront, hkinds, hpython⟩ := fits_taskHeader hh
  refine .group (content?_taskKind h) ?_ (fun hk => ?_) (hfront.append ht) .nil
  · rw [Piece.kinds_append]
    exact append_mem hkinds hw
  · refine List.mem_append_left _ (hpython ?_)
    unfold TaskHeader.kind at hk
    split at hk
    · assumption
    · cases hk

theorem fits_taskBlock (t : Text.Trimmed) (ending : List Char) (ls : List Line) :
    Fits (taskBlock h t ending ls).pieces ∧ kinds (taskBlock h t ending ls).pieces = [h.kind] := by
  have hleaf : h.contentKind.content? = none := by
    unfold TaskHeader.contentKind
    split <;> rfl
  unfold taskBlock
  dsimp only
  generalize t.after ++ ending ++ Line.textAll (ls.takeWhile (!·.closesTask)) = inside
  obtain ⟨hc, hk⟩ := fits_content hleaf inside
  split
  · refine ⟨.gap ?_, rfl⟩
    unfold closedTask
    simp only [List.append_assoc, List.singleton_append]
    refine .append (fits_task hh ?_ ?_) (.gap .nil)
    · exact .token rfl (hc.append (.gap (.mark _)))
    · rw [Piece.kinds_append, Piece.kinds_mark]
      exact .inl (append_mem (cons_mem (mem_opt hk)) rfl)
  · refine ⟨.gap ?_, rfl⟩
    unfold openTask
    simp only [List.append_assoc, List.singleton_append]
    refine .append (fits_task hh (.token rfl hc) ?_) (.gap .nil)
    exact .inr (cons_mem (mem_opt hk))

end Task

theorem fits_definitionBlock {cs : List Char} {header : List Piece}
    (hh : definitionHeader? cs = some header) (t : Text.Trimmed) (ending : List Char)
    (ls : List Line) : Fits (definitionBlock header t ending ls).pieces := by
  obtain ⟨rest, -, hh⟩ := Option.bind_eq_some_iff.1 hh
  obtain ⟨hc, hck⟩ := fits_content (k := .pythonContent) rfl
    (t.after ++ ending ++ Line.textAll (ls.takeWhile Line.inDefinition))
  dsimp only at hh
  split at hh
  · cases hh
    refine .gap (.group rfl ?_ nofun (Fits.append ?_ hc) (.gap .nil))
    · rw [Piece.kinds_append]
      refine append_mem ?_ (mem_opt hck)
      show [Kind.keyword, .identifier, .pythonContent, .punctuation] ∈ _
      decide
    · exact .token rfl (.gap (.token rfl (.gap (.token rfl (.gap (.mark _))))))
  · cases hh

/-! ## The whole text -/

theorem fits_block (l : Line) (ls : List Line) :
    Fits (block l ls).pieces ∧ kinds (block l ls).pieces ⊆ Content.statements := by
  unfold block
  dsimp only
  split
  · exact ⟨.gap .nil, List.nil_subset _⟩
  split
  · exact ⟨.gap (.token rfl (.gap .nil)), by simp [Content.statements]⟩
  split
  · rename_i h hh
    obtain ⟨hfits, hkinds⟩ := fits_taskBlock hh (Text.splitTrim l.body) l.ending ls
    refine ⟨hfits, ?_⟩
    rw [hkinds]
    unfold TaskHeader.kind
    split <;> simp [Content.statements]
  split
  · rename_i hh
    exact ⟨fits_definitionBlock hh _ _ _, by simp [definitionBlock, Content.statements]⟩
  · refine ⟨.gap ((fits_statement _).append (.gap .nil)), ?_⟩
    obtain ⟨k, hk, hkind⟩ := List.mem_map.1 (kind?_read (logicalLine
      { l with body := (Text.splitTrim l.body).core ++ (Text.splitTrim l.body).after } ls).text)
    have hstatement : statementKinds ⊆ Content.statements := by decide
    have hkinds := Piece.kinds_singleton hkind.symm
    intro m hm
    rw [statementBlock, Piece.kinds_gap, ← List.singleton_append, Piece.kinds_append, hkinds] at hm
    simp only [Piece.kinds_gap, Piece.kinds_nil, List.append_nil, List.mem_singleton] at hm
    rw [hm]
    exact hstatement hk

theorem fits_document (ls : List Line) :
    Fits (document ls) ∧ kinds (document ls) ⊆ Content.statements := by
  fun_induction document ls with
  | case1 => exact ⟨.nil, List.nil_subset _⟩
  | case2 l ls _ ih =>
    obtain ⟨hfits, hkinds⟩ := fits_block l ls
    rw [Piece.kinds_append]
    exact ⟨hfits.append ih.1, List.append_subset.2 ⟨hkinds, ih.2⟩⟩

/-- The pieces of a text fit, as those of a source file. -/
theorem fits_read (cs : List Char) : Fits [.group .sourceFile (read cs)] :=
  have h := fits_document (Line.ofTexts (Text.lines cs))
  .single rfl (by decide) h.1 (mem_star_oneOf h.2)

end Grammar

end Recipe
