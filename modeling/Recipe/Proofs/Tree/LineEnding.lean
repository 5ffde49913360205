import Mathlib.Data.List.Forall2
import Recipe.Diagnostic
import Recipe.Outline
import Recipe.Proofs.Embedded.Complete
import Recipe.Proofs.Grammar.LineEnding.Block
import Recipe.Proofs.Tree.Content
import Recipe.Proofs.Tree.Walk

/-!
# Trees with either line ending

A text without carriage returns has the same tree with either line ending: the nodes have the same
kinds and positions, and the leaves the same texts up to carriage returns (`Node.IsCrlf`). What is
read off a tree looks at kinds, positions and such texts only, so the declarations, the outline, the
diagnostics and the regions are the same too (`parse_crlf`). The offsets of bytes differ; regions are
sorted by them, but they stand in order before they are sorted.
-/

namespace Recipe

open List (Forall₂)
open Text (bytes)

/-! ## Texts and places -/

/-- The second string is the first one with a carriage return before every line feed. -/
def Text.IsCrlf (s t : String) : Prop :=
  t.toList = crlf s.toList

namespace Text.IsCrlf

variable {s t u v : String}

theorem of_not_mem (h : '\n' ∉ s.toList) : IsCrlf s s :=
  (crlf_of_not_mem h).symm

theorem append (h : IsCrlf s t) (h' : IsCrlf u v) : IsCrlf (s ++ u) (t ++ v) := by
  unfold IsCrlf at *
  rw [String.toList_append, String.toList_append, h, h', crlf_append]

theorem eq_iff (h : IsCrlf s t) (h' : IsCrlf u v) : t = v ↔ s = u := by
  unfold IsCrlf at h h'
  constructor
  · rintro rfl
    exact String.toList_injective (crlf_injective (h.symm.trans h'))
  · rintro rfl
    exact String.toList_injective (h.trans h'.symm)

end Text.IsCrlf

/-- The ranges begin and end at the same positions. -/
def Range.SamePlace (r s : Range) : Prop :=
  s.start = r.start ∧ s.stop = r.stop

/-! ## Nodes -/

namespace Node

/-- The second node is the first one of the text with carriage returns: the trees have the same shape,
kinds and positions, and the texts of their leaves are those of the first with carriage returns. -/
inductive IsCrlf : Node → Node → Prop where
  | leaf {k : Kind} {r s : Range} {t u : String} :
    r.SamePlace s → Text.IsCrlf t u → IsCrlf (.leaf k r t) (.leaf k s u)
  | branch {k : Kind} {r s : Range} {ns ms : List Node} :
    r.SamePlace s → Forall₂ IsCrlf ns ms → IsCrlf (.branch k r ns) (.branch k s ms)

namespace IsCrlf

variable {n m : Node}

theorem kind (h : n.IsCrlf m) : m.kind = n.kind := by
  cases h <;> rfl

theorem range (h : n.IsCrlf m) : n.range.SamePlace m.range := by
  cases h <;> assumption

theorem text? (h : n.IsCrlf m) : Option.Rel Text.IsCrlf n.text? m.text? := by
  cases h with
  | leaf _ ht => exact .some ht
  | branch => exact .none

theorem text (h : n.IsCrlf m) : Text.IsCrlf (n.text?.getD "") (m.text?.getD "") := by
  cases h with
  | leaf _ ht => exact ht
  | branch => rfl

theorem children (h : n.IsCrlf m) : Forall₂ IsCrlf n.children m.children := by
  cases h with
  | leaf => exact .nil
  | branch _ hc => exact hc

theorem childrenOfKind (h : n.IsCrlf m) (k : Kind) :
    Forall₂ IsCrlf (n.childrenOfKind k) (m.childrenOfKind k) := by
  refine List.rel_filter (fun a b hab => ?_) h.children
  show (a.kind == k) = true ↔ (b.kind == k) = true
  rw [hab.kind]

theorem child? (h : n.IsCrlf m) (k : Kind) : Option.Rel IsCrlf (n.child? k) (m.child? k) := by
  have hc := h.childrenOfKind k
  rw [child?_eq_head?, child?_eq_head?]
  generalize n.childrenOfKind k = ns at hc ⊢
  generalize m.childrenOfKind k = ms at hc ⊢
  cases hc with
  | nil => exact .none
  | cons hab _ => exact .some hab

/-- A node has a text of one line if and only if the other has it. -/
theorem text?_beq (h : n.IsCrlf m) {w : String} (hw : '\n' ∉ w.toList) :
    (m.text? == some w) = (n.text? == some w) := by
  have ht := h.text?
  generalize n.text? = a at ht ⊢
  generalize m.text? = b at ht ⊢
  cases ht with
  | none => rfl
  | some hab =>
    rw [Bool.eq_iff_iff]
    simp [hab.eq_iff (Text.IsCrlf.of_not_mem hw)]

end IsCrlf

mutual

theorem IsCrlf.preorder : ∀ {n m : Node}, n.IsCrlf m → Forall₂ IsCrlf n.preorder m.preorder
  | .leaf .., _, .leaf hr ht => .cons (.leaf hr ht) .nil
  | .branch .., _, .branch hr hc => .cons (.branch hr hc) (isCrlf_preorderAll hc)

theorem isCrlf_preorderAll :
    ∀ {ns ms : List Node}, Forall₂ IsCrlf ns ms → Forall₂ IsCrlf (preorderAll ns) (preorderAll ms)
  | [], _, .nil => .nil
  | _ :: _, _, .cons h hs => List.rel_append h.preorder (isCrlf_preorderAll hs)

end

end Node

namespace Piece

mutual

theorem isCrlf_locate {a b : Cursor} (h : b.position = a.position) : ∀ p : Piece,
    Forall₂ Node.IsCrlf (p.locate a).nodes (p.crlf.locate b).nodes ∧
      (p.crlf.locate b).stop.position = (p.locate a).stop.position
  | token k t => by
    have hstop := Cursor.position_advance_crlf h t
    exact ⟨.cons (.leaf ⟨h, hstop⟩ (by simp [Text.IsCrlf])) .nil, hstop⟩
  | gap g => ⟨.nil, Cursor.position_advance_crlf h g⟩
  | group k ps => by
    obtain ⟨hnodes, hstop⟩ := isCrlf_locateAll h ps
    exact ⟨.cons (.branch ⟨h, hstop⟩ hnodes) .nil, hstop⟩

/-- Pieces with carriage returns are laid out to the same positions. -/
theorem isCrlf_locateAll {a b : Cursor} (h : b.position = a.position) : ∀ ps : List Piece,
    Forall₂ Node.IsCrlf (locateAll a ps).nodes (locateAll b (crlfAll ps)).nodes ∧
      (locateAll b (crlfAll ps)).stop.position = (locateAll a ps).stop.position
  | [] => ⟨.nil, h⟩
  | p :: ps => by
    obtain ⟨hfirst, hstop⟩ := isCrlf_locate h p
    obtain ⟨hothers, hend⟩ := isCrlf_locateAll hstop ps
    exact ⟨List.rel_append hfirst hothers, hend⟩

end

end Piece

theorem isCrlf_rootNode {cs : List Char} (h : '\r' ∉ cs) :
    (rootNode cs).IsCrlf (rootNode (Text.crlf cs)) := by
  obtain ⟨hnodes, hstop⟩ := Piece.isCrlf_locateAll (a := .start) (b := .start) rfl (Grammar.read cs)
  rw [rootNode, rootNode, Grammar.read_crlf h]
  exact .branch ⟨rfl, hstop⟩ hnodes

/-! ## Declarations -/

/-- The names of a tree with carriage returns. -/
structure Symbol.IsCrlf (a b : Symbol) : Prop where
  name : Text.IsCrlf a.name b.name
  kind : b.kind = a.kind
  range : a.range.SamePlace b.range
  uri : b.uri = a.uri

namespace Node.IsCrlf

variable {n m : Node}

theorem assignedName? (h : n.IsCrlf m) : Option.Rel IsCrlf n.assignedName? m.assignedName? :=
  h.child? .identifier

theorem functionName? (h : n.IsCrlf m) : Option.Rel IsCrlf n.functionName? m.functionName? := by
  have hc := h.child? .identifier
  rw [Node.functionName?, Node.functionName?]
  generalize n.child? .identifier = a at hc ⊢
  generalize m.child? .identifier = b at hc ⊢
  cases hc with
  | none => exact .none
  | some hab =>
    rw [Option.filter_some, Option.filter_some, bne, bne, hab.text?_beq (by decide)]
    split
    · exact .some hab
    · exact .none

theorem declaredName? (h : n.IsCrlf m) :
    Option.Rel (fun a b => a.1.IsCrlf b.1 ∧ b.2 = a.2) n.declaredName? m.declaredName? := by
  have hmap : ∀ {a b : Option Node} (k : SymbolKind), Option.Rel IsCrlf a b →
      Option.Rel (fun a b => a.1.IsCrlf b.1 ∧ b.2 = a.2) (a.map fun name => (name, k))
        (b.map fun name => (name, k)) := by
    intro a b k hab
    cases hab with
    | none => exact .none
    | some hab => exact .some ⟨hab, rfl⟩
  unfold Node.declaredName?
  rw [h.kind]
  split
  · exact hmap .var h.assignedName?
  · refine hmap .var ?_
    have hc := h.child? .variableAssignment
    generalize n.child? .variableAssignment = a at hc ⊢
    generalize m.child? .variableAssignment = b at hc ⊢
    cases hc with
    | none => exact .none
    | some hab => exact hab.assignedName?
  · exact hmap .function h.functionName?
  · exact hmap .function h.functionName?
  · exact hmap .function h.functionName?
  · exact .none

theorem symbol (h : n.IsCrlf m) (uri : Uri) :
    Option.Rel Symbol.IsCrlf (Symbol.ofStatement? uri n) (Symbol.ofStatement? uri m) := by
  have hd := h.declaredName?
  rw [Symbol.ofStatement?, Symbol.ofStatement?]
  generalize n.declaredName? = a at hd ⊢
  generalize m.declaredName? = b at hd ⊢
  cases hd with
  | none => exact .none
  | some hab => exact .some ⟨hab.1.text, hab.2, hab.1.range, rfl⟩

end Node.IsCrlf

/-- The declarations of a tree with carriage returns: the same symbols, in the same order. -/
def Declarations.IsCrlf (d e : Declarations) : Prop :=
  Forall₂ (fun a b => Text.IsCrlf a.1 b.1 ∧ a.2.IsCrlf b.2) d.entries e.entries

theorem Declarations.IsCrlf.insert {d e : Declarations} (h : d.IsCrlf e) {a b : Symbol}
    (hab : a.IsCrlf b) : IsCrlf (d.insert a.name a) (e.insert b.name b) := by
  refine List.rel_append (List.rel_filter (fun x y hxy => ?_) h) (.cons ⟨hab.name, hab⟩ .nil)
  simp [hxy.1.eq_iff hab.name]

theorem isCrlf_declarations {ns ms : List Node} (h : Forall₂ Node.IsCrlf ns ms) (uri : Uri) :
    (Declarations.ofStatements uri ns).IsCrlf (Declarations.ofStatements uri ms) := by
  refine List.rel_foldl (fun d e hde a b hab => hde.insert hab) .nil ?_
  exact List.rel_filterMap (fun n m hnm => hnm.symbol uri) h

/-! ## Outlines -/

/-- The entries of an outline with carriage returns. -/
structure OutlineEntry.IsCrlf (a b : OutlineEntry) : Prop where
  name : Text.IsCrlf a.name b.name
  detail : Text.IsCrlf a.detail b.detail
  kind : b.kind = a.kind
  range : a.range.SamePlace b.range
  selection : a.selection.SamePlace b.selection

namespace OutlineEntry

variable {n m : Node}

theorem isCrlf_join {ss ts : List String} (h : Forall₂ Text.IsCrlf ss ts) :
    Text.IsCrlf (String.join ss) (String.join ts) := by
  induction h with
  | nil => rfl
  | cons h _ ih =>
    rw [String.join_cons, String.join_cons]
    exact h.append ih

theorem isCrlf_assignmentDetail (h : n.IsCrlf m) :
    Text.IsCrlf (assignmentDetail n) (assignmentDetail m) := by
  have hnames : Forall₂ Text.IsCrlf
      (((n.childrenOfKind .override).filterMap (·.child? .identifier)).filterMap Node.text?)
      (((m.childrenOfKind .override).filterMap (·.child? .identifier)).filterMap Node.text?) :=
    List.rel_filterMap (fun _ _ hab => hab.text?)
      (List.rel_filterMap (fun _ _ hab => hab.child? .identifier) (h.childrenOfKind .override))
  have hoperator : Text.IsCrlf (((n.child? .operator).bind Node.text?).getD "=")
      (((m.child? .operator).bind Node.text?).getD "=") := by
    have hc := h.child? .operator
    generalize n.child? .operator = a at hc ⊢
    generalize m.child? .operator = b at hc ⊢
    cases hc with
    | none => rfl
    | some hab =>
      cases hab with
      | leaf _ ht => exact ht
      | branch => exact Text.IsCrlf.of_not_mem (s := "=") (by decide)
  have hjoin := isCrlf_join (List.rel_map (P := Text.IsCrlf)
    (fun _ _ hab => (show Text.IsCrlf ":" ":" from rfl).append hab) hnames)
  have hdetail := (hjoin.append (show Text.IsCrlf " " " " from rfl)).append hoperator
  unfold assignmentDetail Text.IsCrlf Text.trimStart
  rw [String.toList_ofList, String.toList_ofList]
  exact (congrArg _ hdetail).trans (Text.dropWhile_crlf (by decide) _)

theorem hasKeyword_isCrlf (h : n.IsCrlf m) {w : String} (hw : '\n' ∉ w.toList) :
    hasKeyword m w = hasKeyword n w := by
  have hc := h.childrenOfKind .keyword
  unfold hasKeyword
  generalize n.childrenOfKind .keyword = ns at hc ⊢
  generalize m.childrenOfKind .keyword = ms at hc ⊢
  induction hc with
  | nil => rfl
  | cons hab _ ih => rw [List.any_cons, List.any_cons, hab.text?_beq hw, ih]

theorem isCrlf_declarationDetail (h : n.IsCrlf m) :
    Text.IsCrlf (declarationDetail n) (declarationDetail m) := by
  unfold declarationDetail
  rw [h.kind]
  split
  · have hc := h.child? .variableAssignment
    generalize n.child? .variableAssignment = a at hc ⊢
    generalize m.child? .variableAssignment = b at hc ⊢
    cases hc with
    | none => rfl
    | some hab => exact (show Text.IsCrlf "export " "export " from rfl).append (isCrlf_assignmentDetail hab)
  · exact isCrlf_assignmentDetail h
  · rw [hasKeyword_isCrlf h (by decide)]
    split <;> rfl
  · rfl
  · rfl
  · have hlabel : ∀ k : Kind, '\n' ∉ k.label.toList := by
      intro k
      cases k <;> decide
    exact Text.IsCrlf.of_not_mem (hlabel _)

theorem isCrlf_ofPaths (h : n.IsCrlf m) (kind : SymbolKind) {detail : String}
    (hd : '\n' ∉ detail.toList) : Forall₂ IsCrlf (ofPaths n kind detail) (ofPaths m kind detail) :=
  List.rel_map (fun _ _ hab => ⟨hab.text, .of_not_mem hd, rfl, h.range, hab.range⟩)
    (h.childrenOfKind .path)

theorem isCrlf_ofStatement (h : n.IsCrlf m) : Forall₂ IsCrlf (ofStatement n) (ofStatement m) := by
  unfold ofStatement
  rw [h.kind]
  split
  · exact isCrlf_ofPaths h .module (by decide)
  · exact isCrlf_ofPaths h .file (by decide)
  · exact isCrlf_ofPaths h .file (by decide)
  · have hd := h.declaredName?
    rw [ofDeclaration?, ofDeclaration?]
    generalize n.declaredName? = a at hd ⊢
    generalize m.declaredName? = b at hd ⊢
    cases hd with
    | none => exact .nil
    | some hab =>
      exact .cons ⟨hab.1.text, isCrlf_declarationDetail h, hab.2, h.range, hab.1.range⟩ .nil

end OutlineEntry

/-! ## Diagnostics -/

/-- The diagnostics of a tree with carriage returns. -/
structure Diagnostic.IsCrlf (a b : Diagnostic) : Prop where
  range : a.range.SamePlace b.range
  message : Text.IsCrlf a.message b.message

/-- Errors are leaves, and a diagnostic quotes their text. -/
theorem isCrlf_ofError {n m : Node} (h : n.IsCrlf m) (hn : n.FitsContent ∧ n.isError = true)
    (t c : Tree) : (Diagnostic.ofError t n).IsCrlf (.ofError c m) := by
  refine ⟨h.range, ?_⟩
  cases h with
  | leaf _ ht =>
    have htrim : Text.IsCrlf (Text.trimString _) (Text.trimString _) := Text.trimString_crlf ht
    have hopen : Text.IsCrlf "Invalid syntax \"" "Invalid syntax \"" := rfl
    have hclose : Text.IsCrlf "\"" "\"" := rfl
    exact (hopen.append htrim).append hclose
  | @branch k r s ns ms =>
    obtain ⟨⟨⟨language, hl, -⟩, -⟩, herror⟩ := hn
    have hk : k = .error := eq_of_beq herror
    rw [hk] at hl
    cases hl

/-! ## Regions -/

/-- The regions of a tree with carriage returns. -/
structure Region.IsCrlf (a b : Region) : Prop where
  language : b.language = a.language
  index : b.index = a.index
  dedent : b.dedent = a.dedent
  range : a.range.SamePlace b.range

namespace Candidate

/-- The candidates of a tree with carriage returns. -/
structure IsCrlf (a b : Candidate) : Prop where
  language : b.language = a.language
  dedent : b.dedent = a.dedent
  range : a.range.SamePlace b.range

theorem isCrlf_trimmedRange? {n m : Node} (h : n.IsCrlf m) :
    Option.Rel Range.SamePlace (trimmedRange? n) (trimmedRange? m) := by
  cases h with
  | branch => exact .none
  | @leaf k r s t u hr ht =>
    have ht : u.toList = Text.crlf t.toList := ht
    have hstart : (Cursor.mk s.span.start s.start).position
        = (Cursor.mk r.span.start r.start).position := hr.1
    have hcore := Cursor.position_advance_crlf hstart (Text.splitTrim t.toList).before
    have hstop := Cursor.position_advance_crlf hcore (Text.splitTrim t.toList).core
    simp only [trimmedRange?, Node.text?, Option.bind_some, Node.range, ht, Text.splitTrim_crlf,
      Text.Trimmed.crlf, Text.isEmpty_crlf]
    split
    · exact .none
    · exact .some ⟨hcore, hstop⟩

theorem isCrlf_ofStatement {n m : Node} (h : n.IsCrlf m) :
    Forall₂ IsCrlf (ofStatement n) (ofStatement m) := by
  have hcontent : ∀ (k : Kind) (l : Language) (dedent : Bool),
      Forall₂ IsCrlf ((n.child? k).toList.map fun body => ⟨l, body.range, dedent⟩)
        ((m.child? k).toList.map fun body => ⟨l, body.range, dedent⟩) := by
    intro k l dedent
    have hc := h.child? k
    generalize n.child? k = a at hc ⊢
    generalize m.child? k = b at hc ⊢
    cases hc with
    | none => exact .nil
    | some hab => exact .cons ⟨rfl, rfl, hab.range⟩ .nil
  unfold ofStatement
  rw [h.kind]
  split
  · exact hcontent _ _ _
  · exact hcontent _ _ _
  · exact .cons ⟨rfl, rfl, h.range⟩ .nil
  · unfold inline
    rw [Node.walk_eq_preorder, Node.walk_eq_preorder]
    refine List.rel_map (fun _ _ hr => ⟨rfl, rfl, hr⟩) ?_
    refine List.rel_filterMap (fun _ _ hab => isCrlf_trimmedRange? hab) ?_
    refine List.rel_filterMap (fun (a b : Node) (hab : a.IsCrlf b) =>
      hab.child? .pythonContent) ?_
    refine List.rel_filter (fun a b hab => ?_) h.preorder
    show (a.kind == .inlinePython) = true ↔ (b.kind == .inlinePython) = true
    rw [hab.kind]

theorem isCrlf_number {cs ds : List Candidate} (h : Forall₂ IsCrlf cs ds) (counts : Language → Nat) :
    Forall₂ Region.IsCrlf (number counts cs) (number counts ds) := by
  induction h generalizing counts with
  | nil => exact .nil
  | cons hab _ ih =>
    rw [number, number, hab.language]
    exact .cons ⟨rfl, rfl, hab.dedent, hab.range⟩ (ih _)

end Candidate

/-! ## Trees -/

/-- The second tree is the first one of the text with carriage returns, and so is what is read off
it. -/
structure Tree.IsCrlf (t c : Tree) : Prop where
  root? : Option.Rel Node.IsCrlf t.root? c.root?
  declarations : ∀ uri, (Declarations.ofTree uri t).IsCrlf (.ofTree uri c)
  outline : Forall₂ OutlineEntry.IsCrlf t.outline c.outline
  diagnostics : Forall₂ Diagnostic.IsCrlf t.diagnostics c.diagnostics
  regions : Forall₂ Region.IsCrlf t.regions c.regions

/-- The regions of a text are the candidates of its statements, numbered. -/
theorem regions_of_parse {limit : Nat} {source : String} {t : Tree} (h : parse limit source = .ok t) :
    t.regions = Candidate.number (fun _ => 0) (t.statements.flatMap Candidate.ofStatement) := by
  rw [Tree.regions, (Tree.embeds_of_parse h).kept]

theorem isCrlf_of_parse {limit : Nat} {source : String} {t c : Tree} (h : '\r' ∉ source.toList)
    (ht : parse limit source = .ok t)
    (hc : parse limit (String.ofList (Text.crlf source.toList)) = .ok c) : t.IsCrlf c := by
  have hroot := isCrlf_rootNode h
  have htroot : t.root? = some (rootNode source.toList) := by rw [(of_parse ht).2]
  have hcroot : c.root? = some (rootNode (Text.crlf source.toList)) := by
    rw [(of_parse hc).2, String.toList_ofList]
  have hstatements : Forall₂ Node.IsCrlf t.statements c.statements := by
    rw [Tree.statements, Tree.statements, htroot, hcroot]
    exact hroot.children
  have herrors : Forall₂ (fun n m => (n.FitsContent ∧ n.isError = true) ∧ n.IsCrlf m) t.errors
      c.errors := by
    rw [Tree.errors, Tree.errors, htroot, hcroot, List.forall₂_and_left, Option.map_some,
      Option.map_some, Option.getD_some, Option.getD_some, Node.walk_eq_preorder, Node.walk_eq_preorder]
    refine ⟨fun n hn => ?_, List.rel_filter (fun n m hnm => ?_) hroot.preorder⟩
    · obtain ⟨hn, he⟩ := List.mem_filter.1 hn
      exact ⟨fitsContent_rootNode _ n hn, he⟩
    · show n.isError = true ↔ m.isError = true
      rw [Node.isError, Node.isError, hnm.kind]
  refine ⟨?_, ?_, ?_, ?_, ?_⟩
  · rw [htroot, hcroot]
    exact .some hroot
  · exact isCrlf_declarations hstatements
  · exact List.rel_flatMap hstatements fun n m hnm => OutlineEntry.isCrlf_ofStatement hnm
  · exact List.rel_map (fun n m hnm => isCrlf_ofError hnm.2 hnm.1 t c) herrors
  · rw [regions_of_parse ht, regions_of_parse hc]
    refine Candidate.isCrlf_number ?_ _
    exact List.rel_flatMap hstatements fun n m hnm => Candidate.isCrlf_ofStatement hnm

/-- A text without carriage returns, and the text with a carriage return before every line feed, both
within the limit: they have the same trees, declarations, outlines, diagnostics and regions. -/
theorem parse_crlf (limit : Nat) (source : String) (hreturn : '\r' ∉ source.toList)
    (hsize : bytes (Text.crlf source.toList) ≤ limit) :
    ∃ t c, parse limit source = .ok t ∧
      parse limit (String.ofList (Text.crlf source.toList)) = .ok c ∧ t.IsCrlf c := by
  have ht := parse_eq_ok (Nat.le_trans (Text.bytes_le_crlf source.toList) hsize)
  have hc : parse limit (String.ofList (Text.crlf source.toList)) = .ok _ :=
    parse_eq_ok (by rwa [String.toList_ofList])
  exact ⟨_, _, ht, hc, isCrlf_of_parse hreturn ht hc⟩

/-- A value with an escaped line feed and a brace group over two lines, a directive with a blank
continuation line, and a task that no line closes. -/
def continued : String :=
  "A = \"x \\\n$\x7b@ b \\\n \x7d\"\ninherit c \\\n \\\nd\npython () \x7b\n\n  e\n"

theorem parse_crlf_continued :
    '\r' ∉ continued.toList ∧ bytes (Text.crlf continued.toList) ≤ 128 ∧
      ∃ t c, parse 128 continued = .ok t ∧
        parse 128 (String.ofList (Text.crlf continued.toList)) = .ok c ∧ t.IsCrlf c :=
  ⟨by decide, by decide, parse_crlf 128 continued (by decide) (by decide)⟩

end Recipe
