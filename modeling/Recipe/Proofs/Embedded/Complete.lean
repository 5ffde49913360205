import Recipe.Proofs.Embedded.Code
import Recipe.Proofs.Embedded.Region

/-!
# Regions are the embedded code

The regions of a tree are the code that its statements embed (`Tree.regions_embed`). The candidates of
the statements stand one after the other already, so sorting leaves them as they are
(`Candidate.Ordered.mergeSort`) and none of them is dropped (`Candidate.Ordered.dropNested`). What keeps
them apart is the closing brace after inline code and after the content of a task, and the end of the
line after a definition: only the last block of a text may end where its code ends (`embeds_block`).
-/

namespace Recipe

open Text (bytes)
open Piece (textAll nodesAfter kind?)

/-! ## Pieces -/

/-- Pieces that do not have a kind have no nodes of it. -/
theorem Piece.filter_nodesAfter {k : Kind} {ps : List Piece} (h : ∀ q ∈ ps, kind? q ≠ some k)
    (pre : List Char) : (nodesAfter pre ps).filter (·.kind == k) = [] := by
  refine List.filter_eq_nil_iff.2 fun n hn hk => ?_
  rw [← beq_iff_eq.1 hk] at h
  rcases exists_of_mem_nodes hn with ⟨t, ht, -⟩ | ⟨inside, pre', hg, -⟩
  · exact h _ ht rfl
  · exact h _ hg rfl

/-- The candidates of the nodes of some pieces stand one after the other, and end that many bytes after
the pieces at most; and they are the code that the nodes embed. -/
def Piece.Embeds (slack : Nat) (ps : List Piece) : Prop :=
  ∀ pre post, Candidate.Fits (pre ++ (textAll ps ++ post)) (bytes pre) (bytes (pre ++ textAll ps) + slack)
    ((nodesAfter pre ps).flatMap Candidate.ofStatement)
    ((nodesAfter pre ps).flatMap (Node.embeddedCode (pre ++ (textAll ps ++ post))))

namespace Piece.Embeds

variable {slack slack' : Nat} {ps qs : List Piece}

theorem mono (hp : Embeds slack ps) (hs : slack ≤ slack') : Embeds slack' ps := fun pre post =>
  (hp pre post).mono (Nat.le_refl _) (Nat.add_le_add_left hs _)

theorem append (hp : Embeds 0 ps) (hq : Embeds slack qs) : Embeds slack (ps ++ qs) := by
  intro pre post
  have hp := hp pre (textAll qs ++ post)
  have hq := hq (pre ++ textAll ps) post
  rw [nodesAfter_append, List.flatMap_append, List.flatMap_append, textAll_append]
  simp only [List.append_assoc, Nat.add_zero] at hp hq ⊢
  exact hp.append hq

theorem gap_before (hp : Embeds slack ps) (g : List Char) : Embeds slack (.gap g :: ps) := by
  intro pre post
  have hp := hp (pre ++ g) post
  rw [nodesAfter_gap, textAll, text]
  simp only [List.append_assoc] at hp ⊢
  exact hp.mono (by simp [Text.bytes_append]) (Nat.le_refl _)

/-- Pieces whose code may reach `slack` bytes past their end may do so by `slack'` bytes with a gap
after them that is as wide as the difference. -/
theorem gap_after (hp : Embeds slack ps) {g : List Char} (hg : slack ≤ slack' + bytes g) :
    Embeds slack' (ps ++ [.gap g]) := by
  intro pre post
  have hp := hp pre (g ++ post)
  have htext : textAll (ps ++ [.gap g]) = textAll ps ++ g := by
    rw [textAll_append, textAll, textAll, text, List.append_nil]
  rw [nodesAfter_append, nodesAfter_gap, nodesAfter_nil, List.append_nil, htext]
  simp only [List.append_assoc] at hp ⊢
  refine hp.mono (Nat.le_refl _) ?_
  simp only [Text.bytes_append] at hg ⊢
  omega

end Piece.Embeds

/-! ## Statements -/

open Piece (Embeds)

/-- The kinds of statements that are, or have in them, one piece of code. -/
def Kind.ofCode : List Kind :=
  [.functionDefinition, .pythonFunctionDefinition, .pythonDefinition]

theorem Node.inlines_cons (n : Node) (ns : List Node) : inlines (n :: ns) = inlines [n] ++ inlines ns := by
  rw [inlines, preorderAll, List.filter_append, inlines, preorderAll, preorderAll, List.append_nil]
  rfl

namespace Candidate

variable (source : List Char)

/-- In statements of other kinds, the inline code is all there is. -/
theorem ofStatement_eq_inline {n : Node} (h : n.kind ∉ Kind.ofCode) :
    ofStatement n = (Node.inlines [n]).flatMap ofInline ∧
      n.embeddedCode source = (Node.inlines [n]).flatMap (Node.inlineCode source) := by
  simp only [Kind.ofCode, List.mem_cons, List.not_mem_nil, or_false, not_or] at h
  obtain ⟨hshell, hpython, hdefinition⟩ := h
  refine ⟨?_, ?_⟩
  · rw [← inline_eq]
    unfold ofStatement
    split <;> first | contradiction | rfl
  · unfold Node.embeddedCode
    split <;> first | contradiction | rfl

theorem flatMap_ofStatement {ns : List Node} (h : ∀ n ∈ ns, n.kind ∉ Kind.ofCode) :
    ns.flatMap ofStatement = (Node.inlines ns).flatMap ofInline ∧
      ns.flatMap (Node.embeddedCode source) = (Node.inlines ns).flatMap (Node.inlineCode source) := by
  induction ns with
  | nil => exact ⟨rfl, rfl⟩
  | cons n ns ih =>
    obtain ⟨hn, hns⟩ := List.forall_mem_cons.1 h
    obtain ⟨hcn, hen⟩ := ofStatement_eq_inline source hn
    obtain ⟨hc, he⟩ := ih hns
    rw [Node.inlines_cons, List.flatMap_cons, List.flatMap_cons, List.flatMap_append,
      List.flatMap_append, hc, he, hcn, hen]
    exact ⟨rfl, rfl⟩

end Candidate

theorem embeds_of_inlines {ps : List Piece} (h : Grammar.Inlines ps)
    (hk : ∀ p ∈ ps, ∀ k ∈ Kind.ofCode, kind? p ≠ some k) : Embeds 0 ps := by
  intro pre post
  have hn : ∀ n ∈ nodesAfter pre ps, n.kind ∉ Kind.ofCode := by
    intro n hn hc
    rcases Piece.exists_of_mem_nodes hn with ⟨t, ht, -⟩ | ⟨inside, pre', hg, -⟩
    · exact hk _ ht _ hc rfl
    · exact hk _ hg _ hc rfl
  obtain ⟨hc, he⟩ := Candidate.flatMap_ofStatement (pre ++ (textAll ps ++ post)) hn
  rw [hc, he]
  exact Candidate.fits_inlines h pre post

/-! ## Tasks -/

namespace Grammar

/-- The only node of kind `k` among those of `front`, the content `inside` and `back` is the leaf of
the content without the blanks around it. -/
theorem filter_content (k : Kind) {front back : List Piece} (hf : ∀ q ∈ front, kind? q ≠ some k)
    (hb : ∀ q ∈ back, kind? q ≠ some k) (pre inside : List Char) :
    (nodesAfter pre (front ++ (content k inside).1 ++ back)).filter (·.kind == k)
      = ((Range.core? (pre ++ textAll front) inside).map fun r =>
          Node.leaf k r (String.ofList (Text.splitTrim inside).core)).toList := by
  rw [Piece.nodesAfter_append, Piece.nodesAfter_append, List.filter_append, List.filter_append,
    Piece.filter_nodesAfter hf, Piece.filter_nodesAfter hb, List.nil_append, List.append_nil]
  unfold content Range.core?
  dsimp only
  split
  · rfl
  · rw [Piece.nodesAfter_gap, Piece.nodesAfter_token, Piece.nodesAfter_nil,
      List.filter_cons_of_pos (by simp [Node.kind])]
    rfl

theorem textAll_content (k : Kind) (cs : List Char) :
    textAll (content k cs).1 ++ (content k cs).2 = cs := by
  have := (reads_content k cs []).eq_append
  rw [List.append_nil, List.append_nil] at this
  exact this.symm

/-- The language of a task. -/
def TaskHeader.language (h : TaskHeader) : Language :=
  if h.python then .python else .shell

theorem ofStatement_task {h : TaskHeader} {r : Range} {cs : List Node} {o : Option Range} {text : String}
    (hcs : (Node.branch h.kind r cs).childrenOfKind h.contentKind
      = (o.map fun r => Node.leaf h.contentKind r text).toList) (source : List Char) :
    Candidate.ofStatement (.branch h.kind r cs) = o.toList.map (⟨h.language, ·, h.python⟩) ∧
      Node.embeddedCode source (.branch h.kind r cs) = o.toList.map (h.language, ·) := by
  have hcandidates : Candidate.ofStatement (.branch h.kind r cs)
      = ((Node.branch h.kind r cs).child? h.contentKind).toList.map fun body =>
          ⟨h.language, body.range, h.python⟩ := by
    obtain ⟨_ | _, front⟩ := h <;> rfl
  have hcode : Node.embeddedCode source (.branch h.kind r cs)
      = ((Node.branch h.kind r cs).childrenOfKind h.contentKind).map fun body =>
          (h.language, body.range) := by
    obtain ⟨_ | _, front⟩ := h <;> rfl
  rw [hcandidates, hcode, Node.child?_eq_head?, hcs, Option.head?_toList]
  cases o with
  | none => exact ⟨rfl, rfl⟩
  | some r => exact ⟨rfl, rfl⟩

/-- A task embeds the content that stands after `front`, and there is room after it. -/
theorem embeds_task (h : TaskHeader) {front back : List Piece}
    (hf : ∀ q ∈ front, kind? q ≠ some h.contentKind) (hb : ∀ q ∈ back, kind? q ≠ some h.contentKind)
    {inside g tail : List Char} {slack : Nat}
    (htext : textAll ((content h.contentKind inside).1 ++ back) ++ g = inside ++ tail)
    (hs : 1 ≤ slack + bytes tail) :
    Embeds slack [.group h.kind (front ++ (content h.contentKind inside).1 ++ back), .gap g] := by
  intro pre post
  have hall : textAll [.group h.kind (front ++ (content h.contentKind inside).1 ++ back), .gap g]
      = textAll front ++ (inside ++ tail) := by
    rw [textAll, textAll, textAll, Piece.text, Piece.text, List.append_assoc front,
      Piece.textAll_append, List.append_nil, List.append_assoc, htext]
  have hfits := Candidate.Fits.core? (pre ++ textAll front) inside (tail ++ post) h.language h.python
  rw [Piece.nodesAfter_group, Piece.nodesAfter_gap, Piece.nodesAfter_nil, List.flatMap_singleton,
    List.flatMap_singleton, hall]
  have hcs : (Node.branch h.kind (.after pre (textAll (front ++ (content h.contentKind inside).1 ++ back)))
      (nodesAfter pre (front ++ (content h.contentKind inside).1 ++ back))).childrenOfKind h.contentKind
      = _ := filter_content h.contentKind hf hb pre inside
  obtain ⟨hc, he⟩ := ofStatement_task hcs (pre ++ (textAll front ++ (inside ++ tail) ++ post))
  rw [hc, he]
  simp only [List.append_assoc] at hfits ⊢
  simp only [Text.bytes_append] at hfits ⊢
  exact hfits.mono (by omega) (by omega)

section Task

variable {cs : List Char} {h : TaskHeader} (hh : TaskHeader.read? cs = some h)

include hh

theorem kind?_ne_contentKind (brace : Piece) (hb : kind? brace ∈ [some .error, some .punctuation]) :
    ∀ q ∈ h.front ++ [brace], kind? q ≠ some h.contentKind := by
  have hkind : some h.contentKind ∉ some .error :: headerKinds := by
    unfold TaskHeader.contentKind
    split <;> decide
  refine List.forall_mem_append.2 ⟨fun q hq => ?_, List.forall_mem_singleton.2 ?_⟩
  · exact ne_of_mem_of_not_mem (List.mem_cons_of_mem _ (kind?_taskHeader hh q hq)) hkind
  · exact ne_of_mem_of_not_mem ((by decide : [some .error, some .punctuation] ⊆
      some .error :: headerKinds) hb) hkind

theorem embeds_closedTask (inside : List Char) (closing : Line) :
    Embeds 0 (closedTask h inside closing) := by
  have hback : ∀ q ∈ [Piece.gap (content h.contentKind inside).2, Piece.mark '}'],
      kind? q ≠ some h.contentKind := by
    have hp := kind?_ne_contentKind hh (Piece.mark '}') (by decide) _
      (List.mem_append_right _ (List.mem_singleton_self _))
    exact List.forall_mem_cons.2 ⟨by simp [kind?], List.forall_mem_singleton.2 hp⟩
  have htext : textAll ((content h.contentKind inside).1
      ++ [.gap (content h.contentKind inside).2, Piece.mark '}']) ++ (closing.body.drop 1 ++ closing.ending)
      = inside ++ '}' :: (closing.body.drop 1 ++ closing.ending) := by
    simp only [Piece.textAll_append, textAll, Piece.text, Piece.mark, List.append_nil]
    rw [← List.append_assoc (textAll _), textAll_content, List.append_assoc]
    rfl
  have hbrace : 1 ≤ 0 + bytes ('}' :: (closing.body.drop 1 ++ closing.ending)) := by
    have := Char.utf8Size_pos '}'
    rw [Text.bytes_cons]
    omega
  exact embeds_task h (kind?_ne_contentKind hh _ (by decide)) hback htext hbrace

theorem embeds_openTask (inside : List Char) : Embeds 1 (openTask h inside) := by
  have htext : textAll ((content h.contentKind inside).1 ++ []) ++ (content h.contentKind inside).2
      = inside ++ [] := by
    rw [List.append_nil, List.append_nil, textAll_content]
  have hbrace := kind?_ne_contentKind hh (.token .error ['{']) (by simp [kind?])
  have := embeds_task h hbrace (List.forall_mem_nil _) htext (Nat.le_add_right 1 _)
  rwa [List.append_nil] at this

/-- Where lines are left after a task, a brace has closed it. -/
theorem embeds_taskBlock (t : Text.Trimmed) (ending : List Char) (ls : List Line) {slack : Nat}
    (hs : (taskBlock h t ending ls).rest = [] → 1 ≤ slack) :
    Embeds slack (taskBlock h t ending ls).pieces := by
  unfold taskBlock at hs ⊢
  dsimp only at hs ⊢
  split
  · exact ((embeds_closedTask hh _ _).mono (Nat.zero_le _)).gap_before _
  · rename_i hd
    rw [hd] at hs
    exact ((embeds_openTask hh _).mono (hs rfl)).gap_before _

end Task

/-! ## Definitions -/

/-- Every line but the last one ends with a line feed. -/
def Fed (ls : List Line) : Prop :=
  ∀ l ∈ ls.dropLast, l.ending.getLast? = some '\n'

theorem Fed.of_suffix {ls ms : List Line} (h : Fed ls) (hs : ms <:+ ls) : Fed ms := by
  obtain ⟨front, rfl⟩ := hs
  intro l hl
  have hne : ms ≠ [] := fun hn => by rw [hn] at hl; cases hl
  exact h l (by rw [List.dropLast_append_of_ne_nil hne]; exact List.mem_append_right _ hl)

theorem fed_ofTexts (ts : List (List Char)) : Fed (Line.ofTexts ts) := by
  have hfeed : ∀ l, (Line.ofText ['\n'] l).ending.getLast? = some '\n' := by
    intro l
    unfold Line.ofText
    split <;> rfl
  fun_induction Line.ofTexts ts with
  | case1 => exact List.forall_mem_nil _
  | case2 l => exact List.forall_mem_nil _
  | case3 l m ls ih =>
    have hne : Line.ofTexts (m :: ls) ≠ [] := by
      cases ls <;> simp [Line.ofTexts]
    intro k hk
    rw [List.dropLast_cons_of_ne_nil hne] at hk
    rcases List.mem_cons.1 hk with rfl | hk
    · exact hfeed l
    · exact ih k hk

/-- Lines that others come after end with a line feed. -/
theorem Fed.getLast?_eq {l : Line} {front rest : List Line} (h : Fed (l :: (front ++ rest)))
    (hr : rest ≠ []) : (l.ending ++ Line.textAll front).getLast? = some '\n' := by
  rw [Fed, ← List.cons_append, List.dropLast_append_of_ne_nil hr] at h
  rcases List.eq_nil_or_concat' front with rfl | ⟨front, m, rfl⟩
  · rw [textAll_nil, List.append_nil]
    exact h l (by simp)
  · have hm := h m (by simp)
    rw [textAll_append, textAll_cons, textAll_nil, List.append_nil, Line.text, List.getLast?_append,
      List.getLast?_append, List.getLast?_append, hm]
    rfl

theorem content_ne_nil (k : Kind) {cs : List Char} {c : Char} (hc : cs.getLast? = some c)
    (hb : Text.isBlank c = true) : (content k cs).2 ≠ [] := by
  unfold content
  dsimp only
  split
  · rintro rfl
    cases hc
  · rename_i hcore
    exact Text.after_ne_nil hc hb (by simpa using hcore)

theorem solid_content {front : List Char} (hf : Text.Solid front) (k : Kind) (cs : List Char) :
    Text.Solid (front ++ textAll (content k cs).1) := by
  obtain ⟨c, hc, hb⟩ := hf.starts
  unfold content
  dsimp only
  split
  · rw [textAll, List.append_nil]
    exact hf
  · rename_i hcore
    obtain ⟨d, hd, he⟩ := (Text.solid_core (by simpa using hcore)).ends
    refine ⟨⟨c, ?_, hb⟩, d, ?_, he⟩
    · rw [List.head?_append, hc]
      rfl
    · simp only [textAll, Piece.text, List.append_nil, List.getLast?_append, hd]
      rfl

/-- A python definition embeds one region, the whole of its solid text. -/
theorem embeds_definition {inside : List Piece} (h : Text.Solid (textAll inside)) :
    Embeds 1 [.group .pythonDefinition inside] := by
  intro pre post
  have hfits := Candidate.Fits.single pre post h .python false
  rw [← Text.bytes_append] at hfits
  rw [Piece.nodesAfter_group, Piece.nodesAfter_nil, List.flatMap_singleton, List.flatMap_singleton,
    textAll, textAll, Piece.text, List.append_nil]
  exact hfits

/-- Where lines are left after a definition, a line feed stands between them and its code. -/
theorem embeds_definitionBlock {header : List Piece} {l : Line} {ls : List Line} (hl : Fed (l :: ls))
    (hh : definitionHeader? (Text.splitTrim l.body).core = some header)
    (hcore : (Text.splitTrim l.body).core ≠ []) {slack : Nat}
    (hs : (definitionBlock header (Text.splitTrim l.body) l.ending ls).rest = [] → 1 ≤ slack) :
    Embeds slack (definitionBlock header (Text.splitTrim l.body) l.ending ls).pieces := by
  have hheader : textAll header = (Text.splitTrim l.body).core := by
    have := (reads_definitionHeader? hh []).eq_append
    rw [List.append_nil, List.append_nil] at this
    exact this.symm
  unfold definitionBlock at hs ⊢
  dsimp only at hs ⊢
  refine Embeds.gap_before (Embeds.gap_after (embeds_definition ?_) ?_) _
  · rw [Piece.textAll_append, hheader]
    exact solid_content (Text.solid_core hcore) _ _
  · by_cases hr : ls.dropWhile Line.inDefinition = []
    · exact Nat.le_add_right_of_le (hs hr)
    · rw [← List.takeWhile_append_dropWhile (p := Line.inDefinition) (l := ls)] at hl
      have hlast : ((Text.splitTrim l.body).after ++ l.ending
          ++ Line.textAll (ls.takeWhile Line.inDefinition)).getLast? = some '\n' := by
        rw [List.append_assoc, List.getLast?_append, hl.getLast?_eq hr]
        rfl
      have hne := content_ne_nil .pythonContent hlast (by decide)
      have hpos : bytes (content .pythonContent _).2 ≠ 0 := fun h0 => hne (Text.bytes_eq_zero.1 h0)
      omega

/-! ## Blocks -/

theorem embeds_statementBlock (t : Text.Trimmed) (l : Line) (ls : List Line) :
    Embeds 0 (statementBlock t l ls).pieces := by
  have hother : ∀ k ∈ Kind.ofCode, some k ∉ statementKinds.map some := by decide
  refine embeds_of_inlines (.gap ((inlines_read _).append (.gap .nil))) ?_
  refine List.forall_mem_cons.2 ⟨by simp [kind?], List.forall_mem_cons.2 ⟨?_, by simp [kind?]⟩⟩
  exact fun k hk => ne_of_mem_of_not_mem (kind?_read _) (hother k hk)

/-- Only the last block of a text may end where its code ends. -/
theorem embeds_block {l : Line} {ls : List Line} (hl : Fed (l :: ls)) {slack : Nat}
    (hs : (block l ls).rest = [] → 1 ≤ slack) : Embeds slack (block l ls).pieces := by
  unfold block at hs ⊢
  dsimp only at hs ⊢
  split
  · exact (embeds_of_inlines (.gap .nil) (by simp [kind?])).mono (Nat.zero_le _)
  rename_i hcore
  rw [if_neg hcore] at hs
  split
  · refine (embeds_of_inlines (.gap (.token (by decide) (.gap .nil))) ?_).mono (Nat.zero_le _)
    simp [kind?, Kind.ofCode]
  rename_i hcomment
  rw [if_neg hcomment] at hs
  split
  · rename_i h hh
    rw [hh] at hs
    exact embeds_taskBlock hh _ _ _ hs
  rename_i htask
  rw [htask] at hs
  split
  · rename_i header hh
    rw [hh] at hs
    exact embeds_definitionBlock hl hh (by simpa using hcore) hs
  · exact (embeds_statementBlock _ l ls).mono (Nat.zero_le _)

theorem embeds_document {ls : List Line} (hl : Fed ls) : Embeds 1 (document ls) := by
  fun_induction document ls with
  | case1 => exact (embeds_of_inlines .nil (by simp)).mono (Nat.zero_le _)
  | case2 l ls _ ih =>
    by_cases hr : (block l ls).rest = []
    · rw [hr, document, List.append_nil]
      exact embeds_block hl fun _ => Nat.le_refl _
    · have hrest := hl.of_suffix ((block_rest_suffix l ls).trans (List.suffix_cons l ls))
      exact (embeds_block hl fun h => absurd h hr).append (ih hrest)

end Grammar

/-! ## Regions -/

namespace Candidate

variable {start stop : Nat} {cs : List Candidate}

theorem Ordered.start_le (h : Ordered start stop cs) : ∀ c ∈ cs, start ≤ c.range.span.start := by
  induction cs generalizing start with
  | nil => exact fun c hc => nomatch hc
  | cons c cs ih =>
    have hc := h.1
    have hle := h.2.1
    refine List.forall_mem_cons.2 ⟨hc, fun d hd => ?_⟩
    have := ih h.2.2 d hd
    omega

theorem Ordered.pairwise (h : Ordered start stop cs) : cs.Pairwise fun c d =>
    c.range.span.start < d.range.span.start ∧ c.range.span.stop < d.range.span.start := by
  induction cs generalizing start with
  | nil => exact .nil
  | cons c cs ih =>
    have hle := h.2.1
    refine .cons (fun d hd => ?_) (ih h.2.2)
    have := h.2.2.start_le d hd
    omega

theorem Ordered.mergeSort (h : Ordered start stop cs) : cs.mergeSort startsLe = cs :=
  List.mergeSort_of_pairwise (h.pairwise.imp fun hcd => decide_eq_true (Nat.le_of_lt hcd.1))

/-- None of the candidates starts before the end of the one before it. -/
theorem Ordered.dropNested {limit : Nat} (h : Ordered start stop cs) (hl : limit ≤ start) :
    dropNested limit cs = cs := by
  induction cs generalizing start limit with
  | nil => rfl
  | cons c cs ih =>
    have hc := h.1
    rw [Candidate.dropNested, if_neg (by omega), ih h.2.2 (Nat.le_succ _)]

end Candidate

/-- The candidate that a region was. -/
def Region.candidate (r : Region) : Candidate :=
  ⟨r.language, r.range, r.dedent⟩

theorem Candidate.map_candidate_number (counts : Language → Nat) (cs : List Candidate) :
    (number counts cs).map Region.candidate = cs := by
  induction cs generalizing counts with
  | nil => rfl
  | cons c cs ih => rw [number, List.map_cons, ih, Region.candidate]

/-- A range that covers a solid text is not empty. -/
theorem Range.Covers.start_lt_stop {r : Range} {source body : List Char} (h : r.Covers source body)
    (hb : Text.Solid body) : r.span.start < r.span.stop := by
  obtain ⟨pre, post, -, rfl⟩ := h
  obtain ⟨c, hc, -⟩ := hb.starts
  have hne : bytes body ≠ 0 := fun h0 => by
    rw [Text.bytes_eq_zero.1 h0] at hc
    cases hc
  have hstop := stop_after pre body
  have hstart := start_after pre body
  unfold after at hstop hstart
  omega

namespace Tree

/-- The regions of a tree are the code that its statements embed. -/
structure Embeds (t : Tree) : Prop where
  /-- The regions stand one after the other, and none of them reaches the next one. -/
  apart : t.regions.Pairwise fun r s =>
    r.range.span.start < s.range.span.start ∧ r.range.span.stop < s.range.span.start
  /-- A region is not empty, and neither begins nor ends with a blank. -/
  solid : ∀ r ∈ t.regions, r.range.span.start < r.range.span.stop ∧
    ∃ body, r.range.Covers t.source.toList body ∧ Text.Solid body
  /-- The regions of a language are numbered from zero on. -/
  index : ∀ l, (Region.ofLanguage t.regions l).map (·.index)
    = List.range (Region.ofLanguage t.regions l).length
  /-- The regions are the embedded code, in the order of the source. -/
  code : t.regions.map (fun r => (r.language, r.range))
    = t.statements.flatMap (Node.embeddedCode t.source.toList)
  /-- No candidate is dropped, nor moved by sorting. -/
  kept : Candidate.dropNested 0 ((t.statements.flatMap Candidate.ofStatement).mergeSort
    Candidate.startsLe) = t.statements.flatMap Candidate.ofStatement

/-- The candidates of the statements of a text stand one after the other, and are the embedded code. -/
theorem fits_of_parse {limit : Nat} {source : String} {t : Tree} (h : parse limit source = .ok t) :
    Candidate.Fits source.toList 0 (bytes source.toList + 1)
      (t.statements.flatMap Candidate.ofStatement)
      (t.statements.flatMap (Node.embeddedCode source.toList)) := by
  have hfits := Grammar.embeds_document (Grammar.fed_ofTexts (Text.lines source.toList)) [] []
  rw [← Grammar.read, Grammar.textAll_read, List.append_nil, List.nil_append] at hfits
  rw [statements_of_parse h]
  exact hfits

theorem embeds_of_fits {t : Tree} {stop : Nat} (h : Candidate.Fits t.source.toList 0 stop
    (t.statements.flatMap Candidate.ofStatement)
    (t.statements.flatMap (Node.embeddedCode t.source.toList))) : t.Embeds := by
  have hkept : Candidate.dropNested 0 ((t.statements.flatMap Candidate.ofStatement).mergeSort
      Candidate.startsLe) = t.statements.flatMap Candidate.ofStatement := by
    rw [h.ordered.mergeSort, h.ordered.dropNested (Nat.le_refl 0)]
  have hregions : t.regions.map Region.candidate = t.statements.flatMap Candidate.ofStatement := by
    rw [regions, hkept, Candidate.map_candidate_number]
  refine ⟨?_, fun r hr => ?_, t.index_regions, ?_, hkept⟩
  · have hpairwise := h.ordered.pairwise
    rw [← hregions, List.pairwise_map] at hpairwise
    exact hpairwise
  · obtain ⟨body, hc, hb⟩ := h.solid r.candidate (hregions ▸ List.mem_map_of_mem hr)
    exact ⟨Range.Covers.start_lt_stop hc hb, body, hc, hb⟩
  · have hplace := h.map_place
    rw [← hregions, List.map_map] at hplace
    exact hplace

theorem embeds_of_parse {limit : Nat} {source : String} {t : Tree} (h : parse limit source = .ok t) :
    t.Embeds := by
  have hfits := fits_of_parse h
  have hsource : source = t.source := by rw [(of_parse h).2]
  rw [hsource] at hfits
  exact embeds_of_fits hfits

/-- A text within the limit has a tree whose regions are the embedded code: the content of each task,
each definition as a whole, and the inline code in all other statements, in the order of the source. -/
theorem regions_embed (limit : Nat) (source : String) (h : bytes source.toList ≤ limit) :
    ∃ t, parse limit source = .ok t ∧ t.source = source ∧ t.Embeds :=
  ⟨_, parse_eq_ok h, rfl, embeds_of_fits (fits_of_parse (parse_eq_ok h))⟩

/-- Inline code, once blank, two definitions, a task, and a task that no brace closes. -/
def everyEmbedding : String :=
  "A = \"$\x7b@ 1 \x7d$\x7b@ \x7d\"\ndef f(x):\n  # é\n\ndef g():\npython h() \x7b\n  p\n\x7d\ndo_x() \x7b\n ls\n"

theorem regions_embed_everyEmbedding :
    bytes everyEmbedding.toList ≤ 128 ∧
    ∃ t, parse 128 everyEmbedding = .ok t ∧ t.source = everyEmbedding ∧ t.Embeds ∧
      t.regions.map (fun r => (r.language, r.range.span))
        = [(.python, ⟨9, 10⟩), (.python, ⟨19, 35⟩), (.python, ⟨37, 45⟩), (.python, ⟨61, 62⟩),
          (.shell, ⟨75, 77⟩)] := by
  have hsize : bytes everyEmbedding.toList ≤ 128 := by decide
  obtain ⟨t, ht, hsource, he⟩ := regions_embed 128 everyEmbedding hsize
  have hcode := congrArg (List.map fun p => (p.1, p.2.span)) he.code
  rw [List.map_map, statements_of_parse ht, hsource] at hcode
  refine ⟨hsize, t, ht, hsource, he, hcode.trans ?_⟩
  decide +kernel

end Tree

end Recipe
