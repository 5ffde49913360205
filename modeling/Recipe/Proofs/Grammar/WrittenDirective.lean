import Recipe.Proofs.Grammar.Written
import Recipe.Proofs.Grammar.WrittenBlock

/-!
# Written directives

A directive that takes words, as it is written (`WordDirective`): its keyword, and words with
separators before each of them, which are blanks and line ends after a backslash. A text whose line ends
all come after a backslash is one logical line (`logicalLine_of_joined`), and the words are read from it
as they are, whatever separates them (`words_text`, `WordDirective.read_text`).
-/

namespace Recipe.Written

open Grammar
open Text (isBlank)

/-! ## Joined lines -/

/-- Whether every line of a text but the last one ends in a backslash, blanks after it left aside. -/
def Joined (cs : List Char) : Prop :=
  ∀ l ∈ (Text.lines cs).dropLast, (Text.trimEnd l).getLast? = some '\\'

theorem joined_of_not_mem {cs : List Char} (h : '\n' ∉ cs) : Joined cs := by
  rw [Joined, Text.lines_of_not_mem h]
  exact List.forall_mem_nil _

theorem Joined.append {p q : List Char} (hp : Joined p) (hq : Joined q) : Joined (p ++ q) := by
  obtain ⟨front, u, hfront⟩ := List.eq_nil_or_concat (Text.lines p) |>.resolve_left (Text.lines_ne_nil p)
  obtain ⟨v, back, hback⟩ := List.exists_cons_of_ne_nil (Text.lines_ne_nil q)
  rw [List.concat_eq_append] at hfront
  rw [Joined, hfront, List.dropLast_concat] at hp
  rw [Joined, hback] at hq
  rw [Joined, Text.lines_append hfront hback]
  cases back with
  | nil => rwa [List.dropLast_concat]
  | cons m back =>
    rw [List.dropLast_cons_cons] at hq
    obtain ⟨hv, hq⟩ := List.forall_mem_cons.1 hq
    -- The line that is put together ends as its second part does.
    have hne : Text.trimEnd v ≠ [] := by
      rintro hnil
      rw [hnil] at hv
      cases hv
    rw [List.dropLast_append_cons, List.dropLast_cons_cons]
    refine List.forall_mem_append.2 ⟨hp, List.forall_mem_cons.2 ⟨?_, hq⟩⟩
    rw [Text.trimEnd_append u hne, List.getLast?_append, hv]
    rfl

theorem logicalLine_rest_eq_nil {l : Line} {ls : List Line}
    (h : ∀ m ∈ (l :: ls).dropLast, joinsNext m = true) : (logicalLine l ls).rest = [] := by
  induction ls generalizing l with
  | nil => rfl
  | cons m ls ih =>
    rw [List.dropLast_cons_cons] at h
    obtain ⟨hl, hls⟩ := List.forall_mem_cons.1 h
    rw [logicalLine, if_pos hl]
    exact ih hls

/-- A text of joined lines that does not end with a blank is one logical line. -/
theorem logicalLine_of_joined {cs : List Char} (h : Joined cs) {c : Char}
    (hlast : cs.getLast? = some c) (hc : isBlank c = false) {l : Line} {ls : List Line}
    (hlines : Line.ofTexts (Text.lines cs) = l :: ls) : logicalLine l ls = ⟨cs, [], []⟩ := by
  have hjoins : ∀ m ∈ (l :: ls).dropLast, joinsNext m = true := by
    obtain ⟨front, u, hfront⟩ :=
      List.eq_nil_or_concat (Text.lines cs) |>.resolve_left (Text.lines_ne_nil cs)
    rw [List.concat_eq_append] at hfront
    rw [Joined, hfront, List.dropLast_concat] at h
    rw [← hlines, hfront, ofTexts_append front (List.cons_ne_nil _ _), Line.ofTexts,
      List.dropLast_concat]
    intro m hm
    obtain ⟨t, ht, rfl⟩ := List.mem_map.1 hm
    rw [joinsNext, trimEnd_body_ofText, h t ht]
    rfl
  have hrest := logicalLine_rest_eq_nil hjoins
  have htext := append_logicalLine l ls
  rw [← textAll_cons, ← hlines, textAll_ofTexts_lines, hrest, textAll_nil, List.append_nil] at htext
  have hafter : (logicalLine l ls).after = [] := by
    have hblank := (logicalLine_after (hlines ▸ terminated_ofTexts (Text.lines cs))).1
    cases ha : (logicalLine l ls).after.getLast? with
    | none => exact List.getLast?_eq_none_iff.1 ha
    | some d =>
      have hd := List.all_eq_true.1 hblank d (List.mem_of_getLast? ha)
      rw [← htext, List.getLast?_append, ha, Option.some_or, Option.some.injEq] at hlast
      rw [hlast, hc] at hd
      cases hd
  rw [hafter, List.append_nil] at htext
  calc logicalLine l ls
      = ⟨(logicalLine l ls).text, (logicalLine l ls).after, (logicalLine l ls).rest⟩ := rfl
    _ = ⟨cs, [], []⟩ := by rw [htext, hafter, hrest]

/-! ## Words with separators before them -/

/-- What can stand between words. -/
inductive Separator where
  | space
  | tab
  /-- A backslash before a line feed. -/
  | feed
  /-- A backslash before a carriage return and a line feed. -/
  | returnFeed
deriving DecidableEq, Repr

/-- The text of a separator. -/
def Separator.text : Separator → List Char
  | space => [' ']
  | tab => ['\t']
  | feed => ['\\', '\n']
  | returnFeed => ['\\', '\r', '\n']

/-- The characters of written words: all but blanks and backslashes. -/
def isWordChar (c : Char) : Bool :=
  !isBlank c && c != '\\'

/-- A word, and the separators before it. -/
structure Word where
  separators : List Separator
  word : List Char
  separators_ne_nil : separators ≠ []
  word_ne_nil : word ≠ []
  word_ok : word.all isWordChar = true

namespace Word

/-- The text of the separators before a word. -/
def gap (w : Word) : List Char :=
  w.separators.flatMap Separator.text

/-- The text of a word, with the separators before it. -/
def text (w : Word) : List Char :=
  w.gap ++ w.word

/-- What a word is read as. -/
def spaced (w : Word) : SpacedWord :=
  ⟨w.gap, w.word⟩

theorem exists_word (w : Word) : ∃ c cs, w.word = c :: cs ∧ isWordChar c = true :=
  exists_cons_of_all w.word_ne_nil w.word_ok

theorem exists_gap (w : Word) : ∃ c cs, w.gap = c :: cs ∧ c ∈ [' ', '\t', '\\'] := by
  obtain ⟨s, ss, hs⟩ := List.exists_cons_of_ne_nil w.separators_ne_nil
  rw [gap, hs, List.flatMap_cons]
  cases s with
  | space => exact ⟨_, _, rfl, by decide⟩
  | tab => exact ⟨_, _, rfl, by decide⟩
  | feed => exact ⟨_, _, rfl, by decide⟩
  | returnFeed => exact ⟨_, _, rfl, by decide⟩

end Word

/-- The text of words. -/
def argumentsText (ws : List Word) : List Char :=
  ws.flatMap Word.text

theorem argumentsText_cons (w : Word) (ws : List Word) :
    argumentsText (w :: ws) = w.gap ++ (w.word ++ argumentsText ws) := by
  rw [argumentsText, List.flatMap_cons, Word.text, List.append_assoc]
  rfl

theorem head?_argumentsText {ws : List Word} {c : Char} (h : (argumentsText ws).head? = some c) :
    c ∈ [' ', '\t', '\\'] := by
  cases ws with
  | nil => cases h
  | cons w ws =>
    obtain ⟨d, ds, hgap, hd⟩ := w.exists_gap
    rw [argumentsText_cons, hgap, List.cons_append, List.head?_cons, Option.some.injEq] at h
    rwa [← h]

theorem ne_of_isWordChar {c d : Char} (hc : isWordChar c = true) (hd : isBlank d = true ∨ d = '\\') :
    c ≠ d := by
  rintro rfl
  rw [isWordChar, Bool.and_eq_true] at hc
  rcases hd with hd | rfl
  · rw [hd] at hc
    cases hc.1
  · cases hc.2

theorem not_contains_of_isWordChar {c : Char} (hc : isWordChar c = true) {ds : List Char}
    (hds : ds.all isBlank = true) : ds.contains c = false := by
  refine Bool.eq_false_iff.2 fun hmem => ?_
  exact ne_of_isWordChar hc (.inl (List.all_eq_true.1 hds c (List.contains_iff_mem.1 hmem))) rfl

theorem startsWord_of_isWordChar {c : Char} (hc : isWordChar c = true) (cs : List Char) :
    startsWord (c :: cs) = true := by
  have hends : endsWord c = false := not_contains_of_isWordChar hc (by decide)
  rw [startsWord, List.head?_cons, Option.any_some, hends,
    continues_of_ne (ne_of_isWordChar hc (.inr rfl))]
  rfl

theorem startsSpacing_of_isWordChar {c : Char} (hc : isWordChar c = true) (cs : List Char) :
    startsSpacing (c :: cs) = false :=
  startsSpacing_cons (not_contains_of_isWordChar hc (by decide)) (ne_of_isWordChar hc (.inr rfl)) cs

theorem spacing_separator (s : Separator) (cs : List Char) :
    spacing (s.text ++ cs) = (spacing cs).push s.text := by
  cases s with
  | space => rfl
  | tab => rfl
  | feed => rfl
  | returnFeed => rfl

/-- All separators before a word are skipped. -/
theorem spacing_gap (w : Word) (cs : List Char) :
    spacing (w.gap ++ (w.word ++ cs)) = ⟨w.gap, w.word ++ cs⟩ := by
  have hword : spacing (w.word ++ cs) = ⟨[], w.word ++ cs⟩ := by
    obtain ⟨c, ds, hc, hok⟩ := w.exists_word
    rw [hc, List.cons_append]
    exact spacing_of_not_startsSpacing (startsSpacing_of_isWordChar hok _)
  unfold Word.gap
  induction w.separators with
  | nil => exact hword
  | cons s ss ih =>
    rw [List.flatMap_cons, List.append_assoc, spacing_separator, ih]
    rfl

theorem not_startsWord_separator (s : Separator) (cs : List Char) : startsWord (s.text ++ cs) = false := by
  cases s with
  | space => rfl
  | tab => rfl
  | feed => rfl
  | returnFeed => rfl

/-- A word goes up to the separators of the next one. -/
theorem word_argumentsText {cs : List Char} (hcs : cs.all isWordChar = true) (ws : List Word) :
    word (cs ++ argumentsText ws) = ⟨cs, argumentsText ws⟩ := by
  induction cs with
  | nil =>
    cases ws with
    | nil => rfl
    | cons w ws =>
      obtain ⟨s, ss, hs⟩ := List.exists_cons_of_ne_nil w.separators_ne_nil
      obtain ⟨c, ds, hc⟩ : ∃ c ds, argumentsText (w :: ws) = c :: ds := by
        obtain ⟨c, ds, hgap, -⟩ := w.exists_gap
        rw [argumentsText_cons, hgap]
        exact ⟨_, _, rfl⟩
      have hends : startsWord (c :: ds) = false := by
        rw [← hc, argumentsText_cons, Word.gap, hs, List.flatMap_cons, List.append_assoc]
        exact not_startsWord_separator s _
      rw [List.nil_append, hc, word, Cut.scan, hends]
      rfl
  | cons c cs ih =>
    rw [List.all_cons, Bool.and_eq_true] at hcs
    have ih := ih hcs.2
    rw [word] at ih
    rw [List.cons_append, word, Cut.scan, if_pos (startsWord_of_isWordChar hcs.1 _), ih]
    rfl

/-- Words are read as they are, whatever separates them. -/
theorem words_text (ws : List Word) : words (argumentsText ws) = ⟨ws.map Word.spaced, ⟨[], []⟩⟩ := by
  induction ws with
  | nil =>
    rw [words]
    rfl
  | cons w ws ih =>
    rw [argumentsText_cons, words]
    dsimp only
    rw [spacing_gap]
    dsimp only
    rw [word_argumentsText w.word_ok, dif_neg w.word_ne_nil, ih]
    rfl

theorem joined_separators (ss : List Separator) : Joined (ss.flatMap Separator.text) := by
  induction ss with
  | nil => exact joined_of_not_mem List.not_mem_nil
  | cons s ss ih =>
    rw [List.flatMap_cons]
    refine Joined.append ?_ ih
    cases s with
    | space => exact joined_of_not_mem (by decide)
    | tab => exact joined_of_not_mem (by decide)
    | feed => exact List.forall_mem_singleton.2 rfl
    | returnFeed => exact List.forall_mem_singleton.2 rfl

theorem joined_argumentsText (ws : List Word) : Joined (argumentsText ws) := by
  induction ws with
  | nil => exact joined_of_not_mem List.not_mem_nil
  | cons w ws ih =>
    have hword : '\n' ∉ w.word := fun hmem =>
      ne_of_isWordChar (List.all_eq_true.1 w.word_ok _ hmem) (.inl (by decide)) rfl
    rw [argumentsText_cons]
    exact (joined_separators w.separators).append ((joined_of_not_mem hword).append ih)

/-! ## Lines that are no headers -/

theorem taskHeader?_eq_none {k u : List Char} (hk : k.all isNameChar = true)
    (hne : ∀ w ∈ taskKeywords, k ≠ w.toList) (hu : u.head?.any isTaskNameChar = false)
    (hp : (u.dropWhile isInlineBlank).head? ≠ some '(') : TaskHeader.read? (k ++ u) = none := by
  have hname : u.head?.any isNameChar = false := by
    cases h : u.head? with
    | none => rfl
    | some c =>
      rw [h, Option.any_some, isTaskNameChar, Bool.or_eq_false_iff] at hu
      exact hu.1
  have hword : leadingWord (k ++ u) = k := by
    rw [leadingWord_append k hname, leadingWord_of_all hk]
  have hwords : taskWords (k ++ u) = ⟨false, [], k ++ u⟩ := by
    have hnone : taskKeyword? (k ++ u) = none := taskKeyword?_eq_none (by rwa [hword])
    rw [taskWords]
    split
    · rename_i h
      rw [hnone] at h
      cases h
    · rfl
  have hspan : Cut.span isTaskNameChar (k ++ u) = ⟨k, u⟩ := by
    refine span_of_all (List.all_eq_true.2 fun c hc => ?_) hu
    rw [isTaskNameChar, List.all_eq_true.1 hk c hc, Bool.true_or]
  have hmark : mark? '(' (u.dropWhile isInlineBlank) = none := by
    cases h : u.dropWhile isInlineBlank with
    | nil => rfl
    | cons d ds =>
      rw [h, List.head?_cons] at hp
      exact if_neg fun heq => hp (congrArg some heq.symm)
  rw [TaskHeader.read?, hwords]
  dsimp only
  rw [hspan]
  dsimp only
  split
  · rfl
  · rw [inlineBlanks, Cut.span, hmark]
    rfl

theorem head?_dropWhile_of_isPrefix {p : Char → Bool} {u cs : List Char} (h : u <+: cs) {c : Char}
    (hc : (u.dropWhile p).head? = some c) : (cs.dropWhile p).head? = some c := by
  obtain ⟨t, rfl⟩ := h
  have hne : ¬(u.dropWhile p).isEmpty = true := fun hnil => by
    rw [List.isEmpty_iff.1 hnil] at hc
    cases hc
  rw [List.dropWhile_append, if_neg hne, List.head?_append, hc]
  rfl

theorem head?_dropWhile_separators (ss : List Separator) {cs : List Char} {c : Char}
    (h : ((ss.flatMap Separator.text ++ cs).dropWhile isInlineBlank).head? = some c) :
    c = '\\' ∨ (cs.dropWhile isInlineBlank).head? = some c := by
  induction ss with
  | nil => exact .inr h
  | cons s ss ih =>
    rw [List.flatMap_cons, List.append_assoc] at h
    cases s with
    | space => exact ih h
    | tab => exact ih h
    | feed => exact .inl (Option.some.inj h).symm
    | returnFeed => exact .inl (Option.some.inj h).symm

/-! ## Directives -/

/-- A directive that takes words, as it is written. The first word begins neither with a parenthesis nor
with an operator. -/
structure WordDirective where
  directive : Directive
  first : Word
  others : List Word
  directive_mem : directive ∈ Directive.exportFunctions :: Directive.table
  takes_words : directive.arguments ∈ [.paths, .names, .task]
  not_parenthesis : first.word.head? ≠ some '('
  not_operator : ∀ op ∈ operators, ¬op.toList <+: first.word

/-- The pieces of the words that a directive takes. -/
def argumentPieces : Arguments → List SpacedWord → List Piece
  | .paths, ws => ws.flatMap (SpacedWord.pieces .path)
  | .task, ws => taskPieces ws
  | _, ws => ws.flatMap (SpacedWord.pieces .identifier)

namespace WordDirective

variable (w : WordDirective)

/-- The words of a directive. -/
def words : List Word :=
  w.first :: w.others

/-- The text of a directive. -/
def text : List Char :=
  w.directive.word.toList ++ argumentsText w.words

/-- The piece that a directive is read as. -/
def piece : Piece :=
  .group w.directive.kind (.token .keyword w.directive.word.toList
    :: argumentPieces w.directive.arguments (w.words.map Word.spaced))

theorem all_word : w.directive.word.toList.all isNameChar = true := by
  have hall : ∀ d ∈ Directive.exportFunctions :: Directive.table, d.word.toList.all isNameChar = true := by
    decide
  exact hall w.directive w.directive_mem

theorem exists_keyword : ∃ c cs, w.directive.word.toList = c :: cs ∧ c ≠ '#' := by
  have hne : w.directive.word.toList ≠ [] := by
    have hwords : ∀ d ∈ Directive.exportFunctions :: Directive.table, d.word.toList ≠ [] := by decide
    exact hwords w.directive w.directive_mem
  obtain ⟨c, cs, hc⟩ := List.exists_cons_of_ne_nil hne
  refine ⟨c, cs, hc, ?_⟩
  rintro rfl
  exact absurd (List.all_eq_true.1 w.all_word '#' (hc ▸ List.mem_cons_self)) (by decide)

/-- What follows the keyword begins with a separator. -/
theorem not_any_head? {p : Char → Bool} (hp : [' ', '\t', '\\'].any p = false) {u : List Char}
    (hu : u <+: argumentsText w.words) : u.head?.any p = false := by
  refine Bool.eq_false_iff.2 fun h => ?_
  obtain ⟨c, hc, hpc⟩ := (Option.any_eq_true _ _).1 h
  obtain ⟨t, ht⟩ := hu
  have hhead : (argumentsText w.words).head? = some c := by
    rw [← ht, List.head?_append, hc]
    rfl
  have hany : [' ', '\t', '\\'].any p = true := List.any_eq_true.2 ⟨c, head?_argumentsText hhead, hpc⟩
  rw [hp] at hany
  cases hany

theorem leadingWord_append {u : List Char} (hu : u <+: argumentsText w.words) :
    leadingWord (w.directive.word.toList ++ u) = w.directive.word.toList := by
  rw [Grammar.leadingWord_append _ (w.not_any_head? (by decide) hu), leadingWord_of_all w.all_word]

theorem afterWord_text : afterWord w.text = argumentsText w.words :=
  afterWord_append w.all_word (w.not_any_head? (by decide) List.prefix_rfl)

/-- The first line of a directive begins a statement, however much of the directive stands on it. -/
theorem startsStatement_append {u : List Char} (hu : u <+: argumentsText w.words) :
    StartsStatement (w.directive.word.toList ++ u) where
  ne_nil := by
    obtain ⟨c, cs, hc, -⟩ := w.exists_keyword
    rw [hc]
    exact List.cons_ne_nil _ _
  not_comment := by
    obtain ⟨c, cs, hc, hne⟩ := w.exists_keyword
    rw [hc]
    exact fun h => hne (Option.some.inj h)
  not_task := by
    have hne : ∀ d ∈ Directive.exportFunctions :: Directive.table, ∀ k ∈ taskKeywords,
        d.word.toList ≠ k.toList := by decide
    refine taskHeader?_eq_none w.all_word (hne _ w.directive_mem) (w.not_any_head? (by decide) hu) ?_
    intro hp
    have hhead := head?_dropWhile_of_isPrefix hu hp
    rw [words, argumentsText_cons] at hhead
    rcases head?_dropWhile_separators _ hhead with h | h
    · cases h
    · obtain ⟨c, cs, hc, hok⟩ := w.first.exists_word
      have hblank : isInlineBlank c = false := not_contains_of_isWordChar hok (by decide)
      rw [hc, List.cons_append, List.dropWhile_cons_of_neg (by simp [hblank])] at h
      exact w.not_parenthesis (hc ▸ h)
  not_definition := by
    have hne : ∀ d ∈ Directive.exportFunctions :: Directive.table, d.word.toList ≠ "def".toList := by
      decide
    have hkeyword : keyword? "def" (w.directive.word.toList ++ u) = none := by
      rw [keyword?_eq (by decide), w.leadingWord_append hu, if_neg (hne _ w.directive_mem)]
    rw [definitionHeader?, hkeyword]
    rfl

/-- No operator begins where the first word does: no separator goes on with one either. -/
theorem operator?_first : operator? (w.first.word ++ argumentsText w.others) = none := by
  refine List.findSome?_eq_none_iff.2 fun op hop => ?_
  rw [Option.map_eq_none_iff]
  refine if_neg fun hprefix => ?_
  have hprefix := List.isPrefixOf_iff_prefix.1 hprefix
  rcases List.prefix_or_prefix_of_prefix hprefix (List.prefix_append _ _) with h | ⟨s, hs⟩
  · exact w.not_operator op hop h
  · rw [← hs, List.prefix_append_right_inj] at hprefix
    cases s with
    | nil => exact w.not_operator op hop (by rw [← hs, List.append_nil])
    | cons c s =>
      obtain ⟨t, ht⟩ := hprefix
      have hhead : (argumentsText w.others).head? = some c := by
        rw [← ht]
        rfl
      have hapart : ∀ op ∈ operators, op.toList.all (fun c => !([' ', '\t', '\\'].contains c)) = true := by
        decide
      have hmem := List.all_eq_true.1 (hapart op hop) c (hs ▸ List.mem_append_right _ List.mem_cons_self)
      rw [List.contains_iff_mem.2 (head?_argumentsText hhead)] at hmem
      cases hmem

theorem read_arguments : w.directive.read w.text (argumentsText w.words) = ⟨w.piece, []⟩ := by
  have htakes := w.takes_words
  simp only [List.mem_cons, List.not_mem_nil, or_false] at htakes
  rcases htakes with h | h | h
  · rw [Directive.read, h, piece, h, words_text]
    rfl
  · rw [Directive.read, h, piece, h, words_text]
    rfl
  · rw [Directive.read, h, piece, h, words_text]
    rfl

/-- A directive is read as its keyword and its words. -/
theorem read_text : Statement.read w.text = ⟨w.piece, []⟩ := by
  have hword : leadingWord w.text = w.directive.word.toList := w.leadingWord_append List.prefix_rfl
  rcases List.mem_cons.1 w.directive_mem with hd | hd
  · have hexport : keyword? "export" w.text = none :=
      keyword?_of_ne List.mem_cons_self (by rw [hword, hd]; decide)
    have hkeyword : keyword? Directive.exportFunctions.word w.text = some (afterWord w.text) :=
      keyword?_of_eq (List.mem_cons_of_mem _ List.mem_cons_self) (by rw [hword, hd])
    rw [Statement.read, hexport, hkeyword, w.afterWord_text]
    exact hd ▸ w.read_arguments
  · obtain ⟨hexport, hfunctions⟩ := Statement.keyword?_of_mem_table hd hword
    have hspacing : operator? (spacing (argumentsText w.words)).rest = none := by
      rw [words, argumentsText_cons, spacing_gap]
      exact w.operator?_first
    rw [Statement.read, hexport, hfunctions, Directive.find?_of_mem hd hword, w.afterWord_text]
    dsimp only
    rw [hspacing, if_neg (by simp)]
    exact w.read_arguments

end WordDirective

end Recipe.Written
