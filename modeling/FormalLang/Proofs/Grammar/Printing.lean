import FormalLang.Grammar.Printer
import FormalLang.Proofs.Grammar.Reading
import FormalLang.Proofs.Grammar.Recognition
import FormalLang.Proofs.Grammar.RuleLines
import FormalLang.Proofs.Split.Spelling

/-!
# Reading the listing of a grammar

The listing of a grammar has a line for every left-hand side.  Symbols are printed with
nothing between them, so a side that was printed may split in other ways too, but the
word that it was printed for is always one of the splits.  Reading the lines again thus
gives the grammar that was printed, or finds a side that splits in several ways.

Main results:

- Theorem `Grammar.printedRules_eq`: the lines that a listing has between its braces.
- Theorem `RuleLine.parse?_ruleText`: the parts of a line that was printed.
- Theorem `Grammar.readsBack_readSide`: a side that was printed is read back or ambiguous.
- Theorem `Productions.ofLines_entries`: productions are rebuilt from their entries.
- Theorem `Grammar.printedRules_read_back`: a grammar is read back from its listing.
-/

namespace FormalLang

/-! ## Names in rule lines -/

/-- A character with no meaning of its own in a rule line: neither blank nor a bar nor an
arrow. -/
def RuleLine.PlainChar (c : Char) : Prop :=
  Text.isBlank c = false ∧ c ≠ bar ∧ c ≠ arrow

instance : DecidablePred RuleLine.PlainChar :=
  fun _ => inferInstanceAs (Decidable (_ ∧ _ ∧ _))

/-- A name that stands for itself in a rule line. -/
structure Symbol.Plain (a : Symbol) : Prop where
  plainChar : ∀ c ∈ a.chars, RuleLine.PlainChar c
  text_ne : a.text ≠ emptyWordText

theorem Symbol.Plain.of_single {a : Symbol} {c : Char} (hchars : a.chars = [c])
    (hplain : RuleLine.PlainChar c) (hne : c ≠ 'ε') : a.Plain := by
  constructor
  · rw [hchars]
    exact List.forall_mem_singleton.mpr hplain
  · intro htext
    have hempty : a.chars = ['ε'] := congrArg String.toList htext
    rw [hchars] at hempty
    exact hne (List.singleton_inj.mp hempty)

namespace SententialForm

variable {s : SententialForm}

/-- A sentential form whose symbols stand for themselves in a rule line. -/
def Plain (s : SententialForm) : Prop :=
  ∀ x ∈ s, x.symbol.Plain

theorem toList_text (h : s ≠ []) : s.text.toList = Word.spell (s.map GrammarSymbol.symbol) :=
  Word.toList_text (by simpa using h)

theorem toList_text_ne_nil (s : SententialForm) : s.text.toList ≠ [] := by
  by_cases h : s = []
  · subst h
    decide
  · rw [toList_text h]
    exact Word.spell_ne_nil (by simpa using h)

/-- Only the empty form is written as the empty word. -/
theorem Plain.text_ne (h : s.Plain) (hne : s ≠ []) : s.text ≠ emptyWordText := by
  cases s with
  | nil => exact (hne rfl).elim
  | cons x s =>
      intro htext
      have hchars : x.symbol.chars ++ Word.spell (s.map GrammarSymbol.symbol) = ['ε'] := by
        rw [← Word.spell_cons, ← List.map_cons, ← toList_text hne, htext]
        rfl
      rcases List.append_eq_singleton_iff.mp hchars with ⟨hnil, -⟩ | ⟨hone, -⟩
      · exact x.symbol.chars_ne_nil hnil
      · apply (h x List.mem_cons_self).text_ne
        exact String.toList_inj.mp hone

/-- The text of a form has plain characters. -/
theorem Plain.plainChar (h : s.Plain) : ∀ c ∈ s.text.toList, RuleLine.PlainChar c := by
  by_cases hnil : s = []
  · subst hnil
    intro c hc
    have hc' : c = 'ε' := List.mem_singleton.mp hc
    subst hc'
    exact ⟨by decide, by decide, by decide⟩
  · intro c hc
    rw [toList_text hnil] at hc
    rcases List.mem_flatMap.mp hc with ⟨a, ha, hca⟩
    rcases List.mem_map.mp ha with ⟨x, hx, rfl⟩
    exact (h x hx).plainChar c hca

end SententialForm

/-! ## The parts of printed lines -/

namespace RuleLine

variable {t b b' : List Char}

/-- A side is the part of a piece in which it stands between blanks. -/
theorem part?_append_append (hb : Text.AllBlank b) (ht : ∀ c ∈ t, PlainChar c)
    (hb' : Text.AllBlank b') (hne : t ≠ []) :
    part? (b ++ t ++ b') = some (String.ofList t) := by
  have hall : ¬((b ++ t ++ b').all fun c => c == ' ' || c == '\t') = true := by
    intro hall
    rcases List.exists_mem_of_ne_nil t hne with ⟨c, hc⟩
    have hblank := (ht c hc).1
    rw [List.all_eq_true] at hall
    have hspace := hall c (List.mem_append_left b' (List.mem_append_right b hc))
    simp only [Bool.or_eq_true, beq_iff_eq] at hspace
    rcases hspace with rfl | rfl
    · exact absurd hblank (by decide)
    · exact absurd hblank (by decide)
  rw [part?, if_neg hall, Text.trim_append_append hb (fun c hc => (ht c hc).1) hb' hne]

/-- Alternatives with the blanks around them: one in front, and one behind, where a bar
follows. -/
def padded : List (List Char) → List (List Char)
  | [] => []
  | [t] => [' ' :: t]
  | t :: t' :: ts => (' ' :: t ++ [' ']) :: padded (t' :: ts)

theorem padded_ne_nil {ts : List (List Char)} (h : ts ≠ []) : padded ts ≠ [] := by
  fun_cases padded ts with
  | case1 => exact (h rfl).elim
  | case2 t => exact List.cons_ne_nil _ _
  | case3 t t' ts => exact List.cons_ne_nil _ _

/-- Bars with blanks around them are bars between padded alternatives. -/
theorem cons_intercalate_eq {ts : List (List Char)} (h : ts ≠ []) :
    ' ' :: [' ', bar, ' '].intercalate ts = [bar].intercalate (padded ts) := by
  fun_induction padded ts with
  | case1 => exact (h rfl).elim
  | case2 t => rfl
  | case3 t t' ts ih =>
      have hrest := ih (List.cons_ne_nil t' ts)
      have hne := padded_ne_nil (List.cons_ne_nil t' ts)
      rw [List.intercalate_cons_of_ne_nil hne, ← hrest, List.intercalate_cons_cons]
      simp

/-- The parts of padded alternatives are the alternatives. -/
theorem forall₂_part?_padded {ts : List (List Char)}
    (hplain : ∀ t ∈ ts, (∀ c ∈ t, PlainChar c) ∧ t ≠ []) :
    List.Forall₂ (fun piece part => part? piece = some part) (padded ts)
      (ts.map String.ofList) := by
  have hblank : Text.AllBlank [' '] := List.forall_mem_singleton.mpr (by decide)
  fun_induction padded ts with
  | case1 => exact .nil
  | case2 t =>
      have ht := hplain t List.mem_cons_self
      have hpart := part?_append_append hblank ht.1 (List.forall_mem_nil _) ht.2
      rw [List.append_nil] at hpart
      exact .cons hpart .nil
  | case3 t t' ts ih =>
      have ht := hplain t List.mem_cons_self
      exact .cons (part?_append_append hblank ht.1 hblank ht.2)
        (ih fun t ht => hplain t (List.mem_cons_of_mem _ ht))

theorem mem_padded {ts : List (List Char)} {piece : List Char} {c : Char}
    (hpiece : piece ∈ padded ts) (hc : c ∈ piece) : c = ' ' ∨ ∃ t ∈ ts, c ∈ t := by
  fun_induction padded ts with
  | case1 => exact (List.not_mem_nil hpiece).elim
  | case2 t =>
      rw [List.mem_singleton] at hpiece
      subst hpiece
      rcases List.mem_cons.mp hc with hc | hc
      · exact Or.inl hc
      · exact Or.inr ⟨t, List.mem_cons_self, hc⟩
  | case3 t t' ts ih =>
      rcases List.mem_cons.mp hpiece with rfl | hpiece
      · simp only [List.cons_append, List.mem_cons, List.mem_append, List.not_mem_nil,
          or_false] at hc
        rcases hc with hc | hc | hc
        · exact Or.inl hc
        · exact Or.inr ⟨t, List.mem_cons_self, hc⟩
        · exact Or.inl hc
      · rcases ih hpiece with hc | ⟨u, hu, hc⟩
        · exact Or.inl hc
        · exact Or.inr ⟨u, List.mem_cons_of_mem t hu, hc⟩

variable {lhs : SententialForm} {alternatives : OrderedSet SententialForm}

/-- The characters of a rule line: the left-hand side, the arrow, and the alternatives. -/
theorem toList_ruleText (hne : alternatives.toList ≠ []) :
    (Grammar.ruleText lhs alternatives).toList = lhs.text.toList ++ [' '] ++
      arrow :: [bar].intercalate (padded (alternatives.toList.map fun rhs => rhs.text.toList)) := by
  have harrow : (" → ").toList = [' ', arrow, ' '] := rfl
  have hbar : (" | ").toList = [' ', bar, ' '] := rfl
  rw [← cons_intercalate_eq (by simpa using hne), Grammar.ruleText, String.toList_append,
    String.toList_append, String.toList_intercalate, harrow, hbar, List.map_map]
  simp [Function.comp_def]

/-- A line that was printed has the parts for which it was printed. -/
theorem parse?_ruleText (hlhs : lhs.Plain) (halternatives : ∀ rhs ∈ alternatives, rhs.Plain)
    (hne : alternatives.toList ≠ []) :
    parse? ("  " ++ Grammar.ruleText lhs alternatives) =
      some ⟨lhs.text, alternatives.toList.map SententialForm.text⟩ := by
  have htexts : alternatives.toList.map SententialForm.text =
      (alternatives.toList.map fun rhs => rhs.text.toList).map String.ofList := by
    rw [List.map_map]
    exact List.map_congr_left fun rhs _ => String.ofList_toList.symm
  have hplain : ∀ t ∈ alternatives.toList.map fun rhs => rhs.text.toList,
      (∀ c ∈ t, PlainChar c) ∧ t ≠ [] := by
    intro t ht
    rcases List.mem_map.mp ht with ⟨rhs, hrhs, rfl⟩
    exact ⟨(halternatives rhs hrhs).plainChar, rhs.toList_text_ne_nil⟩
  have hpieces : ∀ piece ∈ ([' ', ' '] ++ lhs.text.toList ++ [' ']) ::
      padded (alternatives.toList.map fun rhs => rhs.text.toList),
        ∀ c ∈ piece, c = ' ' ∨ PlainChar c := by
    intro piece hpiece c hc
    rcases List.mem_cons.mp hpiece with rfl | hpiece
    · simp only [List.mem_append, List.mem_cons, List.not_mem_nil, or_false, or_self] at hc
      rcases hc with (hc | hc) | hc
      · exact Or.inl hc
      · exact Or.inr (hlhs.plainChar c hc)
      · exact Or.inl hc
    · rcases mem_padded hpiece hc with hc | ⟨t, ht, hc⟩
      · exact Or.inl hc
      · exact Or.inr ((hplain t ht).1 c hc)
  have hline : ("  " ++ Grammar.ruleText lhs alternatives).toList =
      ([' ', ' '] ++ lhs.text.toList ++ [' ']) ++ arrow ::
        [bar].intercalate (padded (alternatives.toList.map fun rhs => rhs.text.toList)) := by
    rw [String.toList_append, toList_ruleText hne]
    rfl
  refine parse?_of_pieces hline ?_ ?_ ?_ ?_ ?_
  · intro piece hpiece harrow
    rcases hpieces piece hpiece arrow harrow with hc | hc
    · exact absurd hc (by decide)
    · exact hc.2.2 rfl
  · intro piece hpiece hbar
    rcases hpieces piece hpiece bar hbar with hc | hc
    · exact absurd hc (by decide)
    · exact hc.2.1 rfl
  · have hblanks : Text.AllBlank [' ', ' '] := by
      intro c hc
      rcases List.mem_cons.mp hc with rfl | hc
      · decide
      · exact List.mem_singleton.mp hc ▸ by decide
    rw [part?_append_append hblanks hlhs.plainChar (List.forall_mem_singleton.mpr (by decide))
      lhs.toList_text_ne_nil, String.ofList_toList]
  · rw [htexts]
    exact forall₂_part?_padded hplain
  · exact padded_ne_nil (by simpa using hne)

end RuleLine

/-! ## Lines of a listing -/

/-- The lines that are taken up to a line without blank in front are those with blanks. -/
theorem takeWhile_append_cons {α : Type} {p : α → Bool} {l rest : List α} {a : α}
    (hl : ∀ b ∈ l, p b = true) (ha : p a = false) : (l ++ a :: rest).takeWhile p = l := by
  rw [List.takeWhile_append_of_pos hl, List.takeWhile_cons_of_neg (by simp [ha]), List.append_nil]

namespace Grammar

variable {g : Grammar}

/-- The symbols of a grammar are names that stand for themselves in a rule line. -/
def PlainNames (g : Grammar) : Prop :=
  ∀ a, a ∈ g.nonTerminals ∨ a ∈ g.terminals → a.Plain

theorem PlainNames.plain (h : g.PlainNames) {s : SententialForm}
    (hdeclared : ∀ x ∈ s, g.Declares x) : s.Plain := by
  intro x hx
  have hx := hdeclared x hx
  cases x with
  | terminal a => exact h a (Or.inr hx)
  | nonTerminal A => exact h A (Or.inl hx)

/-- The lines of the listing between the braces of the rules. -/
def printedRules (g : Grammar) : List String :=
  (((RuleLine.pieces '\n' g.listing.toList).drop 3).takeWhile fun line => line != ['\x7d']).map
    String.ofList

/-- The first line of a listing. -/
def headLine (g : Grammar) : String :=
  "G = (" ++ setText g.nonTerminals ++ ", " ++ setText g.terminals ++ ", P, " ++ g.start.text ++ ")"

/-- The lines of a listing. -/
theorem toList_listing (g : Grammar) :
    g.listing.toList = ['\n'].intercalate ([g.headLine.toList, [], "P = \x7b".toList] ++
      (g.ruleLines.map fun line => ("  " ++ line).toList) ++ [['\x7d'], []]) := by
  have hjoin : (String.join (g.ruleLines.map fun line => "  " ++ line ++ "\n")).toList =
      (g.ruleLines.map fun line => ("  " ++ line).toList).flatMap fun l => l ++ ['\n'] := by
    rw [String.toList_join, List.flatMap_map, List.flatMap_map]
    simp
  rw [← Text.flatMap_newline_append (List.cons_ne_nil _ _), List.flatMap_append, ← hjoin]
  simp [listing, headLine]

theorem newline_not_mem_setText {symbols : OrderedSet Symbol}
    (h : ∀ a ∈ symbols, Text.NoBlank a.chars) : '\n' ∉ (setText symbols).toList := by
  intro hmem
  have hbraces : ("\x7b".toList = ['\x7b']) ∧ "\x7d".toList = ['\x7d'] := ⟨rfl, rfl⟩
  rw [setText, String.toList_append, String.toList_append, String.toList_intercalate,
    List.mem_append, List.mem_append] at hmem
  rcases hmem with (hmem | hmem) | hmem
  · exact absurd hmem (by decide)
  · rcases Text.mem_intercalate hmem with hmem | ⟨chars, hchars, hmem⟩
    · exact absurd hmem (by decide)
    · rw [List.map_map] at hchars
      rcases List.mem_map.mp hchars with ⟨a, ha, rfl⟩
      exact absurd (h a ha '\n' hmem) (by decide)
  · exact absurd hmem (by decide)

theorem newline_not_mem_ruleText {lhs : SententialForm} {alternatives : OrderedSet SententialForm}
    (hlhs : lhs.Plain) (halternatives : ∀ rhs ∈ alternatives, rhs.Plain) :
    '\n' ∉ (ruleText lhs alternatives).toList := by
  intro hmem
  rw [ruleText, String.toList_append, String.toList_append, String.toList_intercalate,
    List.mem_append, List.mem_append] at hmem
  rcases hmem with (hmem | hmem) | hmem
  · exact absurd (hlhs.plainChar _ hmem).1 (by decide)
  · exact absurd hmem (by decide)
  · rcases Text.mem_intercalate hmem with hmem | ⟨chars, hchars, hmem⟩
    · exact absurd hmem (by decide)
    · rw [List.map_map] at hchars
      rcases List.mem_map.mp hchars with ⟨rhs, hrhs, rfl⟩
      exact absurd ((halternatives rhs hrhs).plainChar _ hmem).1 (by decide)

/-- The lines between the braces are the rule lines, with two blanks in front. -/
theorem printedRules_eq (h : g.PlainNames) :
    g.printedRules = g.ruleLines.map fun line => "  " ++ line := by
  have hhead : '\n' ∉ g.headLine.toList := by
    intro hmem
    have hnames := newline_not_mem_setText fun a ha c hc => ((h a (Or.inl ha)).plainChar c hc).1
    have hletters := newline_not_mem_setText fun a ha c hc => ((h a (Or.inr ha)).plainChar c hc).1
    have hstart : '\n' ∉ g.start.text.toList := fun hmem =>
      absurd ((h g.start (Or.inl g.wellFormed.start_mem)).plainChar _ hmem).1 (by decide)
    simp only [headLine, String.toList_append, List.mem_append, hnames, hletters, hstart,
      or_false] at hmem
    exact absurd hmem (by decide)
  have hlines : ∀ line ∈ g.ruleLines, '\n' ∉ ("  " ++ line).toList := by
    intro line hline
    rcases List.mem_map.mp hline with ⟨entry, hentry, rfl⟩
    have hlhs := h.plain (g.wellFormed.lhs_declared entry hentry)
    have hrhs := fun rhs hrhs => h.plain (g.wellFormed.rhs_declared entry hentry rhs hrhs)
    rw [String.toList_append, List.mem_append, not_or]
    exact ⟨by decide, newline_not_mem_ruleText hlhs hrhs⟩
  rw [printedRules, toList_listing, RuleLine.pieces_intercalate]
  · rw [List.append_assoc]
    change List.map String.ofList (List.takeWhile _ (_ ++ [['\x7d'], []])) = _
    rw [takeWhile_append_cons _ rfl, List.map_map]
    · exact List.map_congr_left fun line _ => String.ofList_toList
    · intro l hl
      rcases List.mem_map.mp hl with ⟨line, -, rfl⟩
      rw [String.toList_append]
      rfl
  · intro p hp
    simp only [List.mem_append, List.mem_cons, List.mem_map, List.not_mem_nil, or_false] at hp
    rcases hp with ((rfl | rfl | rfl) | ⟨line, hline, rfl⟩) | rfl | rfl
    · exact hhead
    · exact List.not_mem_nil
    · decide
    · exact hlines line hline
    · decide
    · exact List.not_mem_nil
  · simp

end Grammar

/-! ## What is read back -/

namespace Declarations

variable {D : Declarations} {α β : Type} {r : Except GrammarError α}

/-- A side splits in several ways. -/
def Ambiguous (D : Declarations) (side : String) : Prop :=
  ∃ w w', w ≠ w' ∧ IsSplitOver D.symbols w side.toList ∧ IsSplitOver D.symbols w' side.toList

/-- A result is what was expected, or it reports a side that splits in several ways. -/
def ReadsBack (D : Declarations) (r : Except GrammarError α) (x : α) : Prop :=
  r = .ok x ∨ ∃ side, D.Ambiguous side ∧ r = .error (.manySplits side)

theorem ReadsBack.bind {x : α} {y : β} {f : α → Except GrammarError β} (h : D.ReadsBack r x)
    (hf : D.ReadsBack (f x) y) : D.ReadsBack (r >>= f) y := by
  rcases h with rfl | ⟨side, hside, rfl⟩
  · exact hf
  · exact Or.inr ⟨side, hside, rfl⟩

theorem ReadsBack.mapM {f : α → Except GrammarError β} {l : List α} {results : List β}
    (h : List.Forall₂ (fun a b => D.ReadsBack (f a) b) l results) :
    D.ReadsBack (l.mapM f) results := by
  induction h with
  | nil => exact Or.inl rfl
  | cons hfirst _ ih =>
      rw [List.mapM_cons]
      exact hfirst.bind (ih.bind (Or.inl rfl))

/-- In symbols of one character that is not blank nothing is ambiguous. -/
theorem not_ambiguous_of_single (h : ∀ a ∈ D.symbols, Text.NoBlank a.chars ∧ a.chars.length = 1)
    (side : String) : ¬D.Ambiguous side := by
  intro hside
  rcases hside with ⟨w, w', hne, hw, hw'⟩
  refine hne (hw.isSplit.eq_of_single hw'.isSplit fun a ha => ?_)
  rcases List.mem_append.mp ha with ha | ha
  · exact h a (hw.symbol_mem a ha)
  · exact h a (hw'.symbol_mem a ha)

end Declarations

/-! ## Entries as lines -/

theorem OrderedMap.entries_upsert_of_not_mem {κ ν : Type} [DecidableEq κ] {m : OrderedMap κ ν}
    {k : κ} (f : Option ν → ν) (h : k ∉ m.keys) :
    (m.upsert k f).entries = m.entries ++ [(k, f none)] := by
  change upsertEntry k f m.entries = _
  change k ∉ m.entries.map Prod.fst at h
  generalize m.entries = l at h
  induction l with
  | nil => rfl
  | cons e l ih =>
      rw [List.map_cons, List.mem_cons, not_or] at h
      rw [upsertEntry, if_neg h.1, ih h.2, List.cons_append]

namespace Productions

/-- Lines with different left-hand sides become an entry each. -/
theorem entries_ofLines_of_nodup {lines : List (SententialForm × List SententialForm)}
    (h : (lines.map Prod.fst).Nodup) :
    (ofLines lines).entries = lines.map fun line => (line.1, OrderedSet.ofList line.2) := by
  induction lines using List.reverseRecOn with
  | nil => rfl
  | append_singleton lines line ih =>
      rw [List.map_append, List.map_singleton, List.nodup_append] at h
      have hnot : line.1 ∉ (ofLines lines).keys := by
        intro hmem
        rcases mem_keys_ofLines_iff.mp hmem with ⟨line', hline', heq⟩
        exact h.2.2 line'.1 (List.mem_map.mpr ⟨line', hline', rfl⟩) line.1
          (List.mem_singleton_self _) heq.symm
      rw [ofLines_concat, add, OrderedMap.entries_upsert_of_not_mem _ hnot, ih h.1,
        List.map_append]
      rfl

/-- Productions are what their entries give line by line. -/
theorem ofLines_entries (P : Productions) :
    ofLines (P.entries.map fun entry => (entry.1, entry.2.toList)) = P := by
  apply OrderedMap.ext
  rw [entries_ofLines_of_nodup]
  · rw [List.map_map]
    simp [Function.comp_def]
  · rw [List.map_map]
    exact P.nodup_keys

end Productions

namespace Grammar

variable {g : Grammar} {s : SententialForm}

/-- The symbols that a grammar declares. -/
def declarations (g : Grammar) : Declarations :=
  ⟨g.nonTerminals, g.terminals⟩

/-- Symbols are told to be of the kinds of which they are in declared forms. -/
theorem map_asDeclared (h : ∀ x ∈ s, g.Declares x) :
    (s.map GrammarSymbol.symbol).map g.declarations.asDeclared = s := by
  rw [List.map_map]
  conv_rhs => rw [← List.map_id s]
  refine List.map_congr_left fun x hx => ?_
  have hdeclared := h x hx
  cases x with
  | terminal a => exact if_neg (g.wellFormed.disjoint a hdeclared)
  | nonTerminal A => exact if_pos hdeclared

/-- The word of a form is a split of its text. -/
theorem isSplitOver_word (hnames : g.PlainNames) (h : ∀ x ∈ s, g.Declares x) (hne : s ≠ []) :
    IsSplitOver g.declarations.symbols (s.map GrammarSymbol.symbol) s.text.toList := by
  refine ⟨fun a ha => ?_, ?_⟩
  · rcases List.mem_map.mp ha with ⟨x, hx, rfl⟩
    have hdeclared := h x hx
    rw [Declarations.mem_symbols_iff]
    cases x with
    | terminal a => exact Or.inr hdeclared
    | nonTerminal A => exact Or.inl hdeclared
  · rw [SententialForm.toList_text hne]
    refine isSplit_spell fun a ha c hc => ?_
    rcases List.mem_map.mp ha with ⟨x, hx, rfl⟩
    exact ((hnames.plain h x hx).plainChar c hc).1

/-- A side is read back, or it splits in several ways. -/
theorem readsBack_readSide (hnames : g.PlainNames) (h : ∀ x ∈ s, g.Declares x) :
    g.declarations.ReadsBack (g.declarations.readSide s.text) s := by
  by_cases hne : s = []
  · subst hne
    exact Or.inl (if_pos rfl)
  · have hsplit := isSplitOver_word hnames h hne
    have htext := (hnames.plain h).text_ne hne
    rw [Declarations.readSide, if_neg htext]
    cases hsplits : Splits.ofText g.declarations.symbols s.text with
    | none => exact (Splits.ofText_eq_none_iff_words.mp hsplits _ hsplit).elim
    | one w =>
        have hword := (Splits.isSplitOver_iff_of_one hsplits).mp hsplit
        have hform : w.map g.declarations.asDeclared = s := by
          rw [← hword, map_asDeclared h]
        exact Or.inl (congrArg Except.ok hform)
    | many =>
        have htwo := (Splits.ofText_eq_many_iff_words g.declarations.nodup_symbols).mp hsplits
        exact Or.inr ⟨s.text, htwo, rfl⟩

/-- A line is read back, or one of its sides splits in several ways. -/
theorem readsBack_readLine (hnames : g.PlainNames) {lhs : SententialForm}
    {alternatives : OrderedSet SententialForm}
    (hentry : (lhs, alternatives) ∈ g.productions.entries)
    (hne : alternatives.toList ≠ []) :
    g.declarations.ReadsBack (g.declarations.readLine ("  " ++ ruleText lhs alternatives))
      (lhs, alternatives.toList) := by
  have hlhs := g.wellFormed.lhs_declared _ hentry
  have hrhs := g.wellFormed.rhs_declared _ hentry
  have hsides : List.Forall₂
      (fun side rhs => g.declarations.ReadsBack (g.declarations.readSide side) rhs)
      (alternatives.toList.map SententialForm.text) alternatives.toList := by
    rw [List.forall₂_map_left_iff, List.forall₂_same]
    exact fun rhs hmem => readsBack_readSide hnames (hrhs rhs hmem)
  rw [Declarations.readLine, RuleLine.parse?_ruleText (hnames.plain hlhs)
    (fun rhs hmem => hnames.plain (hrhs rhs hmem)) hne]
  exact (readsBack_readSide hnames hlhs).bind
    ((Declarations.ReadsBack.mapM hsides).bind (Or.inl rfl))

/-- Every left-hand side of a grammar has an alternative. -/
def HasAlternatives (g : Grammar) : Prop :=
  ∀ entry ∈ g.productions.entries, entry.2.toList ≠ []

/-- A grammar is read back from its listing, or one of the sides in it splits in several
ways. -/
theorem readsBack_listing (hnames : g.PlainNames) (halternatives : g.HasAlternatives) :
    g.declarations.ReadsBack
      (read (g.nonTerminals.toList.map Symbol.text) (g.terminals.toList.map Symbol.text)
        g.start.text g.printedRules) g := by
  have hforms : List.Forall₂
      (fun line form => g.declarations.ReadsBack (g.declarations.readLine line) form)
      g.printedRules (g.productions.entries.map fun entry => (entry.1, entry.2.toList)) := by
    rw [printedRules_eq hnames, ruleLines, List.map_map, List.forall₂_map_left_iff,
      List.forall₂_map_right_iff, List.forall₂_same]
    exact fun entry hentry => readsBack_readLine hnames hentry (halternatives entry hentry)
  have hparts : ofParts g.nonTerminals.toList g.terminals.toList
      (.ofLines (g.productions.entries.map fun entry => (entry.1, entry.2.toList))) g.start =
        .ok g := by
    rw [Productions.ofLines_entries, ofParts, OrderedSet.ofList_toList, OrderedSet.ofList_toList]
    exact Presentation.check_eq_ok_iff.mpr ⟨g.wellFormed, rfl⟩
  have hdeclarations : g.declarations =
      ⟨.ofList g.nonTerminals.toList, .ofList g.terminals.toList⟩ := by
    rw [OrderedSet.ofList_toList, OrderedSet.ofList_toList]
    rfl
  rw [hdeclarations] at hforms ⊢
  rw [read_eq]
  refine .bind (Or.inl (Symbol.mapM_ofName_eq_ok_iff.mpr rfl)) ?_
  refine .bind (Or.inl (Symbol.mapM_ofName_eq_ok_iff.mpr rfl)) ?_
  refine .bind (Or.inl (Symbol.ofName_eq_ok_iff.mpr rfl)) ?_
  exact (Declarations.ReadsBack.mapM hforms).bind (Or.inl hparts)

/-- The rule lines of a listing, read with the symbols of the grammar, give the grammar
again, or a side in them is reported that splits into the symbols in several ways; the
latter does not happen when every symbol is a single character. -/
theorem printedRules_read_back (hnames : g.PlainNames) (halternatives : g.HasAlternatives) :
    let back := read (g.nonTerminals.toList.map Symbol.text) (g.terminals.toList.map Symbol.text)
      g.start.text g.printedRules
    (back = .ok g ∨ ∃ side, g.declarations.Ambiguous side ∧ back = .error (.manySplits side)) ∧
      ((∀ a, a ∈ g.nonTerminals ∨ a ∈ g.terminals → a.chars.length = 1) → back = .ok g) := by
  have hback := readsBack_listing hnames halternatives
  refine ⟨hback, fun hsingle => hback.resolve_right fun h => ?_⟩
  rcases h with ⟨side, hside, -⟩
  refine Declarations.not_ambiguous_of_single (fun a ha => ?_) side hside
  have hdeclared := Declarations.mem_symbols_iff.mp ha
  exact ⟨fun c hc => ((hnames a hdeclared).plainChar c hc).1, hsingle a hdeclared⟩

/-- The two rule lines of `evenWords` give it again. -/
theorem evenWords_read_back :
    evenWords.PlainNames ∧ evenWords.HasAlternatives ∧
      evenWords.printedRules = ["  S → aF | ε", "  F → aS | a"] ∧
        read ["F", "S"] ["a"] "S" evenWords.printedRules = .ok evenWords := by
  have hsymbols : ∀ a, a ∈ evenWords.nonTerminals ∨ a ∈ evenWords.terminals →
      ∃ c, a.chars = [c] ∧ RuleLine.PlainChar c ∧ c ≠ 'ε' := by
    intro a ha
    simp only [evenWords, evenPresentation, OrderedSet.mem_ofList, List.mem_cons,
      List.not_mem_nil, or_false] at ha
    rcases ha with (rfl | rfl) | rfl
    · exact ⟨'F', rfl, by decide, by decide⟩
    · exact ⟨'S', rfl, by decide, by decide⟩
    · exact ⟨'a', rfl, by decide, by decide⟩
  have hnames : evenWords.PlainNames := by
    intro a ha
    rcases hsymbols a ha with ⟨c, hchars, hplain, hne⟩
    exact .of_single hchars hplain hne
  have halternatives : evenWords.HasAlternatives := by
    unfold HasAlternatives
    decide
  refine ⟨hnames, halternatives, by decide, ?_⟩
  refine (printedRules_read_back hnames halternatives).2 fun a ha => ?_
  rcases hsymbols a ha with ⟨c, hchars, -, -⟩
  rw [hchars, List.length_singleton]

/-- In longer symbols a side can be ambiguous. -/
example : read ["S"] ["n", "nn"] "S" ["  S → nnn"] = .error (.manySplits "nnn") := by
  decide

end Grammar
end FormalLang
