import FormalLang.Proofs.Grammar.Derivation
import FormalLang.Proofs.Grammar.Membership
import FormalLang.Proofs.Grammar.Reading
import FormalLang.Proofs.Grammar.RuleLines
import FormalLang.Proofs.Recognizer.Texts

/-!
# Declarations and rule lines in another order

Whether a grammar can be read, and what its rules are, is said by the names that are
declared and by the pairs of a left-hand side and an alternative that the lines give.
It does not matter in which order names and lines stand, whether they are repeated, or
which line gives a pair.  Rules and symbols decide the class of a grammar and the texts
of its language, so these do not depend on the order either.

Main results:

- Theorem `Grammar.exists_read_iff`: when reading succeeds.
- Theorem `Grammar.hasRule_of_read_iff_pairs`: the rules, told by pairs of texts.
- Theorem `Grammar.containsText_congr`: grammars with the same symbols and rules answer
  every text alike.
- Theorem `Grammar.read_reordered`: what is read after names and lines were reordered.
-/

namespace FormalLang

/-! ## Pairs of texts -/

namespace RuleLine

/-- Rule lines give a pair of texts: on one of them, the first is the left-hand side and
the second one of the alternatives. -/
def GivePair (lines : List String) (lhs rhs : String) : Prop :=
  ∃ line ∈ lines, ∃ parts, parse? line = some parts ∧ parts.lhs = lhs ∧ rhs ∈ parts.alternatives

/-- The pairs of texts on a line. -/
def pairsOn (line : String) : List (String × String) :=
  match parse? line with
  | none => []
  | some parts => parts.alternatives.map fun rhs => (parts.lhs, rhs)

theorem givePair_iff_mem_pairsOn {lines : List String} {lhs rhs : String} :
    GivePair lines lhs rhs ↔ (lhs, rhs) ∈ lines.flatMap pairsOn := by
  rw [GivePair, List.mem_flatMap]
  refine exists_congr fun line => and_congr_right fun _ => ?_
  cases hparse : parse? line with
  | none => simp [pairsOn, hparse]
  | some parts => simp [pairsOn, hparse, and_comm]

end RuleLine

/-! ## Sides under other declarations -/

namespace Declarations

variable {D D' : Declarations} {side line : String} {s s' : SententialForm}

/-- Two declarations of the same symbols, in any order. -/
structure SameSymbols (D D' : Declarations) : Prop where
  nonTerminal_iff : ∀ a, a ∈ D.nonTerminals ↔ a ∈ D'.nonTerminals
  terminal_iff : ∀ a, a ∈ D.terminals ↔ a ∈ D'.terminals

theorem SameSymbols.symm (h : D.SameSymbols D') : D'.SameSymbols D :=
  ⟨fun a => (h.nonTerminal_iff a).symm, fun a => (h.terminal_iff a).symm⟩

theorem SameSymbols.symbol_iff (h : D.SameSymbols D') (a : Symbol) :
    a ∈ D.symbols ↔ a ∈ D'.symbols := by
  rw [mem_symbols_iff, mem_symbols_iff, h.nonTerminal_iff, h.terminal_iff]

/-- A side stands for the same form whatever the order of the symbols is. -/
theorem SameSymbols.sideStandsFor (h : D.SameSymbols D') (hside : D.SideStandsFor side s) :
    D'.SideStandsFor side s := by
  cases hside with
  | empty => exact .empty
  | @word _ w hne hsplits =>
      have hkinds : w.map D.asDeclared = w.map D'.asDeclared := by
        refine List.map_congr_left fun a _ => ?_
        simp only [asDeclared, h.nonTerminal_iff]
      rw [hkinds]
      refine .word hne fun w' => ?_
      rw [← hsplits w']
      exact isSplitOver_congr h.symm.symbol_iff

theorem SameSymbols.sideStandsFor_iff (h : D.SameSymbols D') :
    D.SideStandsFor side s ↔ D'.SideStandsFor side s :=
  ⟨h.sideStandsFor, h.symm.sideStandsFor⟩

/-- A side stands for one form only. -/
theorem SideStandsFor.eq (h : D.SideStandsFor side s) (h' : D.SideStandsFor side s') : s = s' :=
  Except.ok.inj ((readSide_eq_ok_iff.mpr h).symm.trans (readSide_eq_ok_iff.mpr h'))

/-- Every member of a list is related to some value. -/
theorem exists_forall₂_iff {α β : Type} {R : α → β → Prop} {l : List α} :
    (∃ l', List.Forall₂ R l l') ↔ ∀ a ∈ l, ∃ b, R a b := by
  induction l with
  | nil => simp
  | cons a l ih =>
      rw [List.forall_mem_cons, ← ih]
      simp only [List.forall₂_cons_left_iff]
      constructor
      · rintro ⟨_, b, l', hab, hl', rfl⟩
        exact ⟨⟨b, hab⟩, l', hl'⟩
      · rintro ⟨⟨b, hab⟩, l', hl'⟩
        exact ⟨_, b, l', hab, hl', rfl⟩

/-- A rule line stands for a form when its sides do. -/
theorem exists_lineStandsFor_iff {parts : RuleLine} (hparse : RuleLine.parse? line = some parts)
    {p : SententialForm → Prop} :
    (∃ form, D.LineStandsFor line form ∧ p form.1) ↔
      (∃ s, D.SideStandsFor parts.lhs s ∧ p s) ∧
        ∀ rhs ∈ parts.alternatives, ∃ s, D.SideStandsFor rhs s := by
  simp only [← exists_forall₂_iff, lineStandsFor_iff_parse?]
  constructor
  · intro h
    rcases h with ⟨form, ⟨parts', hparse', hlhs, halternatives⟩, hp⟩
    cases hparse.symm.trans hparse'
    exact ⟨⟨form.1, hlhs, hp⟩, form.2, halternatives⟩
  · intro h
    rcases h with ⟨⟨s, hlhs, hp⟩, forms, halternatives⟩
    exact ⟨(s, forms), ⟨parts, hparse, hlhs, halternatives⟩, hp⟩

/-- The checks of a line pass when it stands for something. -/
theorem lineChecks_pass_iff :
    (∀ c ∈ D.lineChecks line, c.Passes) ↔ ∃ form, D.LineStandsFor line form := by
  simp only [← (D.enforces_readLine line).exists_ok_iff, readLine_eq_ok_iff]

end Declarations

/-! ## When reading succeeds -/

namespace Grammar

variable {nonTerminals terminals nonTerminals' terminals' lines lines' : List String}
  {start : String} {lhs rhs : SententialForm} {g g' : Grammar}

/-- A check that reports the symbol of a name passes when its condition is not met. -/
theorem passes_symbol_iff {p : Prop} {name : String} (hname : name ≠ "")
    (f : Symbol → GrammarError) :
    Check.Passes (fun e => p ∧ ∃ a : Symbol, a.text = name ∧ e = f a) ↔ ¬p := by
  constructor
  · intro h hp
    exact h _ ⟨hp, ⟨name, hname⟩, rfl, rfl⟩
  · intro h e he
    exact h he.1

/-- The left-hand side of a line is without fault when it has a non-terminal. -/
theorem lhsCheck_passes_iff {D : Declarations} {line : String}
    {form : SententialForm × List SententialForm} (hform : D.LineStandsFor line form) :
    (lhsCheck D line).Passes ↔ form.1.any GrammarSymbol.isNonTerminal = true := by
  rw [List.any_eq_true]
  constructor
  · intro h
    by_contra hnone
    refine h (.noNonTerminal form.1) ⟨form, hform, fun x hx => ?_, rfl⟩
    rw [← Bool.not_eq_true]
    exact fun hnt => hnone ⟨x, hx, hnt⟩
  · intro h e he
    rcases h with ⟨x, hx, hnt⟩
    rcases he with ⟨form', hform', hterminals, -⟩
    rw [hform'.eq hform] at hterminals
    rw [hterminals x hx] at hnt
    contradiction

/-- Reading succeeds when no name is empty, the start symbol is a non-terminal, no symbol
is of both kinds, and every line stands for rules whose left-hand side has a
non-terminal. -/
theorem exists_read_iff :
    (∃ g, read nonTerminals terminals start lines = .ok g) ↔
      "" ∉ nonTerminals ++ terminals ++ [start] ∧ start ∈ nonTerminals ∧
        (∀ name ∈ terminals, name ∉ nonTerminals) ∧
          ∀ line ∈ lines, ∃ form,
            (Declarations.ofNames nonTerminals terminals).LineStandsFor line form ∧
              form.1.any GrammarSymbol.isNonTerminal = true := by
  rw [(enforces_read nonTerminals terminals start lines).exists_ok_iff]
  simp only [readChecks, symbolChecks, List.cons_append, List.append_assoc, List.forall_mem_cons,
    List.forall_mem_append, List.forall_mem_flatMap, List.forall_mem_map,
    Declarations.lineChecks_pass_iff]
  have hempty : (Check.Passes fun e => "" ∈ nonTerminals ++ (terminals ++ [start]) ∧
      e = GrammarError.emptySymbol) ↔ "" ∉ nonTerminals ++ (terminals ++ [start]) :=
    Check.passes_and_eq_iff
  rw [hempty]
  refine and_congr_right fun hnames => ?_
  have hname : ∀ name ∈ nonTerminals ++ (terminals ++ [start]), name ≠ "" :=
    fun name hmem heq => hnames (heq ▸ hmem)
  have hstart := passes_symbol_iff (p := start ∉ nonTerminals) (hname start (by simp))
    GrammarError.undeclaredStart
  have hterminals : (∀ name ∈ terminals, Check.Passes fun e =>
      name ∈ nonTerminals ∧ ∃ a : Symbol, a.text = name ∧ e = GrammarError.sharedSymbol a) ↔
        ∀ name ∈ terminals, name ∉ nonTerminals :=
    forall₂_congr fun name hmem => passes_symbol_iff (hname name (by simp [hmem])) _
  rw [hstart, not_not, hterminals]
  constructor
  · intro h
    rcases h with ⟨hforms, hmem, hdisjoint, hlhs⟩
    refine ⟨hmem, hdisjoint, fun line hline => ?_⟩
    rcases hforms line hline with ⟨form, hform⟩
    exact ⟨form, hform, (lhsCheck_passes_iff hform).mp (hlhs line hline)⟩
  · intro h
    rcases h with ⟨hmem, hdisjoint, hforms⟩
    refine ⟨fun line hline => ?_, hmem, hdisjoint, fun line hline => ?_⟩
    · rcases hforms line hline with ⟨form, hform, -⟩
      exact ⟨form, hform⟩
    · rcases hforms line hline with ⟨form, hform, hlhs⟩
      exact (lhsCheck_passes_iff hform).mpr hlhs

/-! ## Lines as pairs of texts -/

/-- Reading succeeds when the pairs of texts on the lines stand for rules. -/
theorem exists_read_iff_pairs (hparse : ∀ line ∈ lines, (RuleLine.parse? line).isSome = true) :
    (∃ g, read nonTerminals terminals start lines = .ok g) ↔
      "" ∉ nonTerminals ++ terminals ++ [start] ∧ start ∈ nonTerminals ∧
        (∀ name ∈ terminals, name ∉ nonTerminals) ∧
          ∀ left right, RuleLine.GivePair lines left right →
            (∃ s, (Declarations.ofNames nonTerminals terminals).SideStandsFor left s ∧
              s.any GrammarSymbol.isNonTerminal = true) ∧
            ∃ s, (Declarations.ofNames nonTerminals terminals).SideStandsFor right s := by
  rw [exists_read_iff]
  refine and_congr_right fun _ => and_congr_right fun _ => and_congr_right fun _ => ?_
  constructor
  · intro h left right hpair
    rcases hpair with ⟨line, hline, parts, hparts, rfl, hright⟩
    have hsides := (Declarations.exists_lineStandsFor_iff hparts
      (p := fun s => s.any GrammarSymbol.isNonTerminal = true)).mp (h line hline)
    exact ⟨hsides.1, hsides.2 right hright⟩
  · intro h line hline
    rcases Option.isSome_iff_exists.mp (hparse line hline) with ⟨parts, hparts⟩
    refine (Declarations.exists_lineStandsFor_iff hparts
      (p := fun s => s.any GrammarSymbol.isNonTerminal = true)).mpr ⟨?_, fun rhs hrhs => ?_⟩
    · rcases List.exists_mem_of_ne_nil _ (RuleLine.alternatives_ne_nil hparts) with ⟨rhs, hrhs⟩
      exact (h parts.lhs rhs ⟨line, hline, parts, hparts, rfl, hrhs⟩).1
    · exact (h parts.lhs rhs ⟨line, hline, parts, hparts, rfl, hrhs⟩).2

/-- The rules of a grammar that was read are those for which pairs of texts on its lines
stand. -/
theorem hasRule_of_read_iff_pairs (h : read nonTerminals terminals start lines = .ok g) :
    g.productions.HasRule lhs rhs ↔ ∃ left right, RuleLine.GivePair lines left right ∧
      (Declarations.ofNames nonTerminals terminals).SideStandsFor left lhs ∧
        (Declarations.ofNames nonTerminals terminals).SideStandsFor right rhs := by
  rw [(gathers_of_read h).hasRule_iff]
  constructor
  · intro hrule
    rcases hrule with ⟨line, hline, alternatives, hform, hrhs⟩
    rcases Declarations.lineStandsFor_iff_parse?.mp hform with ⟨parts, hparts, hlhs, hsides⟩
    rcases exists_mem_of_forall₂ hsides hrhs with ⟨right, hright, hstands⟩
    exact ⟨parts.lhs, right, ⟨line, hline, parts, hparts, rfl, hright⟩, hlhs, hstands⟩
  · intro hpair
    rcases hpair with ⟨left, right, ⟨line, hline, parts, hparts, rfl, hright⟩, hlhs, hrhs⟩
    rcases (exists_read_iff.mp ⟨g, h⟩).2.2.2 line hline with ⟨form, hform, -⟩
    rcases Declarations.lineStandsFor_iff_parse?.mp hform with ⟨parts', hparts', hlhs', hsides⟩
    cases hparts.symm.trans hparts'
    rcases exists_mem_of_forall₂ hsides.flip hright with ⟨rhs', hmem, hrhs'⟩
    have hform1 : form.1 = lhs := hlhs'.eq hlhs
    have hrhs1 : rhs' = rhs := hrhs'.eq hrhs
    subst hform1 hrhs1
    exact ⟨line, hline, form.2, hform, hmem⟩

/-- A left-hand side of a grammar that was read has an alternative. -/
theorem mem_keys_of_read_iff (h : read nonTerminals terminals start lines = .ok g) :
    lhs ∈ g.productions.keys ↔ ∃ rhs, g.productions.HasRule lhs rhs := by
  constructor
  · intro hlhs
    rcases read_eq_ok_iff.mp h with ⟨ns, ts, s, forms, -, -, -, hforms, hparts⟩
    have hproductions : g.productions = .ofLines forms := by
      rw [(Presentation.check_eq_ok_iff.mp hparts).2]
    rw [hproductions] at hlhs ⊢
    rcases Productions.mem_keys_ofLines_iff.mp hlhs with ⟨form, hform, rfl⟩
    rcases exists_mem_of_forall₂ hforms hform with ⟨line, -, hstands⟩
    rcases Declarations.lineStandsFor_iff_parse?.mp hstands with ⟨parts, hline, -, hsides⟩
    have hne : form.2 ≠ [] := by
      intro hnil
      rw [hnil] at hsides
      exact RuleLine.alternatives_ne_nil hline (List.forall₂_nil_right_iff.mp hsides)
    rcases List.exists_mem_of_ne_nil _ hne with ⟨rhs, hrhs⟩
    exact ⟨rhs, Productions.hasRule_ofLines_iff.mpr ⟨form, hform, rfl, hrhs⟩⟩
  · intro hrule
    rcases hrule with ⟨rhs, hrule⟩
    exact Productions.mem_keys_of_hasRule hrule

/-! ## Answers -/

/-- Grammars of one class with the same start symbol, terminals and rules answer every
text alike. -/
theorem containsText_congr (hclass : g.grammarClass = g'.grammarClass)
    (hstart : g.start = g'.start) (hterminals : ∀ a, a ∈ g.terminals ↔ a ∈ g'.terminals)
    (hrules : ∀ lhs rhs, g.productions.HasRule lhs rhs ↔ g'.productions.HasRule lhs rhs)
    (text : String) : g.containsText text = g'.containsText text := by
  by_cases hregular : g.grammarClass = .regular
  · have hregular' : g'.grammarClass = .regular := hclass ▸ hregular
    have haccepts : ∀ w, g.recognizer.AcceptsFrom g.recognizer.start w ↔
        g'.recognizer.AcceptsFrom g'.recognizer.start w := by
      intro w
      rw [← Recognizer.recognizes_iff, ← Recognizer.recognizes_iff,
        recognizes_iff_derives hregular, recognizes_iff_derives hregular', hstart]
      exact ⟨Productions.Derives.mono fun lhs rhs => (hrules lhs rhs).mp,
        Productions.Derives.mono fun lhs rhs => (hrules lhs rhs).mpr⟩
    have hsplits : ∀ w, IsSplitOver g.recognizer.alphabet w text.toList ↔
        IsSplitOver g'.recognizer.alphabet w text.toList :=
      fun w => isSplitOver_congr hterminals
    rw [containsText_of_regular hregular, containsText_of_regular hregular', Except.ok.injEq,
      Bool.eq_iff_iff, Recognizer.recognizesText_iff, Recognizer.recognizesText_iff]
    simp only [hsplits, haccepts]
  · have hregular' : ¬g'.grammarClass = .regular := hclass ▸ hregular
    rw [containsText, containsText, ifRegular, ifRegular, if_neg hregular, if_neg hregular',
      hclass]

/-! ## Other orders -/

/-- Two lists of non-terminals, of terminals and of rule lines that declare the same
symbols and give the same pairs of texts; all lines are rule lines. -/
structure SameInput (nonTerminals terminals lines nonTerminals' terminals' lines' : List String) :
    Prop where
  nonTerminal_iff : ∀ name, name ∈ nonTerminals ↔ name ∈ nonTerminals'
  terminal_iff : ∀ name, name ∈ terminals ↔ name ∈ terminals'
  parse : ∀ line ∈ lines, (RuleLine.parse? line).isSome = true
  parse' : ∀ line ∈ lines', (RuleLine.parse? line).isSome = true
  pair_iff : ∀ lhs rhs, RuleLine.GivePair lines lhs rhs ↔ RuleLine.GivePair lines' lhs rhs

section SameInput

variable (h : SameInput nonTerminals terminals lines nonTerminals' terminals' lines')

include h

theorem SameInput.sameSymbols :
    (Declarations.ofNames nonTerminals terminals).SameSymbols
      (Declarations.ofNames nonTerminals' terminals') := by
  constructor
  · intro a
    simp only [Declarations.ofNames, OrderedSet.mem_ofList, List.mem_filterMap,
      h.nonTerminal_iff]
  · intro a
    simp only [Declarations.ofNames, OrderedSet.mem_ofList, List.mem_filterMap, h.terminal_iff]

theorem SameInput.exists_read_iff (start : String) :
    (∃ g, read nonTerminals terminals start lines = .ok g) ↔
      ∃ g, read nonTerminals' terminals' start lines' = .ok g := by
  rw [exists_read_iff_pairs h.parse, exists_read_iff_pairs h.parse']
  simp only [List.mem_append, h.nonTerminal_iff, h.terminal_iff, h.pair_iff,
    h.sameSymbols.sideStandsFor_iff]

/-- What is read from the same input in another order has the same rules, is of the same
class and answers every text alike. -/
theorem SameInput.agree (hread : read nonTerminals terminals start lines = .ok g)
    (hread' : read nonTerminals' terminals' start lines' = .ok g') :
    (∀ lhs rhs, g.productions.HasRule lhs rhs ↔ g'.productions.HasRule lhs rhs) ∧
      g.grammarClass = g'.grammarClass ∧ ∀ text, g.containsText text = g'.containsText text := by
  have hrules : ∀ lhs rhs, g.productions.HasRule lhs rhs ↔ g'.productions.HasRule lhs rhs := by
    intro lhs rhs
    rw [hasRule_of_read_iff_pairs hread, hasRule_of_read_iff_pairs hread']
    simp only [h.pair_iff, h.sameSymbols.sideStandsFor_iff]
  have hgathers := gathers_of_read hread
  have hgathers' := gathers_of_read hread'
  have hstart : g.start = g'.start :=
    Symbol.ext (hgathers.start_text.trans hgathers'.start_text.symm)
  have hterminals : ∀ a, a ∈ g.terminals ↔ a ∈ g'.terminals := by
    intro a
    rw [hgathers.terminals_eq, hgathers'.terminals_eq]
    exact h.sameSymbols.terminal_iff a
  have hclass : g.grammarClass = g'.grammarClass := by
    refine grammarClass_congr hstart (fun lhs => ?_) hrules
    rw [mem_keys_of_read_iff hread, mem_keys_of_read_iff hread']
    simp only [hrules]
  exact ⟨hrules, hclass, containsText_congr hclass hstart hterminals hrules⟩

/-- Names and rule lines may be reordered, repeated, and lines merged or split at their
bars: reading fails as before, or it succeeds as before with a grammar that has the same
rules, is of the same class and answers every text alike. -/
theorem read_reordered (start : String) :
    ((∃ e, read nonTerminals terminals start lines = .error e) ∧
        ∃ e, read nonTerminals' terminals' start lines' = .error e) ∨
      ∃ g g', read nonTerminals terminals start lines = .ok g ∧
        read nonTerminals' terminals' start lines' = .ok g' ∧
          (∀ lhs rhs, g.productions.HasRule lhs rhs ↔ g'.productions.HasRule lhs rhs) ∧
            g.grammarClass = g'.grammarClass ∧
              ∀ text, g.containsText text = g'.containsText text := by
  rcases errors_or_oks (h.exists_read_iff start) with hfail | hread
  · exact Or.inl hfail
  · rcases hread with ⟨g, g', hg, hg'⟩
    exact Or.inr ⟨g, g', hg, hg', h.agree hg hg'⟩

end SameInput

/-- Two rule lines, with an alternative that is the empty word. -/
def severalRules : List String :=
  ["S → mT | ε", "T → m"]

/-- The rules of `severalRules` in another order, one of them twice. -/
def scatteredRules : List String :=
  ["T → m", "S → ε", "S → ε | mT"]

/-- Both are read, from names in another order too, and answer every text alike. -/
theorem scatteredRules_read :
    SameInput ["S", "T"] ["m"] severalRules ["T", "S", "T"] ["m"] scatteredRules ∧
      ∃ g g', read ["S", "T"] ["m"] "S" severalRules = .ok g ∧
        read ["T", "S", "T"] ["m"] "S" scatteredRules = .ok g' ∧
          (∀ lhs rhs, g.productions.HasRule lhs rhs ↔ g'.productions.HasRule lhs rhs) ∧
            g.grammarClass = g'.grammarClass ∧
              ∀ text, g.containsText text = g'.containsText text := by
  have hsame : SameInput ["S", "T"] ["m"] severalRules ["T", "S", "T"] ["m"] scatteredRules := by
    refine ⟨fun name => ?_, fun _ => Iff.rfl, by decide, by decide, fun lhs rhs => ?_⟩
    · have hsub : ["S", "T"] ⊆ ["T", "S", "T"] ∧ ["T", "S", "T"] ⊆ ["S", "T"] := by decide
      exact ⟨fun h => hsub.1 h, fun h => hsub.2 h⟩
    · have hsub : severalRules.flatMap RuleLine.pairsOn ⊆ scatteredRules.flatMap RuleLine.pairsOn ∧
          scatteredRules.flatMap RuleLine.pairsOn ⊆ severalRules.flatMap RuleLine.pairsOn := by
        decide
      rw [RuleLine.givePair_iff_mem_pairsOn, RuleLine.givePair_iff_mem_pairsOn]
      exact ⟨fun h => hsub.1 h, fun h => hsub.2 h⟩
  have hok : (read ["S", "T"] ["m"] "S" severalRules).isOk = true := by decide
  refine ⟨hsame, (read_reordered hsame "S").resolve_left fun hfail => ?_⟩
  rcases hfail.1 with ⟨e, he⟩
  rw [he] at hok
  contradiction

end Grammar
end FormalLang
