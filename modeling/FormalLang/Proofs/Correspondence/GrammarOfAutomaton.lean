import FormalLang.Correspondence.GrammarOfAutomaton
import FormalLang.Proofs.Automaton.Acceptance
import FormalLang.Proofs.Grammar.Recognition

/-!
# The language of the grammar of an automaton

Every state has a non-terminal of its own.  The rule `p → a` beside `p → aq` for
an accepting `q` ends a derivation where a run ends, so only the start symbol
needs a rule for the empty word: from every other state the grammar accepts the
non-empty words that the automaton accepts.

Main results:

- Theorem `Automaton.symbolOf_injective`: distinct states have distinct
  non-terminals.
- Theorem `Automaton.toGrammar_regular`: the grammar is right-linear.
- Theorem `Automaton.mem_derivationSteps_toGrammar_iff`: its derivations go on
  from the non-terminal of a state as the automaton moves.
- Theorem `Automaton.toGrammar_preserves_language`: the grammar contains the
  words that the automaton accepts.
-/

namespace FormalLang.Automaton

variable {A : Automaton}

/-! ## The non-terminals of states -/

theorem getElem?_stateSymbols {p : Nat} (hp : p < A.states.length) :
    A.stateSymbols[p]? = some (A.symbolOf p) := by
  have hlt : p < A.stateSymbols.length := by rwa [length_stateSymbols]
  rw [symbolOf, List.getD_eq_getElem?_getD, List.getElem?_eq_getElem hlt, Option.getD_some]

/-- Distinct states have distinct non-terminals. -/
theorem symbolOf_injective {p q : Nat} (hp : p < A.states.length) (hq : q < A.states.length)
    (h : A.symbolOf p = A.symbolOf q) : p = q := by
  have hnodup : A.stateSymbols.Nodup := Symbol.nodup_freshNames _ _
  have hget : A.stateSymbols[p]? = A.stateSymbols[q]? := by
    rw [getElem?_stateSymbols hp, getElem?_stateSymbols hq, h]
  have hlt : p < A.stateSymbols.length := by rwa [length_stateSymbols]
  exact (List.getElem?_inj hlt hnodup).mp hget

/-! ## Rules -/

theorem mem_arrowRules_iff {e : Arrow} {rule : StateRule} :
    rule ∈ A.arrowRules e ↔
      rule = (A.symbolOf e.source, [.terminal e.symbol, .nonTerminal (A.symbolOf e.target)]) ∨
        A.isAccepting e.target = true ∧ rule = (A.symbolOf e.source, [.terminal e.symbol]) := by
  rw [arrowRules, List.mem_cons]
  cases A.isAccepting e.target with
  | true => simp
  | false => simp

/-- The rules of the grammar: those of the moves, and the one that erases the
start symbol if the start state accepts. -/
theorem mem_rules_iff {X : Symbol} {rhs : SententialForm} :
    (X, rhs) ∈ A.rules ↔
      (∃ p a q, q ∈ A.targets p a ∧ X = A.symbolOf p ∧
        (rhs = [.terminal a, .nonTerminal (A.symbolOf q)] ∨
          A.isAccepting q = true ∧ rhs = [.terminal a])) ∨
        A.isAccepting A.start = true ∧ X = A.symbolOf A.start ∧ rhs = [] := by
  have hmoves : (X, rhs) ∈ A.moveRules ↔
      ∃ p a q, q ∈ A.targets p a ∧ X = A.symbolOf p ∧
        (rhs = [.terminal a, .nonTerminal (A.symbolOf q)] ∨
          A.isAccepting q = true ∧ rhs = [.terminal a]) := by
    simp only [moveRules, List.mem_flatMap, mem_arrowRules_iff, Prod.mk.injEq]
    constructor
    · intro h
      rcases h with ⟨⟨p, a, q⟩, he, h | h⟩
      · exact ⟨p, a, q, mem_arrows_iff.mp he, h.1, Or.inl h.2⟩
      · exact ⟨p, a, q, mem_arrows_iff.mp he, h.2.1, Or.inr ⟨h.1, h.2.2⟩⟩
    · intro h
      rcases h with ⟨p, a, q, hq, hX, h | h⟩
      · exact ⟨⟨p, a, q⟩, mem_arrows_iff.mpr hq, Or.inl ⟨hX, h⟩⟩
      · exact ⟨⟨p, a, q⟩, mem_arrows_iff.mpr hq, Or.inr ⟨h.1, hX, h.2⟩⟩
  rw [rules, List.mem_append, hmoves]
  cases A.isAccepting A.start with
  | true => simp
  | false => simp

theorem hasRule_toGrammar_iff {lhs rhs : SententialForm} :
    A.toGrammar.productions.HasRule lhs rhs ↔ ∃ X, lhs = [.nonTerminal X] ∧ (X, rhs) ∈ A.rules := by
  have hlines : A.toGrammar.productions =
      Productions.ofLines (A.rules.map fun rule => ([.nonTerminal rule.1], [rule.2])) := rfl
  rw [hlines, Productions.hasRule_ofLines_iff]
  constructor
  · intro h
    rcases h with ⟨line, hline, rfl, hrhs⟩
    rcases List.mem_map.mp hline with ⟨rule, hrule, rfl⟩
    rw [List.mem_singleton] at hrhs
    exact ⟨rule.1, rfl, hrhs ▸ hrule⟩
  · intro h
    rcases h with ⟨X, rfl, hrule⟩
    exact ⟨_, List.mem_map.mpr ⟨_, hrule, rfl⟩, rfl, List.mem_singleton_self rhs⟩

/-- The grammar of an automaton is right-linear. -/
theorem toGrammar_regular (A : Automaton) : A.toGrammar.grammarClass = .regular := by
  rw [Grammar.grammarClass_eq_regular_iff, Productions.isRightLinear_iff]
  constructor
  · intro lhs hlhs
    rcases Productions.mem_keys_ofLines_iff.mp hlhs with ⟨line, hline, rfl⟩
    rcases List.mem_map.mp hline with ⟨rule, -, rfl⟩
    exact ⟨rule.1, rfl⟩
  · intro X rhs hrule
    rcases hasRule_toGrammar_iff.mp hrule with ⟨Y, hXY, hmem⟩
    cases hXY
    rcases mem_rules_iff.mp hmem with ⟨p, a, q, -, -, rfl | ⟨-, rfl⟩⟩ | ⟨-, hX, rfl⟩
    · exact ⟨.continuing a (A.symbolOf q), rfl, by simp⟩
    · exact ⟨.ending a, rfl, by simp⟩
    · exact ⟨.erasing, rfl, fun _ => hX⟩

/-! ## Derivations and runs -/

/-- The rules for the non-terminal of a state are those of its own moves, and the
erasing one for an accepting start state. -/
theorem hasRule_symbolOf_iff {p : Nat} (hp : p < A.states.length) {rhs : SententialForm} :
    A.toGrammar.productions.HasRule [.nonTerminal (A.symbolOf p)] rhs ↔
      (∃ a q, q ∈ A.targets p a ∧
        (rhs = [.terminal a, .nonTerminal (A.symbolOf q)] ∨
          A.isAccepting q = true ∧ rhs = [.terminal a])) ∨
        A.isAccepting p = true ∧ p = A.start ∧ rhs = [] := by
  rw [hasRule_toGrammar_iff]
  constructor
  · intro h
    rcases h with ⟨X, hX, hrule⟩
    cases hX
    rcases mem_rules_iff.mp hrule with ⟨r, a, q, hq, hpr, hrhs⟩ | ⟨haccepting, hstart, hrhs⟩
    · have hr : r < A.states.length := source_lt_of_mem_targets hq
      have heq := symbolOf_injective hp hr hpr
      subst heq
      exact Or.inl ⟨a, q, hq, hrhs⟩
    · have heq := symbolOf_injective hp A.wellFormed.start_lt hstart
      subst heq
      exact Or.inr ⟨haccepting, rfl, hrhs⟩
  · intro h
    refine ⟨_, rfl, mem_rules_iff.mpr ?_⟩
    rcases h with ⟨a, q, hq, hrhs⟩ | ⟨haccepting, rfl, hrhs⟩
    · exact Or.inl ⟨p, a, q, hq, rfl, hrhs⟩
    · exact Or.inr ⟨haccepting, rfl, hrhs⟩

/-- A derivation goes on from the non-terminal of a state as the automaton moves,
and can also end where a move leads to an accepting state. -/
theorem mem_derivationSteps_toGrammar_iff {p : Nat} (hp : p < A.states.length) {a : Symbol}
    {next : Option Symbol} :
    next ∈ A.toGrammar.derivationSteps (some (A.symbolOf p)) a ↔
      ∃ q ∈ A.targets p a,
        next = some (A.symbolOf q) ∨ A.isAccepting q = true ∧ next = none := by
  rw [Grammar.mem_derivationSteps]
  simp only [Grammar.mem_alternatives, hasRule_symbolOf_iff hp]
  constructor
  · intro h
    rcases h with ⟨rfl, hrule⟩ | ⟨B, rfl, hrule⟩
    · rcases hrule with ⟨b, q, hq, hrhs | ⟨haccepting, hrhs⟩⟩ | ⟨-, -, hrhs⟩
      · cases hrhs
      · cases hrhs
        exact ⟨q, hq, Or.inr ⟨haccepting, rfl⟩⟩
      · cases hrhs
    · rcases hrule with ⟨b, q, hq, hrhs | ⟨-, hrhs⟩⟩ | ⟨-, -, hrhs⟩
      · cases hrhs
        exact ⟨q, hq, Or.inl rfl⟩
      · cases hrhs
      · cases hrhs
  · intro h
    rcases h with ⟨q, hq, rfl | ⟨haccepting, rfl⟩⟩
    · exact Or.inr ⟨_, rfl, Or.inl ⟨a, q, hq, Or.inl rfl⟩⟩
    · exact Or.inl ⟨rfl, Or.inl ⟨a, q, hq, Or.inr ⟨haccepting, rfl⟩⟩⟩

/-- Only an accepting start state is erased. -/
theorem toGrammar_hasErasingRule_iff {p : Nat} (hp : p < A.states.length) :
    A.toGrammar.hasErasingRule (A.symbolOf p) = true ↔ A.isAccepting p = true ∧ p = A.start := by
  rw [Grammar.hasErasingRule_iff, hasRule_symbolOf_iff hp]
  simp

/-- From the non-terminal of a state the grammar accepts the non-empty words that
the automaton accepts from the state. -/
theorem toGrammar_acceptsFrom_cons_iff {p : Nat} (hp : p < A.states.length) {a : Symbol}
    {w : Word} :
    A.toGrammar.recognizer.AcceptsFrom (some (A.symbolOf p)) (a :: w) ↔
      A.recognizer.AcceptsFrom p (a :: w) := by
  induction w generalizing p a with
  | nil =>
      rw [Recognizer.acceptsFrom_cons, Recognizer.acceptsFrom_cons]
      simp only [Grammar.recognizer_next, mem_derivationSteps_toGrammar_iff hp, recognizer_next,
        Recognizer.acceptsFrom_nil]
      constructor
      · intro h
        rcases h with ⟨next, ⟨q, hq, rfl | ⟨haccepting, rfl⟩⟩, hfinal⟩
        · have herasing := (toGrammar_hasErasingRule_iff (A.target_lt hq)).mp hfinal
          exact ⟨q, hq, herasing.1⟩
        · exact ⟨q, hq, haccepting⟩
      · intro h
        rcases h with ⟨q, hq, haccepting⟩
        exact ⟨none, ⟨q, hq, Or.inr ⟨haccepting, rfl⟩⟩, rfl⟩
  | cons b w ih =>
      rw [Recognizer.acceptsFrom_cons, Recognizer.acceptsFrom_cons (w := b :: w)]
      simp only [Grammar.recognizer_next, mem_derivationSteps_toGrammar_iff hp, recognizer_next]
      constructor
      · intro h
        rcases h with ⟨next, ⟨q, hq, rfl | ⟨-, rfl⟩⟩, haccepts⟩
        · exact ⟨q, hq, (ih (A.target_lt hq)).mp haccepts⟩
        · -- A derivation that has ended goes on with nothing.
          cases Grammar.acceptsFrom_none_iff.mp haccepts
      · intro h
        rcases h with ⟨q, hq, haccepts⟩
        exact ⟨_, ⟨q, hq, Or.inl rfl⟩, (ih (A.target_lt hq)).mpr haccepts⟩

theorem toGrammar_recognizes (A : Automaton) (w : Word) :
    A.toGrammar.recognizer.recognizes w = A.accepts w := by
  have hstart : A.toGrammar.recognizer.start = some (A.symbolOf A.start) := rfl
  rw [Bool.eq_iff_iff, accepts_iff, Recognizer.recognizes_iff, hstart]
  cases w with
  | nil =>
      rw [Recognizer.acceptsFrom_nil, Recognizer.acceptsFrom_nil, Grammar.recognizer_final_some,
        toGrammar_hasErasingRule_iff A.wellFormed.start_lt, recognizer_final]
      exact and_iff_left rfl
  | cons a w => exact toGrammar_acceptsFrom_cons_iff A.wellFormed.start_lt

/-- The grammar of an automaton answers every word as the automaton does. -/
theorem toGrammar_preserves_language (A : Automaton) (w : Word) :
    A.toGrammar.contains w = .ok (A.accepts w) := by
  rw [Grammar.contains_of_regular A.toGrammar_regular, toGrammar_recognizes]

end FormalLang.Automaton
