import FormalLang.Correspondence.AutomatonOfGrammar
import FormalLang.Proofs.Automaton.Acceptance
import FormalLang.Proofs.Grammar.Recognition
import Mathlib.Data.List.Basic
import Mathlib.Data.Set.Function

/-!
# The language of the automaton of a grammar

The automaton of a grammar is its recognizer with the states numbered: every
non-terminal at its place, and behind them the end of a derivation.  Distinct
non-terminals have distinct places, so both move and end alike.

Main results:

- Theorem `Grammar.mem_arrows_iff`: the arrows of the automaton are the moves of
  the recognizer.
- Theorem `Grammar.automaton_acceptsFrom_iff`: a place accepts what its state
  accepts.
- Theorem `Grammar.toAutomaton_preserves_language`: a regular grammar has an
  automaton, which accepts the words that the grammar contains.
-/

namespace FormalLang.Grammar

variable {g : Grammar}

/-! ## Places of states -/

/-- The place of a state of the recognizer among the states of the automaton. -/
def placeOf (g : Grammar) : Option Symbol → Nat
  | none => g.finalState
  | some A => g.stateOf A

theorem stateOf_lt_finalState {A : Symbol} (h : A ∈ g.nonTerminals) :
    g.stateOf A < g.finalState :=
  List.idxOf_lt_length_of_mem (mem_stateSymbols h)

theorem stateOf_injective {A B : Symbol} (hA : A ∈ g.nonTerminals)
    (h : g.stateOf A = g.stateOf B) : A = B :=
  (List.idxOf_inj (mem_stateSymbols hA)).mp h

theorem mem_stateSymbols_iff {A : Symbol} : A ∈ g.stateSymbols ↔ A ∈ g.nonTerminals := by
  refine ⟨fun h => ?_, mem_stateSymbols⟩
  rcases List.mem_cons.mp h with rfl | h
  · exact g.wellFormed.start_mem
  · exact (List.mem_filter.mp h).1

theorem nodup_stateSymbols (g : Grammar) : g.stateSymbols.Nodup := by
  refine List.nodup_cons.mpr ⟨?_, g.nonTerminals.nodup.filter _⟩
  simp

/-- The non-terminals have the places before the state for finished derivations. -/
theorem bijOn_stateOf (g : Grammar) :
    Set.BijOn g.stateOf {A | A ∈ g.nonTerminals} {p | p < g.finalState} := by
  refine ⟨?_, ?_, ?_⟩
  · intro A hA
    exact stateOf_lt_finalState hA
  · intro A hA B _ hplace
    exact stateOf_injective hA hplace
  · intro p hp
    exact ⟨g.stateSymbols[p], mem_stateSymbols_iff.mp (List.getElem_mem hp),
      g.nodup_stateSymbols.idxOf_getElem p hp⟩

theorem nonTerminal_mem_of_hasRule {A : Symbol} {rhs : SententialForm}
    (h : g.productions.HasRule [.nonTerminal A] rhs) : A ∈ g.nonTerminals :=
  nonTerminal_mem_of_mem_singleRules (mem_singleRules.mpr h)

theorem length_states_automaton (g : Grammar) :
    g.automaton.states.length = g.finalState + 1 :=
  List.length_append

/-! ## Arrows and acceptance -/

theorem arrow?_eq_some_iff {A : Symbol} {rhs : SententialForm} {e : Arrow} :
    g.arrow? A rhs = some e ↔
      ∃ side : RegularSide, rhs = side.toForm ∧ side.word = [e.symbol] ∧
        e.source = g.stateOf A ∧ e.target = g.placeOf side.state := by
  rcases e with ⟨p, a, q⟩
  constructor
  · intro h
    unfold arrow? at h
    split at h
    · rename_i b hside
      cases h
      exact ⟨.ending a, RegularSide.ofForm?_eq_some_iff.mp hside, rfl, rfl, rfl⟩
    · rename_i b B hside
      cases h
      exact ⟨.continuing a B, RegularSide.ofForm?_eq_some_iff.mp hside, rfl, rfl, rfl⟩
    · contradiction
  · intro h
    rcases h with ⟨side, rfl, hword, hsource, htarget⟩
    simp only at hword hsource htarget
    subst hsource htarget
    cases side with
    | erasing => cases hword
    | ending b =>
        cases hword
        rfl
    | continuing b B =>
        cases hword
        rfl

/-- The arrows are the moves of the recognizer between the places of its states. -/
theorem mem_arrows_iff {p q : Nat} {a : Symbol} :
    ⟨p, a, q⟩ ∈ g.arrows ↔
      ∃ A ∈ g.nonTerminals, p = g.stateOf A ∧
        ∃ next ∈ g.derivationSteps (some A) a, g.placeOf next = q := by
  simp only [arrows, List.mem_filterMap, Prod.exists, mem_singleRules, arrow?_eq_some_iff,
    mem_derivationSteps_iff]
  constructor
  · intro h
    rcases h with ⟨A, rhs, hrule, side, rfl, hword, rfl, rfl⟩
    exact ⟨A, nonTerminal_mem_of_hasRule hrule, rfl, side.state, ⟨side, hrule, hword, rfl⟩, rfl⟩
  · intro h
    rcases h with ⟨A, -, rfl, next, ⟨side, hrule, hword, rfl⟩, rfl⟩
    exact ⟨A, side.toForm, hrule, side, rfl, hword, rfl, rfl⟩

theorem mem_targets_automaton_iff {p q : Nat} {a : Symbol} :
    q ∈ g.automaton.targets p a ↔ ⟨p, a, q⟩ ∈ g.arrows :=
  Automaton.mem_targets_ofArrows_iff

/-- No arrow leaves the state for finished derivations. -/
theorem targets_finalState (g : Grammar) (a : Symbol) :
    g.automaton.targets g.finalState a = [] := by
  rw [List.eq_nil_iff_forall_not_mem]
  intro q hq
  rcases mem_arrows_iff.mp (mem_targets_automaton_iff.mp hq) with ⟨A, hA, hplace, -⟩
  exact Nat.ne_of_gt (stateOf_lt_finalState hA) hplace

/-- The state for finished derivations accepts, and so do non-terminals that can
be erased. -/
theorem automaton_isAccepting_iff {p : Nat} :
    g.automaton.isAccepting p = true ↔
      p = g.finalState ∨
        ∃ A, p = g.stateOf A ∧ g.productions.HasRule [.nonTerminal A] [] := by
  have hmem : p ∈ g.automaton.accepting ↔
      p ∈ g.finalState :: (g.singleRules.filter fun rule => rule.2.isEmpty).map
        fun rule => g.stateOf rule.1 :=
    OrderedSet.mem_ofList
  rw [Automaton.isAccepting_iff, hmem, List.mem_cons]
  simp only [List.mem_map, List.mem_filter, List.isEmpty_iff, Prod.exists, mem_singleRules]
  constructor
  · intro h
    rcases h with h | ⟨A, rhs, ⟨hrule, rfl⟩, rfl⟩
    · exact Or.inl h
    · exact Or.inr ⟨A, rfl, hrule⟩
  · intro h
    rcases h with h | ⟨A, rfl, hrule⟩
    · exact Or.inl h
    · exact Or.inr ⟨A, [], ⟨hrule, rfl⟩, rfl⟩

/-! ## The two recognizers -/

theorem automaton_final_placeOf {state : Option Symbol} (h : state ∈ g.recognizer.states) :
    g.automaton.isAccepting (g.placeOf state) = g.recognizer.final state := by
  rw [Bool.eq_iff_iff, automaton_isAccepting_iff]
  cases state with
  | none => exact iff_of_true (Or.inl rfl) rfl
  | some A =>
      have hA := mem_recognizer_states_some.mp h
      rw [recognizer_final_some, hasErasingRule_iff]
      constructor
      · intro haccepting
        rcases haccepting with hfinal | ⟨B, hplace, hrule⟩
        · have hlt := stateOf_lt_finalState hA
          rw [placeOf] at hfinal
          omega
        · exact stateOf_injective hA hplace ▸ hrule
      · exact fun hrule => Or.inr ⟨A, rfl, hrule⟩

theorem mem_targets_placeOf_iff {state : Option Symbol} (h : state ∈ g.recognizer.states)
    {a : Symbol} {q : Nat} :
    q ∈ g.automaton.targets (g.placeOf state) a ↔
      ∃ next ∈ g.derivationSteps state a, g.placeOf next = q := by
  rw [mem_targets_automaton_iff, mem_arrows_iff]
  cases state with
  | none =>
      constructor
      · intro harrow
        rcases harrow with ⟨A, hA, hplace, -⟩
        have hlt := stateOf_lt_finalState hA
        rw [placeOf] at hplace
        omega
      · intro hnext
        simp [derivationSteps] at hnext
  | some A =>
      have hA := mem_recognizer_states_some.mp h
      constructor
      · intro harrow
        rcases harrow with ⟨B, -, hplace, hnext⟩
        have hAB : A = B := stateOf_injective hA hplace
        exact hAB ▸ hnext
      · exact fun hnext => ⟨A, hA, rfl, hnext⟩

/-- A place of the automaton accepts what its state accepts. -/
theorem automaton_acceptsFrom_iff {state : Option Symbol} (h : state ∈ g.recognizer.states)
    {w : Word} :
    g.automaton.recognizer.AcceptsFrom (g.placeOf state) w ↔
      g.recognizer.AcceptsFrom state w := by
  apply Recognizer.acceptsFrom_map_iff _ _ h
  · intro p hp
    exact automaton_final_placeOf hp
  · intro p hp a r
    exact mem_targets_placeOf_iff hp

/-- The start symbol has the first place. -/
theorem automaton_start (g : Grammar) : g.automaton.start = g.placeOf (some g.start) := by
  simp [placeOf, stateOf, stateSymbols, automaton, Automaton.ofArrows, diagram]

theorem automaton_accepts (g : Grammar) (w : Word) :
    g.automaton.accepts w = g.recognizer.recognizes w := by
  rw [Bool.eq_iff_iff, Automaton.accepts_iff, Recognizer.recognizes_iff, automaton_start]
  exact automaton_acceptsFrom_iff g.recognizer.start_mem

/-- A regular grammar has an automaton, which accepts exactly the words that the
grammar contains. -/
theorem toAutomaton_preserves_language (h : g.grammarClass = .regular) :
    ∃ A, g.toAutomaton = .ok A ∧ ∀ w b, A.accepts w = b ↔ g.contains w = .ok b := by
  refine ⟨g.automaton, ifRegular_of_regular h _, ?_⟩
  intro w b
  rw [contains_of_regular h, automaton_accepts, Except.ok.injEq]

/-- The automaton of a grammar with a non-terminal `F` of its own. -/
theorem evenWords_has_automaton :
    evenWords.grammarClass = .regular ∧
      ∃ A, evenWords.toAutomaton = .ok A ∧
        ∀ w b, A.accepts w = b ↔ evenWords.contains w = .ok b :=
  ⟨by decide, toAutomaton_preserves_language (by decide)⟩

end FormalLang.Grammar
