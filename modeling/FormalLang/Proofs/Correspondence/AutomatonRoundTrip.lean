import FormalLang.Proofs.Correspondence.AutomatonOfGrammar
import FormalLang.Proofs.Grammar.Rebuilding
import Mathlib.Data.Set.Function

/-!
# From automata to grammars and back

A state of an automaton becomes a non-terminal, which becomes a state again, and these are
all states but the one for finished derivations.  The moves between them are those of the
automaton.  A rule `p → a` stands beside `p → aq` where `q` accepts, so the new state is
reached along with the accepting ones.  No move leaves it, and since it accepts, only the
start state still needs to.

Main results:

- Theorem `Automaton.bijOn_returned`: the states that come back.
- Theorem `Automaton.mem_targets_returned_iff`: their moves.
- Theorem `Automaton.roundTrip_adds_state`: an automaton comes back with one more accepting
  state.
-/

namespace FormalLang.Automaton

variable {A : Automaton} {p r : Nat} {a : Symbol}

/-- An automaton `B` is an automaton `A` with one more state, `last`.  The other states are
those of `A`, with the same start and the same moves between them.  The new state is reached
where `A` reaches an accepting state, and has no moves of its own.  It accepts, and no other
state does but an accepting start state. -/
structure AddsEnd (place : Nat → Nat) (last : Nat) (A B : Automaton) : Prop where
  alphabet_eq : B.alphabet = A.alphabet
  bijOn : Set.BijOn place {p | p < A.states.length} {r | r < B.states.length ∧ r ≠ last}
  last_lt : last < B.states.length
  start_eq : place A.start = B.start
  move_iff : ∀ p < A.states.length, ∀ q < A.states.length, ∀ a,
    (place q ∈ B.targets (place p) a ↔ q ∈ A.targets p a)
  move_last_iff : ∀ p < A.states.length, ∀ a,
    (last ∈ B.targets (place p) a ↔ ∃ q ∈ A.targets p a, q ∈ A.accepting)
  targets_last : ∀ a, B.targets last a = []
  accepting_iff : ∀ r, r ∈ B.accepting ↔ r = last ∨ r = B.start ∧ A.start ∈ A.accepting

/-! ## States -/

/-- The state that a state becomes when the automaton is converted into a grammar and back. -/
def returned (A : Automaton) (p : Nat) : Nat :=
  A.toGrammar.stateOf (A.symbolOf p)

/-- All states come back as different ones, and only the last state is new. -/
theorem bijOn_returned (A : Automaton) :
    Set.BijOn A.returned {p | p < A.states.length} {r | r < A.toGrammar.finalState} :=
  A.toGrammar.bijOn_stateOf.comp A.bijOn_symbolOf

theorem returned_ne_finalState (hp : p < A.states.length) :
    A.returned p ≠ A.toGrammar.finalState :=
  Nat.ne_of_lt (A.bijOn_returned.mapsTo hp)

/-- The start state comes back as the start state. -/
theorem returned_start (A : Automaton) : A.returned A.start = A.toGrammar.automaton.start :=
  A.toGrammar.automaton_start.symm

theorem mem_recognizer_toGrammar (hp : p < A.states.length) :
    some (A.symbolOf p) ∈ A.toGrammar.recognizer.states :=
  Grammar.mem_recognizer_states_some.mpr (symbolOf_mem hp)

/-! ## Moves and acceptance -/

/-- A state that came back moves as before, and to the new state besides where a move leads
to an accepting state. -/
theorem mem_targets_returned_iff (hp : p < A.states.length) :
    r ∈ A.toGrammar.automaton.targets (A.returned p) a ↔
      ∃ q ∈ A.targets p a,
        r = A.returned q ∨ A.isAccepting q = true ∧ r = A.toGrammar.finalState := by
  have hplace : A.returned p = A.toGrammar.placeOf (some (A.symbolOf p)) := rfl
  rw [hplace, Grammar.mem_targets_placeOf_iff (mem_recognizer_toGrammar hp)]
  simp only [mem_derivationSteps_toGrammar_iff hp]
  constructor
  · intro h
    rcases h with ⟨next, ⟨q, hq, rfl | ⟨haccepting, rfl⟩⟩, rfl⟩
    · exact ⟨q, hq, Or.inl rfl⟩
    · exact ⟨q, hq, Or.inr ⟨haccepting, rfl⟩⟩
  · intro h
    rcases h with ⟨q, hq, rfl | ⟨haccepting, rfl⟩⟩
    · exact ⟨_, ⟨q, hq, Or.inl rfl⟩, rfl⟩
    · exact ⟨_, ⟨q, hq, Or.inr ⟨haccepting, rfl⟩⟩, rfl⟩

theorem returned_mem_targets_iff {q : Nat} (hp : p < A.states.length) (hq : q < A.states.length) :
    A.returned q ∈ A.toGrammar.automaton.targets (A.returned p) a ↔ q ∈ A.targets p a := by
  rw [mem_targets_returned_iff hp]
  constructor
  · intro h
    rcases h with ⟨r, hr, hqr | ⟨-, hlast⟩⟩
    · exact A.bijOn_returned.injOn hq (A.target_lt hr) hqr ▸ hr
    · exact (returned_ne_finalState hq hlast).elim
  · intro hmove
    exact ⟨q, hmove, Or.inl rfl⟩

theorem finalState_mem_targets_iff (hp : p < A.states.length) :
    A.toGrammar.finalState ∈ A.toGrammar.automaton.targets (A.returned p) a ↔
      ∃ q ∈ A.targets p a, q ∈ A.accepting := by
  rw [mem_targets_returned_iff hp]
  refine exists_congr fun q => and_congr_right fun hq => ?_
  have hne : A.toGrammar.finalState ≠ A.returned q :=
    (returned_ne_finalState (A.target_lt hq)).symm
  simp [hne, isAccepting_iff]

/-- Besides the new state, only a start state that accepted before accepts. -/
theorem mem_accepting_toGrammar_iff :
    r ∈ A.toGrammar.automaton.accepting ↔
      r = A.toGrammar.finalState ∨
        r = A.toGrammar.automaton.start ∧ A.start ∈ A.accepting := by
  rw [← isAccepting_iff, Grammar.automaton_isAccepting_iff, ← returned_start, ← isAccepting_iff]
  apply or_congr Iff.rfl
  constructor
  · intro h
    rcases h with ⟨X, rfl, herased⟩
    rcases A.bijOn_symbolOf.surjOn (Grammar.nonTerminal_mem_of_hasRule herased) with ⟨p, hp, rfl⟩
    have hstart := (toGrammar_hasErasingRule_iff hp).mp (Grammar.hasErasingRule_iff.mpr herased)
    rcases hstart with ⟨haccepting, rfl⟩
    exact ⟨rfl, haccepting⟩
  · intro h
    rcases h with ⟨rfl, haccepting⟩
    have herased := (toGrammar_hasErasingRule_iff A.wellFormed.start_lt).mpr ⟨haccepting, rfl⟩
    exact ⟨_, rfl, Grammar.hasErasingRule_iff.mp herased⟩

/-! ## The round trip -/

/-- An automaton that is converted into a grammar and back has one more state, which takes
over acceptance from all states but the start. -/
theorem roundTrip_adds_state (A : Automaton) :
    ∃ B, A.toGrammar.toAutomaton = .ok B ∧
      AddsEnd A.returned A.toGrammar.finalState A B := by
  refine ⟨A.toGrammar.automaton, Grammar.ifRegular_of_regular A.toGrammar_regular _, ?_⟩
  have hlength := A.toGrammar.length_states_automaton
  have hstates : {r | r < A.toGrammar.automaton.states.length ∧ r ≠ A.toGrammar.finalState} =
      {r | r < A.toGrammar.finalState} := by
    ext r
    change r < _ ∧ r ≠ _ ↔ r < _
    omega
  constructor
  case alphabet_eq => rfl
  case bijOn => exact hstates ▸ A.bijOn_returned
  case last_lt => omega
  case start_eq => exact A.returned_start
  case move_iff => exact fun p hp q hq a => returned_mem_targets_iff hp hq
  case move_last_iff => exact fun p hp a => finalState_mem_targets_iff hp
  case targets_last => exact A.toGrammar.targets_finalState
  case accepting_iff => exact fun r => mem_accepting_toGrammar_iff

end FormalLang.Automaton
