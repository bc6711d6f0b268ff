import FormalLang.Proofs.Recognizer.Texts
import Mathlib.Data.Set.Function

/-!
# Automata with other numbers for their states

The number of a state is its place in the list of states, and only the names and the
listings of an automaton show it.  If the states of one automaton can be renumbered so
that they become those of another, with the same start, the same accepting states and the
same moves, then both automata are deterministic or neither is, and they accept the same
words and the same texts.  The alphabets may be in different orders as well.

Main results:

- Theorem `Automaton.Renumbers.accepts_eq`: the words that are accepted.
- Theorem `Automaton.Renumbers.acceptsText_eq`: the texts that are accepted.
- Theorem `Automaton.Renumbers.isDeterministic_eq`: whether a state and a symbol can lead to
  several states.
-/

namespace FormalLang.Automaton

variable {A B : Automaton} {f : Nat → Nat}

/-- A map of states makes one automaton out of another: it is one to one between their
states, and keeps the start, the accepting states and the moves in both directions. -/
structure Renumbers (f : Nat → Nat) (A B : Automaton) : Prop where
  bijOn : Set.BijOn f {p | p < A.states.length} {q | q < B.states.length}
  symbol_iff : ∀ a, a ∈ A.alphabet ↔ a ∈ B.alphabet
  start_eq : f A.start = B.start
  accepting_iff : ∀ p < A.states.length, (f p ∈ B.accepting ↔ p ∈ A.accepting)
  move_iff : ∀ p < A.states.length, ∀ q < A.states.length, ∀ a,
    (f q ∈ B.targets (f p) a ↔ q ∈ A.targets p a)

namespace Renumbers

/-- Every state has a number in the other automaton. -/
theorem exists_eq (h : Renumbers f A B) {r : Nat} (hr : r < B.states.length) :
    ∃ q < A.states.length, f q = r :=
  h.bijOn.surjOn hr

/-- The moves from a state are the renumbered ones. -/
theorem mem_targets_iff (h : Renumbers f A B) {p r : Nat} (hp : p < A.states.length)
    (a : Symbol) : r ∈ B.targets (f p) a ↔ ∃ q ∈ A.targets p a, f q = r := by
  constructor
  · intro hr
    rcases h.exists_eq (B.target_lt hr) with ⟨q, hq, rfl⟩
    exact ⟨q, (h.move_iff p hp q hq a).mp hr, rfl⟩
  · intro hex
    rcases hex with ⟨q, hq, rfl⟩
    exact (h.move_iff p hp q (A.target_lt hq) a).mpr hq

/-- A renumbered automaton accepts the same words. -/
theorem accepts_eq (h : Renumbers f A B) (w : Word) : A.accepts w = B.accepts w := by
  have hfinal : ∀ p ∈ A.recognizer.states,
      B.recognizer.final (f p) = A.recognizer.final p := by
    intro p hp
    rw [Bool.eq_iff_iff, recognizer_final, recognizer_final, isAccepting_iff, isAccepting_iff]
    exact h.accepting_iff p (List.mem_range.mp hp)
  have hnext : ∀ p ∈ A.recognizer.states, ∀ a r,
      r ∈ B.recognizer.next (f p) a ↔ ∃ q ∈ A.recognizer.next p a, f q = r :=
    fun p hp a r => h.mem_targets_iff (List.mem_range.mp hp) a
  have hwords := Recognizer.acceptsFrom_map_iff hfinal hnext A.recognizer.start_mem (w := w)
  rw [recognizer_start, h.start_eq] at hwords
  exact accepts_eq_of_acceptsFrom_iff hwords.symm

/-- A renumbered automaton accepts the same texts. -/
theorem acceptsText_eq (h : Renumbers f A B) (text : String) :
    A.acceptsText text = B.acceptsText text := by
  rw [Bool.eq_iff_iff, acceptsText_iff, acceptsText_iff]
  refine exists_congr fun w => and_congr (isSplitOver_congr h.symbol_iff) ?_
  rw [h.accepts_eq w]

/-- A renumbered automaton is deterministic just if the first one is. -/
theorem isDeterministic_eq (h : Renumbers f A B) : A.isDeterministic = B.isDeterministic := by
  rw [Bool.eq_iff_iff, isDeterministic_iff, isDeterministic_iff]
  constructor
  · intro hdet p a q r hq hr
    rcases h.exists_eq (source_lt_of_mem_targets hq) with ⟨p, hp, rfl⟩
    rcases (h.mem_targets_iff hp a).mp hq with ⟨q, hpq, rfl⟩
    rcases (h.mem_targets_iff hp a).mp hr with ⟨r, hpr, rfl⟩
    exact congrArg f (hdet p a q r hpq hpr)
  · intro hdet p a q r hq hr
    have hp := source_lt_of_mem_targets hq
    have hfq := (h.mem_targets_iff hp a).mpr ⟨q, hq, rfl⟩
    have hfr := (h.mem_targets_iff hp a).mpr ⟨r, hr, rfl⟩
    exact h.bijOn.injOn (A.target_lt hq) (A.target_lt hr) (hdet _ a _ _ hfq hfr)

end Renumbers

end FormalLang.Automaton
