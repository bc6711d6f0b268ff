import FormalLang.Automaton.Acceptance
import FormalLang.Proofs.Automaton.Transitions
import FormalLang.Proofs.Recognizer.Language

/-!
# Acceptance of words

A deterministic automaton is walked along one path and any other one is read as
a recognizer.  Both answers say whether a run leads to an accepting state.

Main results:

- Theorem `Automaton.accepts_iff`: an automaton accepts a word exactly when its
  recognizer accepts it from the start.
- Theorem `Automaton.accepts_eq_of_acceptsFrom_iff`: automata whose recognizers
  accept the same words from their starts accept the same words.
-/

namespace FormalLang.Automaton

variable {A B : Automaton}

@[simp]
theorem recognizer_next (p : Nat) (a : Symbol) : A.recognizer.next p a = A.targets p a :=
  rfl

@[simp]
theorem recognizer_final (p : Nat) : A.recognizer.final p = A.isAccepting p :=
  rfl

@[simp]
theorem recognizer_start : A.recognizer.start = A.start :=
  rfl

@[simp]
theorem isAccepting_iff {p : Nat} : A.isAccepting p = true ↔ p ∈ A.accepting :=
  decide_eq_true_iff

/-- Following the only path accepts what some run accepts. -/
theorem followPath_iff (hdet : A.isDeterministic = true) {p : Nat} {w : Word} :
    A.followPath p w = true ↔ A.recognizer.AcceptsFrom p w := by
  induction w generalizing p with
  | nil => rw [followPath, Recognizer.acceptsFrom_nil, recognizer_final]
  | cons a w ih =>
      rw [followPath, Recognizer.acceptsFrom_cons, recognizer_next]
      cases htargets : A.targets p a with
      | nil => simp
      | cons q qs =>
          have hq : q ∈ A.targets p a := htargets ▸ List.mem_cons_self
          rw [ih]
          constructor
          · exact fun haccepts => ⟨q, List.mem_cons_self, haccepts⟩
          · intro h
            rcases h with ⟨r, hr, haccepts⟩
            have hqr : q = r := isDeterministic_iff.mp hdet p a q r hq (htargets ▸ hr)
            exact hqr ▸ haccepts

/-- Whichever way a word is read, it is accepted when a run over it leads from
the start to an accepting state. -/
theorem accepts_iff {w : Word} : A.accepts w = true ↔ A.recognizer.AcceptsFrom A.start w := by
  unfold accepts
  split
  · rename_i hdet
    exact followPath_iff hdet
  · exact Recognizer.recognizes_iff

theorem accepts_eq_of_acceptsFrom_iff {w : Word}
    (h : A.recognizer.AcceptsFrom A.start w ↔ B.recognizer.AcceptsFrom B.start w) :
    A.accepts w = B.accepts w := by
  rw [Bool.eq_iff_iff, accepts_iff, accepts_iff, h]

end FormalLang.Automaton
