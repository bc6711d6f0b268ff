import FormalLang.Proofs.Automaton.Acceptance
import Mathlib.Data.Fin.Tuple.Basic

/-!
# Accepting paths

A run over a word can be written down as the sequence of the states that it goes
through, one more than the word has symbols.  An automaton accepts a word when
there is such a sequence from its start to an accepting state, whether it is
walked along one path or read with the set of all states at once.

Main results:

- Theorem `Recognizer.run_iff_exists_path`: runs as sequences of states.
- Theorem `Recognizer.recognizes_eq_any_lastLive`: reading may stop at the first
  empty set of states.
- Theorem `Automaton.accepts_iff_exists_path`: acceptance is the existence of an
  accepting path.
-/

namespace FormalLang

namespace Recognizer

variable {σ : Type} {M : Recognizer σ}

/-! ## Runs as sequences of states -/

/-- A sequence of states, each of which leads to the next one by a symbol of a
word. -/
def IsPath (M : Recognizer σ) (w : Word) (path : Fin (w.length + 1) → σ) : Prop :=
  ∀ i : Fin w.length, path i.succ ∈ M.next (path i.castSucc) (w.get i)

theorem isPath_cons_iff {a : Symbol} {w : Word} {p : σ} {path : Fin (w.length + 1) → σ} :
    M.IsPath (a :: w) (Fin.cons p path : Fin (w.length + 2) → σ) ↔
      path 0 ∈ M.next p a ∧ M.IsPath w path := by
  constructor
  · intro h
    exact ⟨h 0, fun i => h i.succ⟩
  · intro h i
    induction i using Fin.cases with
    | zero => exact h.1
    | succ i => exact h.2 i

/-- A run goes through the states of a path. -/
theorem run_iff_exists_path {p q : σ} {w : Word} :
    M.Run p w q ↔ ∃ path, M.IsPath w path ∧ path 0 = p ∧ path (Fin.last w.length) = q := by
  induction w generalizing p with
  | nil =>
      rw [run_nil_iff]
      constructor
      · rintro rfl
        exact ⟨fun _ => q, fun i => i.elim0, rfl, rfl⟩
      · intro h
        rcases h with ⟨path, -, rfl, rfl⟩
        rfl
  | cons a w ih =>
      simp only [run_cons_iff, ih]
      constructor
      · intro h
        rcases h with ⟨_, hnext, path, hpath, rfl, rfl⟩
        exact ⟨Fin.cons p path, isPath_cons_iff.mpr ⟨hnext, hpath⟩, rfl, rfl⟩
      · intro h
        rcases h with ⟨path, hpath, rfl, rfl⟩
        rw [← Fin.cons_self_tail path, isPath_cons_iff] at hpath
        exact ⟨_, hpath.1, Fin.tail path, hpath.2, rfl, rfl⟩

/-! ## Stopping early -/

section LastLive

variable [DecidableEq σ]

/-- The last of the sets of states that reading a word goes through, up to the
first that is empty. -/
def lastLive (M : Recognizer σ) (live : OrderedSet σ) (w : Word) : OrderedSet σ :=
  ((M.liveSets live w).getLast?.map Prod.snd).getD live

theorem lastLive_cons (live : OrderedSet σ) (a : Symbol) (w : Word) :
    M.lastLive live (a :: w) =
      if (M.step live a).toList.isEmpty then M.step live a else M.lastLive (M.step live a) w := by
  rw [lastLive, liveSets, List.getLast?_cons]
  split
  · rfl
  · rw [lastLive]
    cases (M.liveSets (M.step live a) w).getLast? <;> rfl

/-- Where reading stops early, no state would be left at the end either. -/
theorem any_foldl_step_eq (live : OrderedSet σ) (w : Word) :
    (w.foldl M.step live).toList.any M.final = (M.lastLive live w).toList.any M.final := by
  induction w generalizing live with
  | nil => rfl
  | cons a w ih =>
      rw [List.foldl_cons, lastLive_cons]
      split
      · rename_i hempty
        rw [List.isEmpty_iff] at hempty
        have hnone : (w.foldl M.step (M.step live a)).toList = [] := by
          apply List.eq_nil_iff_forall_not_mem.mpr
          intro q hq
          rcases mem_foldl_step.mp hq with ⟨p, hp, -⟩
          rw [← OrderedSet.mem_toList, hempty] at hp
          exact List.not_mem_nil hp
        rw [hnone, hempty]
      · exact ih _

/-- Reading may stop at the first empty set of states. -/
theorem recognizes_eq_any_lastLive (M : Recognizer σ) (w : Word) :
    M.recognizes w = (M.lastLive (.ofList [M.start]) w).toList.any M.final :=
  any_foldl_step_eq _ w

end LastLive

end Recognizer

namespace Automaton

variable {A : Automaton} {w : Word}

/-! ## Paths of automata -/

/-- The states of an automaton from its start to an accepting state, each leading
to the next one by a symbol of a word. -/
structure IsAcceptingPath (A : Automaton) (w : Word) (path : Fin (w.length + 1) → Nat) :
    Prop where
  state_lt : ∀ i, path i < A.states.length
  start : path 0 = A.start
  move : ∀ i : Fin w.length, path i.succ ∈ A.targets (path i.castSucc) (w.get i)
  accepting : path (Fin.last w.length) ∈ A.accepting

/-- A path from the start goes through states only. -/
theorem path_lt {path : Fin (w.length + 1) → Nat} (hstart : path 0 = A.start)
    (hpath : A.recognizer.IsPath w path) (i : Fin (w.length + 1)) : path i < A.states.length := by
  induction i using Fin.cases with
  | zero =>
      rw [hstart]
      exact A.wellFormed.start_lt
  | succ i => exact A.target_lt (hpath i)

theorem acceptsFrom_start_iff_exists_path :
    A.recognizer.AcceptsFrom A.start w ↔ ∃ path, A.IsAcceptingPath w path := by
  constructor
  · intro h
    rcases h with ⟨q, hrun, hfinal⟩
    rcases Recognizer.run_iff_exists_path.mp hrun with ⟨path, hpath, hstart, rfl⟩
    exact ⟨path, path_lt hstart hpath, hstart, hpath, isAccepting_iff.mp hfinal⟩
  · intro h
    rcases h with ⟨path, hpath⟩
    exact ⟨_, Recognizer.run_iff_exists_path.mpr ⟨path, hpath.move, hpath.start, rfl⟩,
      isAccepting_iff.mpr hpath.accepting⟩

/-- The only path of a deterministic automaton and the sets of states of its
recognizer give the same answer. -/
theorem followPath_eq_recognizes (hdet : A.isDeterministic = true) (w : Word) :
    A.followPath A.start w = A.recognizer.recognizes w := by
  rw [Bool.eq_iff_iff, followPath_iff hdet, Recognizer.recognizes_iff, recognizer_start]

/-- An automaton accepts a word exactly when some path over the word leads from
its start to an accepting state.  The sets of states tell this for every
automaton, also if reading stops at the first empty one, and the only path of a
deterministic automaton gives the same answer. -/
theorem accepts_iff_exists_path (A : Automaton) (w : Word) :
    (A.accepts w = true ↔ ∃ path, A.IsAcceptingPath w path) ∧
      A.recognizer.recognizes w =
        (A.recognizer.lastLive (.ofList [A.start]) w).toList.any A.isAccepting ∧
      (A.recognizer.recognizes w = true ↔ ∃ path, A.IsAcceptingPath w path) ∧
      (A.isDeterministic = true → A.followPath A.start w = A.recognizer.recognizes w) := by
  refine ⟨?_, A.recognizer.recognizes_eq_any_lastLive w, ?_, fun hdet => ?_⟩
  · rw [accepts_iff, acceptsFrom_start_iff_exists_path]
  · rw [Recognizer.recognizes_iff, recognizer_start, acceptsFrom_start_iff_exists_path]
  · exact followPath_eq_recognizes hdet w

/-- The only symbol of `singleArrow`. -/
def arrowLetter : Symbol :=
  ⟨"b", by decide⟩

/-- An automaton with an arrow from its start to an accepting state, which leads
no further. -/
def singleArrow : Automaton :=
  Automaton.ofArrows
    { states := [⟨"p", by simp⟩, ⟨"q", by simp⟩]
      alphabet := .ofList [arrowLetter]
      start := 0
      accepting := .ofList [1]
      transitions := .empty }
    (by decide) (by decide) [⟨0, arrowLetter, 1⟩]
    (by
      intro e he
      rw [List.mem_singleton] at he
      subst he
      exact ⟨by decide, by decide, by decide⟩)

/-- One letter leads along a path, and both ways of reading get stuck at a second
one. -/
theorem singleArrow_accepts_letter :
    singleArrow.isDeterministic = true ∧
      (∃ path, singleArrow.IsAcceptingPath [arrowLetter] path) ∧
        singleArrow.followPath singleArrow.start [arrowLetter, arrowLetter] =
          singleArrow.recognizer.recognizes [arrowLetter, arrowLetter] := by
  have hdet : singleArrow.isDeterministic = true := by decide
  have haccepts : singleArrow.accepts [arrowLetter] = true := by decide
  exact ⟨hdet, (accepts_iff_exists_path _ _).1.mp haccepts,
    (accepts_iff_exists_path _ _).2.2.2 hdet⟩

end Automaton
end FormalLang
