import FormalLang.Recognizer.Basic

/-!
# The language of a recognizer

Reading a word with the set of all states at once comes to the same as looking
for one run that ends in a final state.  Runs begin with their first symbol, so
the words accepted from a state are described by those accepted from its
successors, and two recognizers are compared by an induction on words.

Main results:

- Theorem `Recognizer.mem_reached_iff`: the states kept after a word are the
  ends of the runs over it.
- Theorem `Recognizer.recognizes_iff`: a word is recognized exactly when it is
  accepted from the start.
- Theorem `Recognizer.acceptsFrom_map_iff`: a map of states that keeps moves and
  final states keeps the words accepted.
-/

namespace FormalLang.Recognizer

variable {σ τ : Type} {M : Recognizer σ} {N : Recognizer τ}

/-! ## Runs -/

@[simp]
theorem run_nil_iff {p q : σ} : M.Run p [] q ↔ q = p := by
  constructor
  · intro h
    cases h
    rfl
  · rintro rfl
    exact .nil q

theorem run_cons_iff {p r : σ} {a : Symbol} {w : Word} :
    M.Run p (a :: w) r ↔ ∃ q ∈ M.next p a, M.Run q w r := by
  constructor
  · intro h
    cases h with
    | cons hq hrun => exact ⟨_, hq, hrun⟩
  · intro h
    rcases h with ⟨q, hq, hrun⟩
    exact .cons hq hrun

/-- Reading a word can lead from a state to a final one. -/
def AcceptsFrom (M : Recognizer σ) (p : σ) (w : Word) : Prop :=
  ∃ q, M.Run p w q ∧ M.final q = true

@[simp]
theorem acceptsFrom_nil {p : σ} : M.AcceptsFrom p [] ↔ M.final p = true := by
  simp [AcceptsFrom]

theorem acceptsFrom_cons {p : σ} {a : Symbol} {w : Word} :
    M.AcceptsFrom p (a :: w) ↔ ∃ q ∈ M.next p a, M.AcceptsFrom q w := by
  constructor
  · intro h
    rcases h with ⟨r, hrun, hfinal⟩
    rcases run_cons_iff.mp hrun with ⟨q, hq, hrest⟩
    exact ⟨q, hq, r, hrest, hfinal⟩
  · intro h
    rcases h with ⟨q, hq, r, hrest, hfinal⟩
    exact ⟨r, run_cons_iff.mpr ⟨q, hq, hrest⟩, hfinal⟩

/-! ## Sets of states -/

section LiveSets

variable [DecidableEq σ]

theorem mem_step {live : OrderedSet σ} {a : Symbol} {q : σ} :
    q ∈ M.step live a ↔ ∃ p ∈ live, q ∈ M.next p a := by
  simp [step, List.mem_flatMap]

/-- The states kept after a word are those that runs from the first ones lead
to. -/
theorem mem_foldl_step {live : OrderedSet σ} {w : Word} {q : σ} :
    q ∈ w.foldl M.step live ↔ ∃ p ∈ live, M.Run p w q := by
  induction w generalizing live with
  | nil =>
      rw [List.foldl_nil]
      constructor
      · exact fun hq => ⟨q, hq, .nil q⟩
      · intro h
        rcases h with ⟨p, hp, hrun⟩
        rw [run_nil_iff] at hrun
        exact hrun ▸ hp
  | cons a w ih =>
      rw [List.foldl_cons, ih]
      constructor
      · intro h
        rcases h with ⟨r, hr, hrun⟩
        rcases mem_step.mp hr with ⟨p, hp, hnext⟩
        exact ⟨p, hp, .cons hnext hrun⟩
      · intro h
        rcases h with ⟨p, hp, hrun⟩
        rcases run_cons_iff.mp hrun with ⟨r, hnext, hrest⟩
        exact ⟨r, mem_step.mpr ⟨p, hp, hnext⟩, hrest⟩

theorem mem_reached_iff {w : Word} {q : σ} : q ∈ M.reached w ↔ M.Run M.start w q := by
  rw [reached, mem_foldl_step]
  constructor
  · intro h
    rcases h with ⟨p, hp, hrun⟩
    rw [OrderedSet.mem_ofList, List.mem_singleton] at hp
    exact hp ▸ hrun
  · exact fun hrun => ⟨M.start, by simp, hrun⟩

/-- A word is recognized exactly when a run over it leads from the start to a
final state. -/
theorem recognizes_iff {w : Word} : M.recognizes w = true ↔ M.AcceptsFrom M.start w := by
  rw [recognizes, List.any_eq_true]
  constructor
  · intro h
    rcases h with ⟨q, hq, hfinal⟩
    exact ⟨q, mem_reached_iff.mp hq, hfinal⟩
  · intro h
    rcases h with ⟨q, hrun, hfinal⟩
    exact ⟨q, mem_reached_iff.mpr hrun, hfinal⟩

end LiveSets

/-! ## Maps of states -/

/-- A map of states that keeps moves and final states keeps the words accepted.
Only the states of the first recognizer matter, which moves do not leave. -/
theorem acceptsFrom_map_iff {f : σ → τ}
    (hfinal : ∀ p ∈ M.states, N.final (f p) = M.final p)
    (hnext : ∀ p ∈ M.states, ∀ a r, r ∈ N.next (f p) a ↔ ∃ q ∈ M.next p a, f q = r)
    {p : σ} (hp : p ∈ M.states) {w : Word} :
    N.AcceptsFrom (f p) w ↔ M.AcceptsFrom p w := by
  induction w generalizing p with
  | nil => rw [acceptsFrom_nil, acceptsFrom_nil, hfinal p hp]
  | cons a w ih =>
      rw [acceptsFrom_cons, acceptsFrom_cons]
      constructor
      · intro h
        rcases h with ⟨r, hr, haccepts⟩
        rcases (hnext p hp a r).mp hr with ⟨q, hq, rfl⟩
        exact ⟨q, hq, (ih (M.next_mem p a q hq)).mp haccepts⟩
      · intro h
        rcases h with ⟨q, hq, haccepts⟩
        exact ⟨f q, (hnext p hp a (f q)).mpr ⟨q, hq, rfl⟩, (ih (M.next_mem p a q hq)).mpr haccepts⟩

end FormalLang.Recognizer
