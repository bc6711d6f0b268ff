import FormalLang.Proofs.Search.Reachability

/-!
# Searches that end

A search that goes on as long as a vertex waits has no bound on the number of its rounds.
Every round takes a vertex off the queue, and none is put there twice.  So the search ends
when only finitely many vertices can be reached, and comes to what the search with enough
fuel does.

Main results:

- Theorem `Search.ends_run_iff`: a search without a bound ends as the search with enough fuel.
- Theorem `Search.mem_targets_run_iff`: what a search without success finds.
-/

namespace FormalLang.Search

/-! ## Searches without a bound -/

variable {σ ℓ : Type} [Ord σ] {edges : σ → List (ℓ × σ)} {goal : σ → Bool}

/-- A search that goes on as long as a vertex waits ends, and this is what it comes to: it
ends at once if the queue is empty or begins with a goal, and after a visit if the rest of
the search ends. -/
inductive Ends (edges : σ → List (ℓ × σ)) (goal : σ → Bool) :
    List σ → Std.TreeSet σ → Outcome σ ℓ → Prop
  | exhausted (marked : Std.TreeSet σ) : Ends edges goal [] marked ⟨false, []⟩
  | success {v : σ} (queue : List σ) (marked : Std.TreeSet σ) :
      goal v = true → Ends edges goal (v :: queue) marked ⟨true, []⟩
  | visit {v : σ} {queue : List σ} {marked : Std.TreeSet σ} {new : List (ℓ × σ)}
      {rest : Outcome σ ℓ} :
      goal v = false → new = unmarked marked (edges v) →
        Ends edges goal (queue ++ new.map Prod.snd) (markAll marked (new.map Prod.snd)) rest →
          Ends edges goal (v :: queue) marked
            ⟨rest.reached, new.map (fun e => ⟨v, e.1, e.2⟩) ++ rest.discoveries⟩

/-- A search ends in one way at most. -/
theorem Ends.unique {queue : List σ} {marked : Std.TreeSet σ} {outcome outcome' : Outcome σ ℓ}
    (h : Ends edges goal queue marked outcome) (h' : Ends edges goal queue marked outcome') :
    outcome = outcome' := by
  induction h generalizing outcome' with
  | exhausted marked =>
      cases h' with
      | exhausted => rfl
  | success queue marked hgoal =>
      cases h' with
      | success => rfl
      | visit hgoal' _ _ =>
          rw [hgoal] at hgoal'
          contradiction
  | visit hgoal hnew _ ih =>
      cases h' with
      | success _ _ hgoal' =>
          rw [hgoal] at hgoal'
          contradiction
      | visit _ hnew' hrest' =>
          subst hnew hnew'
          rw [ih hrest']

variable [Std.TransOrd σ] [Std.LawfulEqOrd σ] {start : σ} {done queue : List σ}
  {marked : Std.TreeSet σ} {bound : Nat}

/-- A search with enough fuel is a search that ends.  By induction on the fuel, of which every
visit takes one unit. -/
theorem Frontier.ends {fuel : Nat} (h : Frontier edges start done queue marked)
    (hfuel : ReachesAtMost edges start (done.length + fuel)) :
    Ends edges goal queue marked (visit edges goal fuel queue marked) := by
  induction fuel generalizing done queue marked with
  | zero =>
      cases queue with
      | nil => exact .exhausted marked
      | cons v queue =>
          rcases h.exists_fuel hfuel with ⟨rest, hrest, -⟩
          contradiction
  | succ fuel ih =>
      cases queue with
      | nil => exact .exhausted marked
      | cons v queue =>
          rw [Search.visit]
          cases hgoal : goal v with
          | true => exact .success queue marked hgoal
          | false =>
              rcases h.exists_fuel hfuel with ⟨rest, hrest, henough⟩
              cases hrest
              exact .visit hgoal rfl (ih h.step henough)

/-- A search from a vertex ends, and comes to what the search with enough fuel does. -/
theorem ends_run_iff (hbound : ReachesAtMost edges start bound) {outcome : Outcome σ ℓ} :
    Ends edges goal [start] (markAll ∅ [start]) outcome ↔
      outcome = run edges goal bound start := by
  have hends : Ends edges goal [start] (markAll ∅ [start]) (run edges goal bound start) :=
    (Frontier.initial edges start).ends (by simpa using hbound)
  constructor
  · exact fun h => h.unique hends
  · exact fun h => h ▸ hends

/-! ## What is found -/

/-- The start of a search is marked before anything is found, so it is not found again. -/
theorem start_not_mem_targets_run (hbound : ReachesAtMost edges start bound) :
    start ∉ (run edges goal bound start).discoveries.map Discovery.target :=
  (List.nodup_cons.mp (nodup_found_run hbound)).1

theorem nodup_targets_run (hbound : ReachesAtMost edges start bound) :
    ((run edges goal bound start).discoveries.map Discovery.target).Nodup :=
  (List.nodup_cons.mp (nodup_found_run hbound)).2

/-- Whatever a search finds can be reached, and is not its start. -/
theorem reachable_of_mem_targets_run (hbound : ReachesAtMost edges start bound) {v : σ}
    (hv : v ∈ (run edges goal bound start).discoveries.map Discovery.target) :
    v ≠ start ∧ Reachable edges start v := by
  refine ⟨?_, reachable_of_mem_found_run hbound (List.mem_cons_of_mem start hv)⟩
  rintro rfl
  exact start_not_mem_targets_run hbound hv

/-- A search without success finds everything else that can be reached. -/
theorem mem_targets_run_iff (hbound : ReachesAtMost edges start bound)
    (hreached : (run edges goal bound start).reached = false) {v : σ} :
    v ∈ (run edges goal bound start).discoveries.map Discovery.target ↔
      v ≠ start ∧ Reachable edges start v := by
  refine ⟨reachable_of_mem_targets_run hbound, fun h => ?_⟩
  have hfound := (mem_found_run_iff hbound hreached).mpr h.2
  exact (List.mem_cons.mp hfound).resolve_left h.1

end FormalLang.Search
