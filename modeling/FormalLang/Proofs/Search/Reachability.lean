import FormalLang.Search
import Mathlib.Data.List.Perm.Subperm
import Mathlib.Logic.Relation

/-!
# What a search finds

A breadth-first search with enough fuel finds what its edges lead to, nothing
more and nothing twice.  The proof follows the queue: at every visit the marked
vertices are those visited before, whose edges lead to marked vertices only,
and those that wait.

Main results:

- Theorem `Search.run_reached_iff`: a search succeeds exactly when a goal can be
  reached from its start.
- Theorem `Search.mem_found_run_iff`: a search without success has found exactly
  the vertices that can be reached.
- Theorem `Search.nodup_found_run`: it has found each of them once.
-/

namespace FormalLang.Search

variable {σ ℓ : Type}

/-! ## Reachable vertices -/

/-- An edge leads from one vertex to another. -/
def Adjacent (edges : σ → List (ℓ × σ)) (u v : σ) : Prop :=
  ∃ a, (a, v) ∈ edges u

/-- Edges lead from one vertex to another in any number of steps. -/
def Reachable (edges : σ → List (ℓ × σ)) : σ → σ → Prop :=
  Relation.ReflTransGen (Adjacent edges)

/-- A set of vertices that edges do not leave holds all that can be reached
from its members. -/
theorem Reachable.mem_of_closed {edges : σ → List (ℓ × σ)} {S : List σ} {u v : σ}
    (huv : Reachable edges u v) (hu : u ∈ S)
    (hclosed : ∀ x ∈ S, ∀ y, Adjacent edges x y → y ∈ S) : v ∈ S := by
  induction huv with
  | refl => exact hu
  | tail _ hxy ih => exact hclosed _ ih _ hxy

/-- The vertices that a search came across, its start first. -/
def found (start : σ) (outcome : Outcome σ ℓ) : List σ :=
  start :: outcome.discoveries.map Discovery.target

variable [Ord σ] [Std.TransOrd σ] [Std.LawfulEqOrd σ]

/-! ## New vertices -/

/-- The new vertices of a list of edges are the ends that are not marked. -/
theorem mem_targets_unmarked {marked : Std.TreeSet σ} {edges : List (ℓ × σ)} {v : σ} :
    v ∈ (unmarked marked edges).map Prod.snd ↔ v ∉ marked ∧ ∃ a, (a, v) ∈ edges := by
  induction edges generalizing marked with
  | nil => simp [unmarked]
  | cons edge edges ih =>
      rcases edge with ⟨b, u⟩
      by_cases hu : u ∈ marked
      · rw [unmarked, if_pos hu, ih]
        constructor
        · intro h
          rcases h with ⟨hv, a, ha⟩
          exact ⟨hv, a, List.mem_cons_of_mem _ ha⟩
        · intro h
          rcases h with ⟨hv, a, ha⟩
          rcases List.mem_cons.mp ha with heq | ha
          · cases heq
            exact (hv hu).elim
          · exact ⟨hv, a, ha⟩
      · rw [unmarked, if_neg hu, List.map_cons, List.mem_cons, ih, Std.TreeSet.mem_insert,
          Std.LawfulEqOrd.compare_eq_iff_eq]
        constructor
        · intro h
          rcases h with rfl | ⟨hv, a, ha⟩
          · exact ⟨hu, b, List.mem_cons_self⟩
          · exact ⟨fun hmem => hv (Or.inr hmem), a, List.mem_cons_of_mem _ ha⟩
        · intro h
          rcases h with ⟨hv, a, ha⟩
          by_cases huv : u = v
          · exact Or.inl huv.symm
          · rcases List.mem_cons.mp ha with heq | ha
            · cases heq
              exact (huv rfl).elim
            · exact Or.inr ⟨fun h => h.elim huv hv, a, ha⟩

theorem nodup_targets_unmarked (marked : Std.TreeSet σ) (edges : List (ℓ × σ)) :
    ((unmarked marked edges).map Prod.snd).Nodup := by
  induction edges generalizing marked with
  | nil => exact List.nodup_nil
  | cons edge edges ih =>
      rcases edge with ⟨b, u⟩
      rw [unmarked]
      split
      · exact ih marked
      · refine List.nodup_cons.mpr ⟨?_, ih _⟩
        intro hmem
        have hnot := (mem_targets_unmarked.mp hmem).1
        exact hnot (Std.TreeSet.mem_insert.mpr (Or.inl Std.ReflOrd.compare_self))

/-! ## The queue -/

/-- A search between two visits: `done` has been visited and `queue` waits.
Both together are marked, no vertex is there twice, all can be reached, and the
edges of what was visited lead to marked vertices. -/
structure Frontier (edges : σ → List (ℓ × σ)) (start : σ) (done queue : List σ)
    (marked : Std.TreeSet σ) : Prop where
  mem_marked_iff : ∀ v, v ∈ marked ↔ v ∈ done ++ queue
  nodup : (done ++ queue).Nodup
  start_mem : start ∈ done ++ queue
  reachable : ∀ v ∈ done ++ queue, Reachable edges start v
  closed : ∀ u ∈ done, ∀ v, Adjacent edges u v → v ∈ done ++ queue

theorem Frontier.initial (edges : σ → List (ℓ × σ)) (start : σ) :
    Frontier edges start [] [start] (markAll ∅ [start]) where
  mem_marked_iff v := by simp [mem_markAll]
  nodup := by simp
  start_mem := List.mem_cons_self
  reachable v hv := by
    rw [List.nil_append, List.mem_singleton] at hv
    exact hv ▸ Relation.ReflTransGen.refl
  closed u hu := by simp at hu

/-- Visiting the first vertex of the queue puts its new neighbours at the end. -/
theorem Frontier.step {edges : σ → List (ℓ × σ)} {start v : σ} {done queue : List σ}
    {marked : Std.TreeSet σ} (h : Frontier edges start done (v :: queue) marked) :
    Frontier edges start (done ++ [v])
      (queue ++ (unmarked marked (edges v)).map Prod.snd)
      (markAll marked ((unmarked marked (edges v)).map Prod.snd)) := by
  have hsplit : (done ++ [v]) ++ (queue ++ (unmarked marked (edges v)).map Prod.snd) =
      (done ++ v :: queue) ++ (unmarked marked (edges v)).map Prod.snd := by simp
  have hnew : ∀ u ∈ (unmarked marked (edges v)).map Prod.snd, u ∉ done ++ v :: queue := by
    intro u hu
    rw [← h.mem_marked_iff]
    exact (mem_targets_unmarked.mp hu).1
  refine ⟨?_, ?_, ?_, ?_, ?_⟩
  · intro u
    rw [hsplit, mem_markAll, h.mem_marked_iff, List.mem_append (s := done ++ v :: queue)]
  · rw [hsplit, List.nodup_append]
    refine ⟨h.nodup, nodup_targets_unmarked marked (edges v), ?_⟩
    intro a ha b hb hab
    exact hnew b hb (hab ▸ ha)
  · rw [hsplit]
    exact List.mem_append_left _ h.start_mem
  · rw [hsplit]
    intro u hu
    rcases List.mem_append.mp hu with hu | hu
    · exact h.reachable u hu
    · have hv : Reachable edges start v := h.reachable v (by simp)
      exact hv.tail (mem_targets_unmarked.mp hu).2
  · rw [hsplit]
    intro u hu w hw
    rcases List.mem_append.mp hu with hu | hu
    · exact List.mem_append_left _ (h.closed u hu w hw)
    · rw [List.mem_singleton] at hu
      subst hu
      by_cases hmem : w ∈ marked
      · exact List.mem_append_left _ ((h.mem_marked_iff w).mp hmem)
      · exact List.mem_append_right _ (mem_targets_unmarked.mpr ⟨hmem, hw⟩)

omit [Std.TransOrd σ] [Std.LawfulEqOrd σ] in
/-- When nothing waits any more, everything that can be reached was visited. -/
theorem Frontier.mem_done {edges : σ → List (ℓ × σ)} {start v : σ} {done : List σ}
    {marked : Std.TreeSet σ} (h : Frontier edges start done [] marked)
    (hv : Reachable edges start v) : v ∈ done := by
  have hstart : start ∈ done := by simpa using h.start_mem
  refine hv.mem_of_closed hstart fun x hx y hxy => ?_
  simpa using h.closed x hx y hxy

/-! ## Enough fuel -/

/-- No more than so many vertices can be reached. -/
def ReachesAtMost (edges : σ → List (ℓ × σ)) (start : σ) (bound : Nat) : Prop :=
  ∀ l : List σ, l.Nodup → (∀ v ∈ l, Reachable edges start v) → l.length ≤ bound

omit [Ord σ] [Std.TransOrd σ] [Std.LawfulEqOrd σ] in
/-- A list that edges do not leave is longer than any list of distinct vertices
that can be reached from its members. -/
theorem reachesAtMost_of_closed {edges : σ → List (ℓ × σ)} {start : σ} {vertices : List σ}
    (hstart : start ∈ vertices) (hclosed : ∀ x ∈ vertices, ∀ y, Adjacent edges x y → y ∈ vertices) :
    ReachesAtMost edges start vertices.length := by
  intro l hl hreach
  have hsubset : l ⊆ vertices := fun v hv => (hreach v hv).mem_of_closed hstart hclosed
  exact (List.subperm_of_subset hl hsubset).length_le

omit [Ord σ] [Std.TransOrd σ] [Std.LawfulEqOrd σ] in
theorem ReachesAtMost.mono {edges : σ → List (ℓ × σ)} {start : σ} {bound bound' : Nat}
    (h : ReachesAtMost edges start bound) (hle : bound ≤ bound') :
    ReachesAtMost edges start bound' := by
  intro l hl hreach
  exact Nat.le_trans (h l hl hreach) hle

omit [Std.TransOrd σ] [Std.LawfulEqOrd σ] in
/-- As long as a vertex waits, enough fuel is left to visit it. -/
theorem Frontier.exists_fuel {edges : σ → List (ℓ × σ)} {start v : σ} {done queue : List σ}
    {marked : Std.TreeSet σ} (h : Frontier edges start done (v :: queue) marked) {fuel : Nat}
    (hfuel : ReachesAtMost edges start (done.length + fuel)) :
    ∃ rest, fuel = rest + 1 ∧ ReachesAtMost edges start ((done ++ [v]).length + rest) := by
  have hlen := hfuel _ h.nodup h.reachable
  rw [List.length_append, List.length_cons] at hlen
  refine ⟨fuel - 1, by omega, hfuel.mono ?_⟩
  rw [List.length_append, List.length_singleton]
  omega

/-- What a search comes to when the vertices of `known` were marked before it. -/
structure Explores (edges : σ → List (ℓ × σ)) (goal : σ → Bool) (start : σ) (known : List σ)
    (outcome : Outcome σ ℓ) : Prop where
  goal_of_reached : outcome.reached = true → ∃ v, Reachable edges start v ∧ goal v = true
  no_goal : outcome.reached = false → ∀ v, Reachable edges start v → goal v = false
  complete : outcome.reached = false → ∀ v, Reachable edges start v →
    v ∈ known ++ outcome.discoveries.map Discovery.target
  nodup : (known ++ outcome.discoveries.map Discovery.target).Nodup
  edge : ∀ d ∈ outcome.discoveries,
    Reachable edges start d.source ∧ (d.label, d.target) ∈ edges d.source

omit [Std.TransOrd σ] [Std.LawfulEqOrd σ] in
theorem Frontier.explores {edges : σ → List (ℓ × σ)} {goal : σ → Bool} {start : σ}
    {done : List σ} {marked : Std.TreeSet σ} (h : Frontier edges start done [] marked)
    (hgoal : ∀ u ∈ done, goal u = false) :
    Explores edges goal start (done ++ []) (⟨false, []⟩ : Outcome σ ℓ) where
  goal_of_reached hreached := by simp at hreached
  no_goal _ v hv := hgoal v (h.mem_done hv)
  complete _ v hv := by simpa using h.mem_done hv
  nodup := by simpa using h.nodup
  edge d hd := by simp at hd

omit [Std.TransOrd σ] [Std.LawfulEqOrd σ] in
theorem visit_nil (edges : σ → List (ℓ × σ)) (goal : σ → Bool) (fuel : Nat)
    (marked : Std.TreeSet σ) : visit edges goal fuel [] marked = ⟨false, []⟩ := by
  cases fuel with
  | zero => rfl
  | succ fuel => rfl

omit [Std.TransOrd σ] [Std.LawfulEqOrd σ] in
/-- A visit to a vertex that is no goal finds its new neighbours first. -/
theorem targets_visit_cons (edges : σ → List (ℓ × σ)) {goal : σ → Bool} (fuel : Nat) {v : σ}
    (queue : List σ) (marked : Std.TreeSet σ) (hgoal : goal v = false) :
    (visit edges goal (fuel + 1) (v :: queue) marked).discoveries.map Discovery.target =
      (unmarked marked (edges v)).map Prod.snd ++
        (visit edges goal fuel (queue ++ (unmarked marked (edges v)).map Prod.snd)
          (markAll marked ((unmarked marked (edges v)).map Prod.snd))).discoveries.map
            Discovery.target := by
  rw [visit, if_neg (by simp [hgoal])]
  simp only [List.map_append, List.map_map]
  rfl

omit [Std.TransOrd σ] [Std.LawfulEqOrd σ] in
/-- After a visit to a vertex that is no goal, the rest of the search decides about success. -/
theorem reached_visit_cons (edges : σ → List (ℓ × σ)) {goal : σ → Bool} (fuel : Nat) {v : σ}
    (queue : List σ) (marked : Std.TreeSet σ) (hgoal : goal v = false) :
    (visit edges goal (fuel + 1) (v :: queue) marked).reached =
      (visit edges goal fuel (queue ++ (unmarked marked (edges v)).map Prod.snd)
        (markAll marked ((unmarked marked (edges v)).map Prod.snd))).reached := by
  rw [visit, if_neg (by simp [hgoal])]

omit [Std.LawfulEqOrd σ] in
/-- A visit to a vertex that is no goal passes on what the rest of the search
comes to. -/
theorem Explores.visit_cons {edges : σ → List (ℓ × σ)} {goal : σ → Bool} {start v : σ}
    {fuel : Nat} {done queue : List σ} {marked : Std.TreeSet σ}
    (h : Frontier edges start done (v :: queue) marked) (hgoal : goal v = false)
    (hrest : Explores edges goal start
      ((done ++ [v]) ++ (queue ++ (unmarked marked (edges v)).map Prod.snd))
      (visit edges goal fuel (queue ++ (unmarked marked (edges v)).map Prod.snd)
        (markAll marked ((unmarked marked (edges v)).map Prod.snd)))) :
    Explores edges goal start (done ++ v :: queue)
      (visit edges goal (fuel + 1) (v :: queue) marked) := by
  have hknown : ∀ new rest : List σ,
      (done ++ v :: queue) ++ (new ++ rest) =
        (done ++ [v]) ++ (queue ++ new) ++ rest := by simp
  have htargets := targets_visit_cons edges fuel queue marked hgoal
  have hreached := reached_visit_cons edges fuel queue marked hgoal
  refine ⟨?_, ?_, ?_, ?_, ?_⟩
  · rw [hreached]
    exact hrest.goal_of_reached
  · rw [hreached]
    exact hrest.no_goal
  · rw [hreached, htargets, hknown]
    exact hrest.complete
  · rw [htargets, hknown]
    exact hrest.nodup
  · rw [visit, if_neg (by simp [hgoal])]
    intro d hd
    rcases List.mem_append.mp hd with hd | hd
    · rcases List.mem_map.mp hd with ⟨edge, hedge, rfl⟩
      exact ⟨h.reachable v (by simp), (mem_unmarked hedge).1⟩
    · exact hrest.edge d hd

/-- A search that does not run out of fuel explores what can be reached.  By
induction on the fuel: each visit takes one unit and one vertex of the queue. -/
theorem explores_visit {edges : σ → List (ℓ × σ)} {goal : σ → Bool} {start : σ} {fuel : Nat}
    {done queue : List σ} {marked : Std.TreeSet σ}
    (h : Frontier edges start done queue marked) (hgoal : ∀ u ∈ done, goal u = false)
    (hfuel : ReachesAtMost edges start (done.length + fuel)) :
    Explores edges goal start (done ++ queue) (visit edges goal fuel queue marked) := by
  induction fuel generalizing done queue marked with
  | zero =>
      -- All the vertices allowed for are visited, so none can wait.
      cases queue with
      | nil => exact h.explores hgoal
      | cons v queue =>
          rcases h.exists_fuel hfuel with ⟨rest, hrest, -⟩
          contradiction
  | succ fuel ih =>
      cases queue with
      | nil => exact h.explores hgoal
      | cons v queue =>
          cases hgoal_v : goal v with
          | true =>
              have hv : Reachable edges start v := h.reachable v (by simp)
              rw [visit, if_pos hgoal_v]
              exact ⟨fun _ => ⟨v, hv, hgoal_v⟩, by simp, by simp, by simpa using h.nodup, by simp⟩
          | false =>
              rcases h.exists_fuel hfuel with ⟨rest, hrest, henough⟩
              cases hrest
              refine Explores.visit_cons h hgoal_v (ih h.step ?_ henough)
              intro u hu
              rcases List.mem_append.mp hu with hu | hu
              · exact hgoal u hu
              · rw [List.mem_singleton] at hu
                exact hu ▸ hgoal_v

/-! ## Whole searches -/

section Run

variable {edges : σ → List (ℓ × σ)} {goal : σ → Bool} {start : σ} {bound : Nat}

theorem explores_run (goal : σ → Bool) (hbound : ReachesAtMost edges start bound) :
    Explores edges goal start [start] (run edges goal bound start) :=
  explores_visit (Frontier.initial edges start) (by simp) (by simpa using hbound)

/-- A search succeeds exactly when a goal can be reached. -/
theorem run_reached_iff (hbound : ReachesAtMost edges start bound) :
    (run edges goal bound start).reached = true ↔
      ∃ v, Reachable edges start v ∧ goal v = true := by
  have hrun := explores_run goal hbound
  constructor
  · exact hrun.goal_of_reached
  · intro h
    rcases h with ⟨v, hv, hgoal⟩
    by_contra hreached
    rw [Bool.not_eq_true] at hreached
    rw [hrun.no_goal hreached v hv] at hgoal
    contradiction

/-- Whatever a search has found can be reached. -/
theorem reachable_of_mem_found_run (hbound : ReachesAtMost edges start bound) {v : σ}
    (hv : v ∈ found start (run edges goal bound start)) : Reachable edges start v := by
  rcases List.mem_cons.mp hv with rfl | hv
  · exact Relation.ReflTransGen.refl
  · rcases List.mem_map.mp hv with ⟨d, hd, rfl⟩
    rcases (explores_run goal hbound).edge d hd with ⟨hsource, hedge⟩
    exact hsource.tail ⟨d.label, hedge⟩

/-- A search for no goal finds exactly what can be reached. -/
theorem mem_found_run_iff (hbound : ReachesAtMost edges start bound)
    (hreached : (run edges goal bound start).reached = false) {v : σ} :
    v ∈ found start (run edges goal bound start) ↔ Reachable edges start v :=
  ⟨reachable_of_mem_found_run hbound, (explores_run goal hbound).complete hreached v⟩

/-- A search finds nothing twice. -/
theorem nodup_found_run (hbound : ReachesAtMost edges start bound) :
    (found start (run edges goal bound start)).Nodup :=
  (explores_run goal hbound).nodup

end Run

end FormalLang.Search
