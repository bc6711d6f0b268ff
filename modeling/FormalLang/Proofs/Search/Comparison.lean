import FormalLang.Proofs.Search.Reachability
import Mathlib.Data.Set.Function

/-!
# Searches that come to the same

Any two bounds on the number of vertices that can be reached are as good as each other:
with enough fuel a search ends since its queue is empty.  And two graphs in which the
reachable vertices correspond to each other, with the same labels in the same order, are
searched in the same order.

Main results:

- Theorem `Search.visit_congr_fuel` and Theorem `Search.run_congr_bound`: what comes out
  does not depend on the fuel.
- Theorem `Search.found_run_map`: the vertices found when all of them have other names.
-/

namespace FormalLang.Search

variable {σ τ ℓ : Type} [Ord σ] [Std.TransOrd σ] [Std.LawfulEqOrd σ]

/-! ## The fuel -/

section Fuel

variable {edges : σ → List (ℓ × σ)} {goal : σ → Bool} {start : σ} {done queue : List σ}
  {marked : Std.TreeSet σ}

/-- With enough fuel, it does not matter how much there is.  By induction on the one fuel;
the other one is used up at the same pace. -/
theorem visit_congr_fuel {fuel fuel' : Nat} (h : Frontier edges start done queue marked)
    (hfuel : ReachesAtMost edges start (done.length + fuel))
    (hfuel' : ReachesAtMost edges start (done.length + fuel')) :
    visit edges goal fuel queue marked = visit edges goal fuel' queue marked := by
  induction fuel generalizing fuel' done queue marked with
  | zero =>
      cases queue with
      | nil => rw [visit_nil, visit_nil]
      | cons v queue =>
          rcases h.exists_fuel hfuel with ⟨rest, hrest, -⟩
          contradiction
  | succ fuel ih =>
      cases queue with
      | nil => rw [visit_nil, visit_nil]
      | cons v queue =>
          rcases h.exists_fuel hfuel with ⟨rest, hrest, henough⟩
          rcases h.exists_fuel hfuel' with ⟨rest', rfl, henough'⟩
          cases hrest
          simp only [visit, ih h.step henough henough']

theorem run_congr_bound {bound bound' : Nat} (h : ReachesAtMost edges start bound)
    (h' : ReachesAtMost edges start bound') :
    run edges goal bound start = run edges goal bound' start :=
  visit_congr_fuel (Frontier.initial edges start) (by simpa using h) (by simpa using h')

end Fuel

/-! ## Other names for the vertices -/

section Map

variable [Ord τ] [Std.TransOrd τ] [Std.LawfulEqOrd τ]

/-- A discovery, told with other names for the vertices. -/
def Discovery.map (code : σ → τ) (d : Discovery σ ℓ) : Discovery τ ℓ :=
  ⟨code d.source, d.label, code d.target⟩

/-- The edges out of a vertex, with other names for where they lead. -/
def mapEdges (code : σ → τ) (edges : List (ℓ × σ)) : List (ℓ × τ) :=
  edges.map fun e => (e.1, code e.2)

omit [Ord σ] [Std.TransOrd σ] [Std.LawfulEqOrd σ] [Ord τ] [Std.TransOrd τ]
  [Std.LawfulEqOrd τ] in
theorem map_snd_mapEdges (code : σ → τ) (edges : List (ℓ × σ)) :
    (mapEdges code edges).map Prod.snd = (edges.map Prod.snd).map code := by
  simp only [mapEdges, List.map_map, Function.comp_def]

omit [Ord σ] [Std.TransOrd σ] [Std.LawfulEqOrd σ] [Ord τ] [Std.TransOrd τ]
  [Std.LawfulEqOrd τ] in
theorem map_discovery_mapEdges (code : σ → τ) (v : σ) (edges : List (ℓ × σ)) :
    (mapEdges code edges).map (fun e => Discovery.mk (code v) e.1 e.2) =
      (edges.map fun e => Discovery.mk v e.1 e.2).map (Discovery.map code) := by
  simp only [mapEdges, List.map_map, Function.comp_def, Discovery.map]

variable {edges : σ → List (ℓ × σ)} {edges' : τ → List (ℓ × τ)} {goal : σ → Bool}
  {goal' : τ → Bool} {start : σ} {code : σ → τ} {marked : Std.TreeSet σ} {marked' : Std.TreeSet τ}

/-- The vertices that are marked in one search have the names of those that are marked in
the other one. -/
def SameMarks (edges : σ → List (ℓ × σ)) (start : σ) (code : σ → τ) (marked : Std.TreeSet σ)
    (marked' : Std.TreeSet τ) : Prop :=
  ∀ v, Reachable edges start v → (code v ∈ marked' ↔ v ∈ marked)

theorem SameMarks.markAll (hcode : Set.InjOn code {v | Reachable edges start v})
    (h : SameMarks edges start code marked marked') {vertices : List σ}
    (hvertices : ∀ v ∈ vertices, Reachable edges start v) :
    SameMarks edges start code (markAll marked vertices)
      (markAll marked' (vertices.map code)) := by
  intro v hv
  rw [mem_markAll, mem_markAll, h v hv]
  refine or_congr_right ?_
  rw [List.mem_map]
  constructor
  · intro hmem
    rcases hmem with ⟨u, hu, heq⟩
    exact hcode (hvertices u hu) hv heq ▸ hu
  · exact fun hmem => ⟨v, hmem, rfl⟩

/-- The same vertices are new. -/
theorem unmarked_map (hcode : Set.InjOn code {v | Reachable edges start v})
    (h : SameMarks edges start code marked marked') {list : List (ℓ × σ)}
    (hlist : ∀ e ∈ list, Reachable edges start e.2) :
    unmarked marked' (mapEdges code list) = mapEdges code (unmarked marked list) := by
  induction list generalizing marked marked' with
  | nil => rfl
  | cons e list ih =>
      rcases e with ⟨a, v⟩
      have hv : Reachable edges start v := hlist _ List.mem_cons_self
      have hrest : ∀ e ∈ list, Reachable edges start e.2 :=
        fun e he => hlist e (List.mem_cons_of_mem _ he)
      rw [mapEdges, List.map_cons, unmarked, unmarked]
      by_cases hmarked : v ∈ marked
      · rw [if_pos ((h v hv).mpr hmarked), if_pos hmarked]
        exact ih h hrest
      · rw [if_neg ((h v hv).not.mpr hmarked), if_neg hmarked, mapEdges, List.map_cons]
        have hinsert : SameMarks edges start code (markAll marked [v])
            (markAll marked' ([v].map code)) := h.markAll hcode (by simpa using hv)
        exact congrArg _ (ih hinsert hrest)

/-- A search goes through the vertices in the same order when they have other names.  By
induction on the fuel; the queues and the marks correspond at every visit. -/
theorem visit_map (hcode : Set.InjOn code {v | Reachable edges start v})
    (hedges : ∀ v, Reachable edges start v → edges' (code v) = mapEdges code (edges v))
    (hgoal : ∀ v, Reachable edges start v → goal' (code v) = goal v) (fuel : Nat)
    {queue : List σ} (hqueue : ∀ v ∈ queue, Reachable edges start v)
    (h : SameMarks edges start code marked marked') :
    visit edges' goal' fuel (queue.map code) marked' =
      ⟨(visit edges goal fuel queue marked).reached,
        (visit edges goal fuel queue marked).discoveries.map (Discovery.map code)⟩ := by
  induction fuel generalizing queue marked marked' with
  | zero => rfl
  | succ fuel ih =>
      cases queue with
      | nil => rfl
      | cons v queue =>
          have hv : Reachable edges start v := hqueue v List.mem_cons_self
          rw [List.map_cons, visit, visit, hgoal v hv]
          cases goal v with
          | true => rfl
          | false =>
              have hlist : ∀ e ∈ edges v, Reachable edges start e.2 :=
                fun e he => hv.tail ⟨e.1, he⟩
              have hnew : ∀ u ∈ (unmarked marked (edges v)).map Prod.snd,
                  Reachable edges start u :=
                fun u hu => hv.tail (mem_targets_unmarked.mp hu).2
              have hqueue' : ∀ u ∈ queue ++ (unmarked marked (edges v)).map Prod.snd,
                  Reachable edges start u := by
                intro u hu
                rcases List.mem_append.mp hu with hu | hu
                · exact hqueue u (List.mem_cons_of_mem _ hu)
                · exact hnew u hu
              have hrest := ih hqueue' (h.markAll hcode hnew)
              rw [List.map_append, ← map_snd_mapEdges] at hrest
              simp only [Bool.false_eq_true, if_false, hedges v hv, unmarked_map hcode h hlist,
                hrest, List.map_append, map_discovery_mapEdges]

/-- A search finds the same vertices, in the same order, when they have other names. -/
theorem found_run_map (hcode : Set.InjOn code {v | Reachable edges start v})
    (hedges : ∀ v, Reachable edges start v → edges' (code v) = mapEdges code (edges v))
    (hgoal : ∀ v, Reachable edges start v → goal' (code v) = goal v) (bound : Nat) :
    found (code start) (run edges' goal' bound (code start)) =
      (found start (run edges goal bound start)).map code := by
  have hstart : ∀ v ∈ [start], Reachable edges start v := by
    intro v hv
    rw [List.mem_singleton] at hv
    exact hv ▸ Relation.ReflTransGen.refl
  have hempty : SameMarks edges start code ∅ ∅ := by
    intro v _
    simp
  have hvisit := visit_map hcode hedges hgoal bound hstart (hempty.markAll hcode hstart)
  rw [List.map_singleton] at hvisit
  rw [found, run, hvisit, found, run, List.map_cons, List.map_map, List.map_map]
  rfl

end Map

end FormalLang.Search
