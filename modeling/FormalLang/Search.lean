import Std.Data.TreeSet

/-!
# Breadth-first search

A search visits the vertices of a graph in the order in which they were
discovered, until it visits a goal or no vertex is left.  A vertex is marked
when it is discovered, so it is discovered once.

The search runs on fuel: the number of vertices it may visit.  As no vertex is
visited twice, the number of all vertices is enough.

Main results:

- Theorem `Search.mem_markAll`: what is marked after marking a list.
- Theorem `Search.mem_unmarked`: the edges kept are edges to vertices that
  were not marked.
-/

namespace FormalLang.Search

variable {σ ℓ : Type} [Ord σ]

/-- A vertex found by following a labelled edge out of another one. -/
structure Discovery (σ ℓ : Type) where
  source : σ
  label : ℓ
  target : σ
deriving DecidableEq

/-- What a search comes to: whether it visited a goal, and every discovery that
it made, in order. -/
structure Outcome (σ ℓ : Type) where
  reached : Bool
  discoveries : List (Discovery σ ℓ)

/-! ## Marks -/

/-- Mark the vertices of a list. -/
def markAll (marked : Std.TreeSet σ) (vertices : List σ) : Std.TreeSet σ :=
  vertices.foldl (fun marked v => marked.insert v) marked

theorem mem_markAll [Std.TransOrd σ] [Std.LawfulEqOrd σ] {marked : Std.TreeSet σ}
    {vertices : List σ} {v : σ} :
    v ∈ markAll marked vertices ↔ v ∈ marked ∨ v ∈ vertices := by
  induction vertices generalizing marked with
  | nil => simp [markAll]
  | cons u vertices ih =>
      have hstep : markAll marked (u :: vertices) = markAll (marked.insert u) vertices := rfl
      rw [hstep, ih, Std.TreeSet.mem_insert, Std.LawfulEqOrd.compare_eq_iff_eq, List.mem_cons,
        eq_comm, or_comm (a := v = u), or_assoc]

/-- The edges to vertices that are not yet marked, one for each such vertex. -/
def unmarked (marked : Std.TreeSet σ) : List (ℓ × σ) → List (ℓ × σ)
  | [] => []
  | (a, v) :: edges =>
      if v ∈ marked then unmarked marked edges
      else (a, v) :: unmarked (marked.insert v) edges

theorem mem_unmarked [Std.TransOrd σ] {marked : Std.TreeSet σ} {edges : List (ℓ × σ)}
    {e : ℓ × σ} (h : e ∈ unmarked marked edges) : e ∈ edges ∧ e.2 ∉ marked := by
  induction edges generalizing marked with
  | nil => simp [unmarked] at h
  | cons edge edges ih =>
      obtain ⟨a, v⟩ := edge
      by_cases hv : v ∈ marked
      · rw [unmarked, if_pos hv] at h
        exact ⟨List.mem_cons_of_mem _ (ih h).1, (ih h).2⟩
      · rw [unmarked, if_neg hv] at h
        rcases List.mem_cons.mp h with rfl | h
        · exact ⟨List.mem_cons_self, hv⟩
        · refine ⟨List.mem_cons_of_mem _ (ih h).1, fun hmem => (ih h).2 ?_⟩
          exact Std.TreeSet.mem_insert.mpr (Or.inr hmem)

/-! ## Visits -/

/-- Visit the vertices of the queue and those discovered from them. -/
def visit (edges : σ → List (ℓ × σ)) (goal : σ → Bool) :
    Nat → List σ → Std.TreeSet σ → Outcome σ ℓ
  | 0, _, _ => ⟨false, []⟩
  | _ + 1, [], _ => ⟨false, []⟩
  | fuel + 1, v :: queue, marked =>
      if goal v then ⟨true, []⟩
      else
        let new := unmarked marked (edges v)
        let targets := new.map Prod.snd
        let rest := visit edges goal fuel (queue ++ targets) (markAll marked targets)
        ⟨rest.reached, new.map (fun e => ⟨v, e.1, e.2⟩) ++ rest.discoveries⟩

/-- Search from a vertex, among at most `bound` vertices. -/
def run (edges : σ → List (ℓ × σ)) (goal : σ → Bool) (bound : Nat) (start : σ) :
    Outcome σ ℓ :=
  visit edges goal bound [start] (markAll ∅ [start])

end FormalLang.Search
