import FormalLang.Proofs.Search.Reachability
import Mathlib.Data.List.Nodup
import Mathlib.Data.List.Shortlex

/-!
# The order in which a search finds vertices

The labels along a way from the start of a search to a vertex make a word.  When the edges out
of every vertex come in the order of their labels, the search finds the vertices in the order of
the least words that lead to them: shorter words stand first, and words of the same length stand
as in a dictionary.  The proof follows the queue with the words along which the vertices in it
were found.  A new vertex is found along a known word with one more label.  The known words are in
order, and this word stands behind all of them, since each of them is itself an earlier one with
one more label.

Main results:

- Theorem `Search.shortlex_concat`: one more label keeps words in order.
- Theorem `Search.InWordOrder.step`: a visit keeps the words in order.
- Theorem `Search.InWordOrder.isFirst`: in the end, each word is the least one to its vertex.
- Theorem `Search.exists_words_run`: the words along which a search finds its vertices.
-/

namespace FormalLang.Search

variable {σ ℓ : Type} {r : ℓ → ℓ → Prop}

/-! ## Words in order -/

theorem shortlex_trans [IsTrans ℓ r] {u v w : List ℓ} (huv : List.Shortlex r u v)
    (hvw : List.Shortlex r v w) : List.Shortlex r u w := by
  rw [List.shortlex_def] at huv hvw ⊢
  rcases huv with huv | ⟨huv, hlex⟩
  · rcases hvw with hvw | ⟨hvw, -⟩
    · exact Or.inl (huv.trans hvw)
    · exact Or.inl (hvw ▸ huv)
  · rcases hvw with hvw | ⟨hvw, hlex'⟩
    · exact Or.inl (huv ▸ hvw)
    · exact Or.inr ⟨huv.trans hvw, List.lex_trans (fun h h' => trans_of r h h') hlex hlex'⟩

/-- Words of the same length stand as in a dictionary, whatever label comes behind them. -/
theorem lex_concat {u v : List ℓ} (h : List.Lex r u v) (hlength : u.length = v.length) (a b : ℓ) :
    List.Lex r (u ++ [a]) (v ++ [b]) := by
  induction h with
  | nil => contradiction
  | cons _ ih => exact .cons (ih (Nat.succ.inj hlength))
  | rel hab => exact .rel hab

/-- One more label keeps words in order. -/
theorem shortlex_concat {u v : List ℓ} (h : List.Shortlex r u v) (a b : ℓ) :
    List.Shortlex r (u ++ [a]) (v ++ [b]) := by
  rcases List.shortlex_def.mp h with hlt | ⟨heq, hlex⟩
  · refine .of_length_lt ?_
    rw [List.length_append, List.length_append]
    exact Nat.add_lt_add_right hlt 1
  · refine .of_lex ?_ (lex_concat hlex heq a b)
    rw [List.length_append, List.length_append, heq]
    rfl

theorem shortlex_concat_self {a b : ℓ} (w : List ℓ) (h : r a b) :
    List.Shortlex r (w ++ [a]) (w ++ [b]) :=
  ((List.shortlex_singleton_iff a b).mpr h).append_left w

/-- A word with a property that stands before all other words with it. -/
structure IsFirst (before : List ℓ → List ℓ → Prop) (P : List ℓ → Prop) (w : List ℓ) : Prop where
  holds : P w
  eq_or_before : ∀ u, P u → w = u ∨ before w u

theorem IsFirst.unique {before : List ℓ → List ℓ → Prop} [Std.Asymm before] {P : List ℓ → Prop}
    {v w : List ℓ} (hv : IsFirst before P v) (hw : IsFirst before P w) : v = w := by
  rcases hv.eq_or_before w hw.holds with heq | hbefore
  · exact heq
  · exact ((hw.eq_or_before v hv.holds).resolve_right (asymm_of before hbefore)).symm

/-! ## Words to vertices -/

/-- The labels along a way from the start to a vertex. -/
inductive WordTo (edges : σ → List (ℓ × σ)) (start : σ) : List ℓ → σ → Prop
  | nil : WordTo edges start [] start
  | concat {w : List ℓ} {u v : σ} {a : ℓ} :
      WordTo edges start w u → (a, v) ∈ edges u → WordTo edges start (w ++ [a]) v

theorem wordTo_nil_iff {edges : σ → List (ℓ × σ)} {start v : σ} :
    WordTo edges start [] v ↔ v = start := by
  constructor
  · generalize hw : ([] : List ℓ) = w
    intro h
    cases h with
    | nil => rfl
    | concat _ _ => simp at hw
  · rintro rfl
    exact .nil

theorem wordTo_concat_iff {edges : σ → List (ℓ × σ)} {start v : σ} {w : List ℓ} {a : ℓ} :
    WordTo edges start (w ++ [a]) v ↔ ∃ u, WordTo edges start w u ∧ (a, v) ∈ edges u := by
  constructor
  · generalize hw : w ++ [a] = w'
    intro h
    cases h with
    | nil => simp at hw
    | concat hwu hedge =>
        rcases List.append_inj' hw rfl with ⟨rfl, hlabel⟩
        exact ⟨_, hwu, List.singleton_inj.mp hlabel ▸ hedge⟩
  · rintro ⟨u, hwu, hedge⟩
    exact .concat hwu hedge

theorem WordTo.reachable {edges : σ → List (ℓ × σ)} {start v : σ} {w : List ℓ}
    (h : WordTo edges start w v) : Reachable edges start v := by
  induction h with
  | nil => exact .refl
  | concat _ hedge ih => exact ih.tail ⟨_, hedge⟩

/-- A list of edges in the order of their labels. -/
def LabelsIncrease (r : ℓ → ℓ → Prop) (edges : List (ℓ × σ)) : Prop :=
  edges.Pairwise fun e f => r e.1 f.1

/-- A vertex with a word that leads to it. -/
structure Found (σ ℓ : Type) where
  word : List ℓ
  vertex : σ

/-- What is found by following an edge. -/
def Found.follow (x : Found σ ℓ) (e : ℓ × σ) : Found σ ℓ :=
  ⟨x.word ++ [e.1], e.2⟩

/-- A search between two visits, with the words along which it found the vertices: these words
are in order, and each of them is empty or goes on from a vertex that was visited.  A visited
vertex with one more edge makes no earlier word than the one that is known. -/
structure InWordOrder (edges : σ → List (ℓ × σ)) (r : ℓ → ℓ → Prop) (start : σ)
    (done queue : List (Found σ ℓ)) : Prop where
  pairwise : (done ++ queue).Pairwise fun x y => List.Shortlex r x.word y.word
  wordTo : ∀ x ∈ done ++ queue, WordTo edges start x.word x.vertex
  start_mem : ⟨[], start⟩ ∈ done ++ queue
  eq_nil_or_concat : ∀ x ∈ done ++ queue, x.word = [] ∨ ∃ p ∈ done, ∃ a, x.word = p.word ++ [a]
  edge : ∀ x ∈ done, ∀ e ∈ edges x.vertex, ∃ y ∈ done ++ queue, y.vertex = e.2 ∧
    (y.word = (x.follow e).word ∨ List.Shortlex r y.word (x.follow e).word)

variable {edges : σ → List (ℓ × σ)} {start : σ} {done queue : List (Found σ ℓ)} {x : Found σ ℓ}

theorem InWordOrder.initial (edges : σ → List (ℓ × σ)) (r : ℓ → ℓ → Prop) (start : σ) :
    InWordOrder edges r start [] [⟨[], start⟩] where
  pairwise := List.pairwise_singleton _ _
  wordTo x hx := by
    cases List.mem_singleton.mp hx
    exact .nil
  start_mem := List.mem_cons_self
  eq_nil_or_concat x hx := by
    cases List.mem_singleton.mp hx
    exact Or.inl rfl
  edge x hx := by simp at hx

/-- The word to a vertex that waits, with one more label, stands behind all known words: each of
them goes on from a vertex that was visited earlier. -/
theorem InWordOrder.shortlex_follow (h : InWordOrder edges r start done (x :: queue)) {y : Found σ ℓ}
    (hy : y ∈ done ++ x :: queue) (e : ℓ × σ) : List.Shortlex r y.word (x.follow e).word := by
  rcases h.eq_nil_or_concat y hy with hnil | ⟨p, hp, a, hpa⟩
  · rw [hnil]
    exact .of_length_lt (by simp [Found.follow])
  · rw [hpa]
    exact shortlex_concat ((List.pairwise_append.mp h.pairwise).2.2 p hp x List.mem_cons_self) a e.1

section Marks

variable [Ord σ] {marked : Std.TreeSet σ}

theorem unmarked_sublist (marked : Std.TreeSet σ) (list : List (ℓ × σ)) :
    (unmarked marked list).Sublist list := by
  induction list generalizing marked with
  | nil => exact .slnil
  | cons e list ih =>
      rw [unmarked]
      split
      · exact (ih _).cons _
      · exact (ih _).cons_cons _

variable [Std.TransOrd σ] [Std.LawfulEqOrd σ]

/-- Among the edges to a new vertex the first one is kept. -/
theorem exists_mem_unmarked {list : List (ℓ × σ)} (hlist : LabelsIncrease r list) {e : ℓ × σ}
    (he : e ∈ list) (hnew : e.2 ∉ marked) :
    ∃ f ∈ unmarked marked list, f.2 = e.2 ∧ (f.1 = e.1 ∨ r f.1 e.1) := by
  induction list generalizing marked with
  | nil => exact absurd he List.not_mem_nil
  | cons f list ih =>
      rcases List.pairwise_cons.mp hlist with ⟨hfirst, hrest⟩
      rw [unmarked]
      by_cases hf : f.2 ∈ marked
      · rw [if_pos hf]
        have hne : e ≠ f := fun heq => hnew (heq ▸ hf)
        exact ih hrest ((List.mem_cons.mp he).resolve_left hne) hnew
      · rw [if_neg hf]
        by_cases hsame : f.2 = e.2
        · refine ⟨f, List.mem_cons_self, hsame, ?_⟩
          rcases List.mem_cons.mp he with rfl | he
          · exact Or.inl rfl
          · exact Or.inr (hfirst e he)
        · have hne : e ≠ f := fun heq => hsame (heq ▸ rfl)
          have hnew' : e.2 ∉ marked.insert f.2 := by
            rw [Std.TreeSet.mem_insert, Std.LawfulEqOrd.compare_eq_iff_eq]
            exact fun h => h.elim hsame hnew
          rcases ih hrest ((List.mem_cons.mp he).resolve_left hne) hnew' with ⟨k, hk, hfirst⟩
          exact ⟨k, List.mem_cons_of_mem _ hk, hfirst⟩

/-! ## Visits -/

/-- The vertices that a visit to a vertex finds, with their words. -/
def newFound (edges : σ → List (ℓ × σ)) (marked : Std.TreeSet σ) (x : Found σ ℓ) :
    List (Found σ ℓ) :=
  (unmarked marked (edges x.vertex)).map x.follow

omit [Std.TransOrd σ] [Std.LawfulEqOrd σ] in
theorem map_vertex_newFound (edges : σ → List (ℓ × σ)) (marked : Std.TreeSet σ) (x : Found σ ℓ) :
    (newFound edges marked x).map Found.vertex =
      (unmarked marked (edges x.vertex)).map Prod.snd := by
  rw [newFound, List.map_map]
  rfl

/-- A visit keeps the words in order.  The new ones go on from the vertex that is visited, so they
stand behind all others, and among themselves in the order of their last labels. -/
theorem InWordOrder.step (hedges : LabelsIncrease r (edges x.vertex))
    (hmarked : ∀ v, v ∈ marked ↔ v ∈ (done ++ x :: queue).map Found.vertex)
    (h : InWordOrder edges r start done (x :: queue)) :
    InWordOrder edges r start (done ++ [x]) (queue ++ newFound edges marked x) := by
  have hsplit : (done ++ [x]) ++ (queue ++ newFound edges marked x) =
      (done ++ x :: queue) ++ newFound edges marked x := by simp
  refine ⟨?_, ?_, ?_, ?_, ?_⟩
  · rw [hsplit, List.pairwise_append]
    refine ⟨h.pairwise, ?_, ?_⟩
    · refine List.pairwise_map.mpr ((hedges.sublist (unmarked_sublist _ _)).imp ?_)
      exact fun hef => shortlex_concat_self x.word hef
    · intro y hy z hz
      rcases List.mem_map.mp hz with ⟨e, -, rfl⟩
      exact h.shortlex_follow hy e
  · rw [hsplit]
    intro y hy
    rcases List.mem_append.mp hy with hy | hy
    · exact h.wordTo y hy
    · rcases List.mem_map.mp hy with ⟨e, he, rfl⟩
      exact .concat (h.wordTo x (by simp)) (mem_unmarked he).1
  · rw [hsplit]
    exact List.mem_append_left _ h.start_mem
  · rw [hsplit]
    intro y hy
    rcases List.mem_append.mp hy with hy | hy
    · refine (h.eq_nil_or_concat y hy).imp_right ?_
      exact fun ⟨p, hp, hword⟩ => ⟨p, List.mem_append_left _ hp, hword⟩
    · rcases List.mem_map.mp hy with ⟨e, -, rfl⟩
      exact Or.inr ⟨x, by simp, e.1, rfl⟩
  · rw [hsplit]
    intro y hy e he
    rcases List.mem_append.mp hy with hy | hy
    · rcases h.edge y hy e he with ⟨z, hz, hword⟩
      exact ⟨z, List.mem_append_left _ hz, hword⟩
    · rw [List.mem_singleton] at hy
      subst hy
      by_cases hmem : e.2 ∈ marked
      · rcases List.mem_map.mp ((hmarked _).mp hmem) with ⟨z, hz, hvertex⟩
        exact ⟨z, List.mem_append_left _ hz, hvertex, Or.inr (h.shortlex_follow hz e)⟩
      · rcases exists_mem_unmarked hedges he hmem with ⟨f, hf, hvertex, hlabel⟩
        refine ⟨y.follow f, List.mem_append_right _ (List.mem_map_of_mem hf), hvertex, ?_⟩
        refine hlabel.imp (fun heq => ?_) (shortlex_concat_self y.word)
        rw [Found.follow, Found.follow, heq]

/-- A search that comes to no goal goes through all vertices in the order of their words.  By
induction on the fuel; a visit keeps the words in order. -/
theorem InWordOrder.exists_words_visit {goal : σ → Bool} {fuel : Nat}
    (h : InWordOrder edges r start done queue) (hedges : ∀ v, LabelsIncrease r (edges v))
    (hfrontier : Frontier edges start (done.map Found.vertex) (queue.map Found.vertex) marked)
    (hfuel : ReachesAtMost edges start ((done.map Found.vertex).length + fuel))
    (hreached : (visit edges goal fuel (queue.map Found.vertex) marked).reached = false) :
    ∃ all, InWordOrder edges r start all [] ∧
      all.map Found.vertex = (done ++ queue).map Found.vertex ++
        (visit edges goal fuel (queue.map Found.vertex) marked).discoveries.map
          Discovery.target := by
  induction fuel generalizing done queue marked with
  | zero =>
      cases queue with
      | nil => exact ⟨done, h, by simp [visit]⟩
      | cons x queue =>
          rcases hfrontier.exists_fuel hfuel with ⟨rest, hrest, -⟩
          contradiction
  | succ fuel ih =>
      cases queue with
      | nil => exact ⟨done, h, by simp [visit]⟩
      | cons x queue =>
          have hgoal : goal x.vertex = false := by
            rw [← Bool.not_eq_true]
            intro hgoal
            rw [List.map_cons, visit, if_pos hgoal] at hreached
            contradiction
          have hmarked : ∀ v, v ∈ marked ↔ v ∈ (done ++ x :: queue).map Found.vertex := by
            rw [List.map_append]
            exact hfrontier.mem_marked_iff
          have hdone : (done ++ [x]).map Found.vertex = done.map Found.vertex ++ [x.vertex] :=
            List.map_append
          have hqueue : (queue ++ newFound edges marked x).map Found.vertex =
              queue.map Found.vertex ++ (unmarked marked (edges x.vertex)).map Prod.snd := by
            rw [List.map_append, map_vertex_newFound]
          rcases hfrontier.exists_fuel hfuel with ⟨rest, hrest, henough⟩
          cases hrest
          rw [List.map_cons, reached_visit_cons _ _ _ _ hgoal, ← hqueue] at hreached
          rcases ih (h.step (hedges x.vertex) hmarked) (hqueue ▸ hdone ▸ hfrontier.step)
            (hdone ▸ henough) hreached with ⟨all, hall, hvertices⟩
          refine ⟨all, hall, ?_⟩
          rw [hvertices, List.map_cons, targets_visit_cons _ _ _ _ hgoal, ← hqueue,
            ← map_vertex_newFound]
          simp only [List.map_append, List.map_cons, List.append_assoc,
            List.cons_append, List.nil_append]

end Marks

/-! ## The end of a search -/

/-- When nothing waits any more, no word to a vertex stands before the one that is known.  By
induction on the word. -/
theorem InWordOrder.exists_not_after [IsTrans ℓ r] {all : List (Found σ ℓ)} {w : List ℓ} {v : σ}
    (h : InWordOrder edges r start all []) (hw : WordTo edges start w v) :
    ∃ x ∈ all, x.vertex = v ∧ (x.word = w ∨ List.Shortlex r x.word w) := by
  induction hw with
  | nil => exact ⟨_, by simpa using h.start_mem, rfl, Or.inl rfl⟩
  | @concat w u v a _ hedge ih =>
      rcases ih with ⟨x, hx, rfl, hword⟩
      rcases h.edge x hx _ hedge with ⟨y, hy, hvertex, hle⟩
      refine ⟨y, by simpa using hy, hvertex, ?_⟩
      have hfollow : (x.follow (a, v)).word = w ++ [a] ∨
          List.Shortlex r (x.follow (a, v)).word (w ++ [a]) :=
        hword.imp (fun heq => by rw [Found.follow, heq]) fun hlt => shortlex_concat hlt a a
      rcases hle with hle | hle
      · rwa [hle]
      · rcases hfollow with hfollow | hfollow
        · exact Or.inr (hfollow ▸ hle)
        · exact Or.inr (shortlex_trans hle hfollow)

/-- When nothing waits any more, each known word is the least one to its vertex. -/
theorem InWordOrder.isFirst [IsTrans ℓ r] {all : List (Found σ ℓ)}
    (h : InWordOrder edges r start all []) (hnodup : (all.map Found.vertex).Nodup)
    (hx : x ∈ all) :
    IsFirst (List.Shortlex r) (fun w => WordTo edges start w x.vertex) x.word where
  holds := h.wordTo x (by simpa using hx)
  eq_or_before w hw := by
    rcases h.exists_not_after hw with ⟨y, hy, hvertex, hword⟩
    rwa [List.inj_on_of_nodup_map hnodup hy hx hvertex] at hword

/-- A search that comes to no goal finds the vertices in the order of the least words that lead
to them. -/
theorem exists_words_run [Ord σ] [Std.TransOrd σ] [Std.LawfulEqOrd σ] [IsTrans ℓ r]
    {goal : σ → Bool} {bound : Nat} (hedges : ∀ v, LabelsIncrease r (edges v))
    (hbound : ReachesAtMost edges start bound)
    (hreached : (run edges goal bound start).reached = false) :
    ∃ all : List (Found σ ℓ),
      all.map Found.vertex = found start (run edges goal bound start) ∧
      (all.Pairwise fun x y => List.Shortlex r x.word y.word) ∧
      ∀ x ∈ all, IsFirst (List.Shortlex r) (fun w => WordTo edges start w x.vertex) x.word := by
  rcases (InWordOrder.initial edges r start).exists_words_visit hedges
    (Frontier.initial edges start) (by simpa using hbound) hreached with ⟨all, hall, hvertices⟩
  have hfound : all.map Found.vertex = found start (run edges goal bound start) := hvertices
  refine ⟨all, hfound, by simpa using hall.pairwise, fun x hx => hall.isFirst ?_ hx⟩
  rw [hfound]
  exact nodup_found_run hbound

end FormalLang.Search
