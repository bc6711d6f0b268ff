import FormalLang.Automaton.Subset
import FormalLang.Proofs.Automaton.Acceptance
import FormalLang.Proofs.Search.Reachability
import Mathlib.Data.List.Sublists

/-!
# The subset construction

The states of the determinized automaton stand for sets of states, and the
search that makes them runs until no set is new: there are no more sets than
sublists of the list of all states.  A set leads by a symbol to the set of all
successors of its members, if there are any, and therefore accepts the words
that some member accepts.

Main results:

- Theorem `Automaton.mem_subsets_iff`: the sets made are those that can be
  reached from the start.
- Theorem `Automaton.mem_targets_determinize_iff`: one set leads to another
  exactly when it is the set of successors.
- Theorem `Automaton.determinize_acceptsFrom_iff`: a set accepts what one of its
  members accepts.
- Theorem `Automaton.determinize_preserves_language`: the result is
  deterministic and accepts the same words.
-/

namespace FormalLang.Automaton

variable {A : Automaton}

/-! ## Successors -/

theorem mem_successors_iff {X : List Nat} {a : Symbol} {q : Nat} :
    q ∈ A.successors X a ↔ ∃ p ∈ X, q ∈ A.targets p a := by
  simp only [successors, List.mem_filter, List.any_eq_true, decide_eq_true_eq, List.mem_range]
  constructor
  · intro h
    exact h.2
  · intro h
    rcases h with ⟨p, hp, hq⟩
    exact ⟨A.target_lt hq, p, hp, hq⟩

theorem successors_sublist (X : List Nat) (a : Symbol) :
    (A.successors X a).Sublist (List.range A.states.length) :=
  List.filter_sublist

/-- The edges out of a set lead to its successors, for each symbol that has
some. -/
theorem mem_subsetEdges_iff {X Y : List Nat} {a : Symbol} :
    (a, Y) ∈ A.subsetEdges X ↔ a ∈ A.alphabet ∧ Y = A.successors X a ∧ Y ≠ [] := by
  simp only [subsetEdges, List.mem_filterMap, Option.ite_none_left_eq_some, Option.some.injEq,
    Prod.mk.injEq, List.isEmpty_iff]
  constructor
  · intro h
    rcases h with ⟨b, hb, hne, rfl, rfl⟩
    exact ⟨hb, rfl, hne⟩
  · intro h
    rcases h with ⟨ha, rfl, hne⟩
    exact ⟨a, ha, hne, rfl, rfl⟩

/-- A set with a successor has the edge to its successors. -/
theorem mem_subsetEdges_of_mem_targets {X : List Nat} {a : Symbol} {p q : Nat} (hp : p ∈ X)
    (hq : q ∈ A.targets p a) : (a, A.successors X a) ∈ A.subsetEdges X := by
  have hmem : q ∈ A.successors X a := mem_successors_iff.mpr ⟨p, hp, hq⟩
  exact mem_subsetEdges_iff.mpr
    ⟨symbol_mem_of_mem_targets hq, rfl, List.ne_nil_of_mem hmem⟩

/-! ## The sets that are made -/

/-- There are no more sets than sublists of the list of all states. -/
theorem reachesAtMost_subsetEdges (A : Automaton) :
    Search.ReachesAtMost A.subsetEdges [A.start] (Nat.pow 2 A.states.length) := by
  have hstart : [A.start] ∈ (List.range A.states.length).sublists := by
    rw [List.mem_sublists, List.singleton_sublist]
    exact List.mem_range.mpr A.wellFormed.start_lt
  have hbound : Search.ReachesAtMost A.subsetEdges [A.start]
      (List.range A.states.length).sublists.length := by
    apply Search.reachesAtMost_of_closed hstart
    intro X hX Y hXY
    rcases hXY with ⟨a, hedge⟩
    rw [List.mem_sublists, (mem_subsetEdges_iff.mp hedge).2.1]
    exact successors_sublist X a
  rw [List.length_sublists, List.length_range] at hbound
  exact hbound

/-- The search for sets has no goal, so it ends when no set is left. -/
theorem subsetSearch_not_reached (A : Automaton) :
    (Search.run A.subsetEdges (fun _ => false) (Nat.pow 2 A.states.length) [A.start]).reached =
      false := by
  rw [← Bool.not_eq_true, Search.run_reached_iff A.reachesAtMost_subsetEdges]
  simp

theorem mem_subsets_iff {X : List Nat} :
    X ∈ A.subsets ↔ Search.Reachable A.subsetEdges [A.start] X :=
  Search.mem_found_run_iff A.reachesAtMost_subsetEdges A.subsetSearch_not_reached

theorem nodup_subsets (A : Automaton) : A.subsets.Nodup :=
  Search.nodup_found_run A.reachesAtMost_subsetEdges

/-- With a set, all the sets that its edges lead to are made. -/
theorem mem_subsets_of_mem_subsetEdges {X Y : List Nat} {a : Symbol} (hX : X ∈ A.subsets)
    (hedge : (a, Y) ∈ A.subsetEdges X) : Y ∈ A.subsets := by
  rw [mem_subsets_iff] at hX ⊢
  exact hX.tail ⟨a, hedge⟩

/-- A set stands at one place only. -/
theorem subsets_place_unique {X : List Nat} {i j : Nat} (hi : A.subsets[i]? = some X)
    (hj : A.subsets[j]? = some X) : i = j := by
  have hlt : i < A.subsets.length := (List.getElem?_eq_some_iff.mp hi).1
  exact (List.getElem?_inj hlt A.nodup_subsets).mp (hi.trans hj.symm)

/-! ## The determinized automaton -/

theorem mem_subsetArrows_iff {i j : Nat} {a : Symbol} :
    ⟨i, a, j⟩ ∈ A.subsetArrows A.subsets ↔
      ∃ X Y, A.subsets[i]? = some X ∧ (a, Y) ∈ A.subsetEdges X ∧ A.subsets[j]? = some Y := by
  simp only [subsetArrows, List.mem_flatMap, List.mem_filterMap, Option.ite_none_right_eq_some,
    Option.some.injEq, Arrow.mk.injEq]
  constructor
  · intro h
    rcases h with ⟨⟨X, k⟩, hX, ⟨b, Y⟩, hedge, hY, rfl, rfl, rfl⟩
    exact ⟨X, Y, List.mk_mem_zipIdx_iff_getElem?.mp hX, hedge, List.getElem?_idxOf hY⟩
  · intro h
    rcases h with ⟨X, Y, hX, hedge, hY⟩
    have hmem : Y ∈ A.subsets := List.mem_of_getElem? hY
    refine ⟨(X, i), List.mk_mem_zipIdx_iff_getElem?.mpr hX, (a, Y), hedge, hmem, rfl, rfl, ?_⟩
    exact subsets_place_unique (List.getElem?_idxOf hmem) hY

/-- A set leads by a symbol to the set of all successors of its members, if that
set is not empty. -/
theorem mem_targets_determinize_iff {i j : Nat} {a : Symbol} :
    j ∈ A.determinize.targets i a ↔
      ∃ X Y, A.subsets[i]? = some X ∧ (a, Y) ∈ A.subsetEdges X ∧ A.subsets[j]? = some Y := by
  rw [determinize, mem_targets_ofArrows_iff, mem_subsetArrows_iff]

/-- A set accepts when one of its members does. -/
theorem determinize_isAccepting_iff {i : Nat} {X : List Nat} (hX : A.subsets[i]? = some X) :
    A.determinize.isAccepting i = true ↔ ∃ p ∈ X, A.isAccepting p = true := by
  have hlt : i < A.subsets.length := (List.getElem?_eq_some_iff.mp hX).1
  have hget : A.subsets.getD i [] = X := by
    rw [List.getD_eq_getElem?_getD, hX, Option.getD_some]
  have hmem : i ∈ A.determinize.accepting ↔
      i ∈ (List.range A.subsets.length).filter fun k => (A.subsets.getD k []).any A.isAccepting :=
    OrderedSet.mem_ofList
  rw [isAccepting_iff, hmem, List.mem_filter, List.mem_range, hget, List.any_eq_true]
  exact ⟨fun h => h.2, fun h => ⟨hlt, h⟩⟩

theorem determinize_isDeterministic (A : Automaton) : A.determinize.isDeterministic = true := by
  rw [isDeterministic_iff]
  intro i a j k hj hk
  rcases mem_targets_determinize_iff.mp hj with ⟨X, Y, hX, hY, hj⟩
  rcases mem_targets_determinize_iff.mp hk with ⟨X', Y', hX', hY', hk⟩
  have hXX' : X = X' := Option.some.inj (hX.symm.trans hX')
  have hYY' : Y = Y' := by
    rw [(mem_subsetEdges_iff.mp hY).2.1, (mem_subsetEdges_iff.mp hY').2.1, hXX']
  exact subsets_place_unique hj (hYY' ▸ hk)

/-- The simulation: a set accepts the words that one of its members accepts. -/
theorem determinize_acceptsFrom_iff {i : Nat} {X : List Nat} {w : Word}
    (hX : A.subsets[i]? = some X) :
    A.determinize.recognizer.AcceptsFrom i w ↔ ∃ p ∈ X, A.recognizer.AcceptsFrom p w := by
  induction w generalizing i X with
  | nil =>
      simp only [Recognizer.acceptsFrom_nil, recognizer_final]
      exact determinize_isAccepting_iff hX
  | cons a w ih =>
      simp only [Recognizer.acceptsFrom_cons, recognizer_next]
      constructor
      · intro h
        rcases h with ⟨j, hj, haccepts⟩
        rcases mem_targets_determinize_iff.mp hj with ⟨X', Y, hX', hedge, hY⟩
        have hXX' : X' = X := Option.some.inj (hX'.symm.trans hX)
        subst hXX'
        rcases (ih hY).mp haccepts with ⟨q, hq, haccepts⟩
        rw [(mem_subsetEdges_iff.mp hedge).2.1] at hq
        rcases mem_successors_iff.mp hq with ⟨p, hp, hpq⟩
        exact ⟨p, hp, q, hpq, haccepts⟩
      · intro h
        rcases h with ⟨p, hp, q, hpq, haccepts⟩
        have hedge := mem_subsetEdges_of_mem_targets hp hpq
        have hY := mem_subsets_of_mem_subsetEdges (List.mem_of_getElem? hX) hedge
        rcases List.getElem?_of_mem hY with ⟨j, hj⟩
        refine ⟨j, mem_targets_determinize_iff.mpr ⟨X, _, hX, hedge, hj⟩, (ih hj).mpr ?_⟩
        exact ⟨q, mem_successors_iff.mpr ⟨p, hp, hpq⟩, haccepts⟩

/-- Determinization makes an automaton deterministic and keeps the words that it
accepts. -/
theorem determinize_preserves_language (A : Automaton) :
    A.determinize.isDeterministic = true ∧ ∀ w, A.determinize.accepts w = A.accepts w := by
  refine ⟨A.determinize_isDeterministic, fun w => ?_⟩
  apply accepts_eq_of_acceptsFrom_iff
  have hstart : A.subsets[A.determinize.start]? = some [A.start] := rfl
  rw [determinize_acceptsFrom_iff hstart]
  simp

end FormalLang.Automaton
