import FormalLang.Proofs.Access.Determinizing
import FormalLang.Proofs.Search.Comparison
import Mathlib.Data.Finset.Sort
import Mathlib.Data.Finset.Union

/-!
# The sets that words lead to

The states of a determinized automaton stand for the sets of states to which the words over
the alphabet lead, the empty set apart, and for each of them there is one state.  The
worklist that makes them ends, since there are only finitely many, and it has visited every
set once by then.  So the moves, the accepting states and the names of the result can be
read off the sets.

Main results:

- Theorem `Automaton.mem_subsets_iff_word`: the sets that are made are those that words lead
  to.
- Theorem `Automaton.visitSets?_startWorklist`: the worklist ends after as many visits as
  there are states, and not before.
- Theorem `Automaton.targets_determinize`: what one state of the result leads to.
- Theorem `Automaton.determinize_materializes`: the states, moves, accepting states and names
  of the result.
-/

namespace FormalLang.Automaton

variable {A : Automaton} {X : List Nat} {w : Word} {a : Symbol} {i j p q : Nat}

/-! ## Reading words -/

/-- The states that a word leads to from the start, in increasing order. -/
def wordSet (A : Automaton) (w : Word) : List Nat :=
  w.foldl A.successors [A.start]

theorem wordSet_concat (A : Automaton) (w : Word) (a : Symbol) :
    A.wordSet (w ++ [a]) = A.successors (A.wordSet w) a :=
  List.foldl_concat _ _ _ _

/-- An automaton reads words over its alphabet only. -/
theorem symbol_mem_of_run (h : A.recognizer.Run p w q) : ∀ a ∈ w, a ∈ A.alphabet := by
  induction h with
  | nil => simp
  | cons hnext _ ih =>
      rw [List.forall_mem_cons]
      exact ⟨symbol_mem_of_mem_targets hnext, ih⟩

theorem mem_foldl_successors_iff :
    q ∈ w.foldl A.successors X ↔ ∃ p ∈ X, A.recognizer.Run p w q := by
  induction w generalizing X with
  | nil => simp
  | cons a w ih =>
      rw [List.foldl_cons, ih]
      simp only [mem_successors_iff, Recognizer.run_cons_iff, recognizer_next]
      constructor
      · intro h
        rcases h with ⟨r, ⟨p, hp, hr⟩, hrun⟩
        exact ⟨p, hp, r, hr, hrun⟩
      · intro h
        rcases h with ⟨p, hp, r, hr, hrun⟩
        exact ⟨r, ⟨p, hp, hr⟩, hrun⟩

theorem mem_wordSet_iff : q ∈ A.wordSet w ↔ A.recognizer.Run A.start w q := by
  simp [wordSet, mem_foldl_successors_iff]

theorem pairwise_wordSet (A : Automaton) (w : Word) : (A.wordSet w).Pairwise (· < ·) := by
  induction w using List.reverseRecOn with
  | nil => exact List.pairwise_singleton _ _
  | append_singleton w a _ =>
      rw [wordSet_concat]
      exact List.pairwise_lt_range.sublist (successors_sublist _ _)

/-- The sets that are made are those that words lead to, if they are not empty.  In one
direction by induction on the way to the set, in the other on the word. -/
theorem mem_subsets_iff_word :
    X ∈ A.subsets ↔ X ≠ [] ∧ ∃ w, (∀ a ∈ w, a ∈ A.alphabet) ∧ A.wordSet w = X := by
  constructor
  · intro h
    rw [mem_subsets_iff] at h
    induction h with
    | refl => exact ⟨by simp, [], by simp, rfl⟩
    | tail _ hadjacent ih =>
        rcases hadjacent with ⟨a, hedge⟩
        rcases mem_subsetEdges_iff.mp hedge with ⟨ha, rfl, hne⟩
        rcases ih with ⟨-, w, hw, rfl⟩
        refine ⟨hne, w ++ [a], ?_, A.wordSet_concat w a⟩
        simpa [or_imp, forall_and] using ⟨hw, ha⟩
  · intro h
    rcases h with ⟨hne, w, hw, rfl⟩
    induction w using List.reverseRecOn with
    | nil => exact List.mem_cons_self
    | append_singleton w a ih =>
        rw [wordSet_concat] at hne ⊢
        have hword : A.wordSet w ≠ [] := by
          intro hnil
          rw [hnil] at hne
          simp [successors] at hne
        have hmem := ih (fun b hb => hw b (List.mem_append_left _ hb)) hword
        exact mem_subsets_of_mem_subsetEdges hmem
          (mem_subsetEdges_iff.mpr ⟨hw a (by simp), rfl, hne⟩)

theorem pairwise_of_mem_subsets (h : X ∈ A.subsets) : X.Pairwise (· < ·) := by
  rcases (mem_subsets_iff_word.mp h).2 with ⟨w, -, rfl⟩
  exact A.pairwise_wordSet w

/-! ## The parts of the determinized automaton -/

theorem states_determinize (A : Automaton) : A.determinize.states = A.subsets.map A.subsetName :=
  rfl

theorem accepting_determinize (A : Automaton) :
    A.determinize.accepting =
      .ofList ((List.range A.subsets.length).filter fun i =>
        (A.subsets.getD i []).any A.isAccepting) :=
  rfl

theorem transitions_determinize (A : Automaton) :
    A.determinize.transitions = .ofArrows (A.subsetArrows A.subsets) :=
  rfl

@[simp]
theorem length_states_determinize (A : Automaton) :
    A.determinize.states.length = A.subsets.length :=
  List.length_map _

theorem nameOf_determinize (hX : A.subsets[i]? = some X) :
    A.determinize.nameOf i = A.subsetName X := by
  rw [Diagram.nameOf, states_determinize, List.getD_eq_getElem?_getD, List.getElem?_map, hX]
  rfl

/-! ## The end of the worklist -/

/-- There are as many sets as states that are made, however many words there are. -/
theorem reachesAtMost_length_subsets (A : Automaton) :
    Search.ReachesAtMost A.subsetEdges [A.start] A.subsets.length := by
  apply Search.reachesAtMost_of_closed List.mem_cons_self
  intro X hX Y hadjacent
  rcases hadjacent with ⟨a, hedge⟩
  exact mem_subsets_of_mem_subsetEdges hX hedge

/-- The sets are the same with any number of steps that is enough. -/
theorem found_run_subsetEdges {bound : Nat}
    (hbound : Search.ReachesAtMost A.subsetEdges [A.start] bound) :
    Search.found [A.start] (Search.run A.subsetEdges (fun _ => false) bound [A.start]) =
      A.subsets := by
  rw [Search.run_congr_bound hbound A.reachesAtMost_subsetEdges]
  rfl

/-- A determinization can begin with any number of steps that is enough. -/
theorem Progress.initial_of_enough {steps : Nat}
    (hsteps : Search.ReachesAtMost A.subsetEdges [A.start] steps) :
    A.Progress steps [] (Search.markAll ∅ [[A.start]]) A.startWorklist where
  frontier := Search.Frontier.initial _ _
  sets_eq := rfl
  subsets_eq := (found_run_subsetEdges hsteps).symm
  diagram_eq := rfl

/-- When the visits are done, no set waits. -/
theorem queue_of_visitSets? {steps : Nat} {W W' : Worklist}
    (h : A.visitSets? steps W = some W') : W'.queue = [] := by
  induction steps generalizing W with
  | zero =>
      rw [visitSets?] at h
      split at h
      · rename_i hempty
        cases h
        exact List.isEmpty_iff.mp hempty
      · contradiction
  | succ steps ih =>
      rw [visitSets?] at h
      split at h
      · rename_i hqueue
        cases h
        exact hqueue
      · rcases Option.bind_eq_some_iff.mp h with ⟨W'', -, hrest⟩
        exact ih hrest

/-- When no set waits any more, as many sets were made as were visited. -/
theorem Progress.length_subsets {enough : Nat} {done : List (List Nat)}
    {marked : Std.TreeSet (List Nat)} {W : Worklist} (h : A.Progress enough done marked W)
    (hqueue : W.queue = []) : A.subsets.length = done.length := by
  have hstates : W.diagram.states.length = A.subsets.length := by
    rw [h.finished hqueue, length_states_determinize]
  have hsets : W.sets = done := by
    rw [h.sets_eq, hqueue, List.append_nil]
  rw [← hstates, h.diagram_eq, hsets]
  exact List.length_map _

/-- Every set needs a visit of its own.  By induction on the steps that the visits may take,
while the search for sets has as many as it needs. -/
theorem length_subsets_le {steps enough : Nat} {done : List (List Nat)}
    {marked : Std.TreeSet (List Nat)} {W W' : Worklist} (h : A.Progress enough done marked W)
    (henough : Search.ReachesAtMost A.subsetEdges [A.start] (done.length + enough))
    (hW : A.visitSets? steps W = some W') : A.subsets.length ≤ done.length + steps := by
  induction steps generalizing enough done marked W with
  | zero =>
      cases hqueue : W.queue with
      | nil => exact (h.length_subsets hqueue).le
      | cons X queue =>
          rw [visitSets?, hqueue] at hW
          contradiction
  | succ steps ih =>
      cases hqueue : W.queue with
      | nil => exact (h.length_subsets hqueue).le.trans (Nat.le_add_right _ _)
      | cons X queue =>
          rcases (hqueue ▸ h.frontier).exists_fuel henough with ⟨rest, rfl, hrest⟩
          rcases h.visit hqueue with ⟨W'', hW'', hprogress⟩
          rw [visitSets?, hqueue] at hW
          simp only [hW'', Option.bind_eq_bind, Option.bind_some] at hW
          have hle := ih hprogress hrest hW
          rw [List.length_append, List.length_singleton] at hle
          omega

/-- The worklist ends after as many visits as there are states, and not before. -/
theorem visitSets?_startWorklist (A : Automaton) (steps : Nat) :
    (A.determinize.states.length ≤ steps → ∃ W, A.visitSets? steps A.startWorklist = some W ∧
        W.queue = [] ∧ W.diagram = A.determinize.toDiagram) ∧
      (steps < A.determinize.states.length → A.visitSets? steps A.startWorklist = none) := by
  rw [length_states_determinize]
  have hsubsets := A.reachesAtMost_length_subsets
  constructor
  · intro hle
    have henough := hsubsets.mono hle
    rcases visitSets?_eq (Progress.initial_of_enough henough) (by simpa using henough) with
      ⟨W, hW, hdiagram⟩
    exact ⟨W, hW, queue_of_visitSets? hW, hdiagram⟩
  · intro hlt
    rw [Option.eq_none_iff_forall_ne_some]
    intro W hW
    have hle := length_subsets_le (Progress.initial_of_enough hsubsets) (by simpa using hsubsets) hW
    rw [List.length_nil, Nat.zero_add] at hle
    omega

/-! ## Moves of the determinized automaton -/

/-- With a set, the set of its successors is made, unless it is empty. -/
theorem successors_mem_subsets (hX : X ∈ A.subsets) (hne : A.successors X a ≠ []) :
    (a, A.successors X a) ∈ A.subsetEdges X ∧ A.successors X a ∈ A.subsets := by
  rcases List.exists_mem_of_ne_nil _ hne with ⟨q, hq⟩
  rcases mem_successors_iff.mp hq with ⟨p, hp, hpq⟩
  have hedge := mem_subsetEdges_of_mem_targets hp hpq
  exact ⟨hedge, mem_subsets_of_mem_subsetEdges hX hedge⟩

theorem mem_targets_determinize_iff_idxOf (hX : A.subsets[i]? = some X) :
    j ∈ A.determinize.targets i a ↔
      A.successors X a ≠ [] ∧ A.subsets.idxOf (A.successors X a) = j := by
  rw [mem_targets_determinize_iff]
  constructor
  · intro h
    rcases h with ⟨X', Y, hX', hedge, hY⟩
    cases hX.symm.trans hX'
    rcases mem_subsetEdges_iff.mp hedge with ⟨-, rfl, hne⟩
    have hmem := List.mem_of_getElem? hY
    exact ⟨hne, subsets_place_unique (List.getElem?_idxOf hmem) hY⟩
  · intro h
    rcases h with ⟨hne, rfl⟩
    rcases successors_mem_subsets (List.mem_of_getElem? hX) hne with ⟨hedge, hmem⟩
    exact ⟨X, _, hX, hedge, List.getElem?_idxOf hmem⟩

theorem nodup_targets (D : Diagram) (p : Nat) (a : Symbol) : (D.targets p a).Nodup := by
  rw [Diagram.targets_eq]
  exact OrderedSet.nodup _

theorem eq_singleton_of_nodup {l : List Nat} (hl : l.Nodup) (h : ∀ q, q ∈ l ↔ q = p) :
    l = [p] := by
  rw [← List.perm_singleton, List.perm_ext_iff_of_nodup hl (List.nodup_singleton p)]
  simpa using h

/-- A state of the result leads to the state of the successors, if there are any. -/
theorem targets_determinize (hX : A.subsets[i]? = some X) :
    A.determinize.targets i a =
      if A.successors X a = [] then [] else [A.subsets.idxOf (A.successors X a)] := by
  by_cases hnil : A.successors X a = []
  · rw [if_pos hnil, List.eq_nil_iff_forall_not_mem]
    intro j hj
    exact ((mem_targets_determinize_iff_idxOf hX).mp hj).1 hnil
  · rw [if_neg hnil]
    apply eq_singleton_of_nodup (nodup_targets _ _ _)
    intro j
    rw [mem_targets_determinize_iff_idxOf hX, eq_comm]
    exact and_iff_right hnil

/-! ## The sets of the states -/

/-- The set for which a state of the result stands. -/
def setAt (A : Automaton) (i : Nat) : Finset Nat :=
  (A.subsets.getD i []).toFinset

/-- All states that a symbol leads to from the members of a set. -/
def successorSet (A : Automaton) (X : Finset Nat) (a : Symbol) : Finset Nat :=
  X.biUnion fun p => (A.targets p a).toFinset

/-- A set of the form: the states that can be reached from the start by reading one word. -/
def IsReachedSet (A : Automaton) (X : Finset Nat) : Prop :=
  ∃ w : Word, (∀ a ∈ w, a ∈ A.alphabet) ∧ ∀ q, q ∈ X ↔ A.recognizer.Run A.start w q

theorem setAt_eq (hX : A.subsets[i]? = some X) : A.setAt i = X.toFinset := by
  rw [setAt, List.getD_eq_getElem?_getD, hX]
  rfl

theorem toFinset_successors (A : Automaton) (X : List Nat) (a : Symbol) :
    (A.successors X a).toFinset = A.successorSet X.toFinset a := by
  ext q
  simp only [successorSet, List.mem_toFinset, Finset.mem_biUnion, mem_successors_iff]

theorem successors_eq_nil_iff :
    A.successors X a = [] ↔ A.successorSet X.toFinset a = ∅ := by
  rw [← toFinset_successors, List.toFinset_eq_empty_iff]

/-- The members of a set in increasing order are the list that was made for it. -/
theorem sort_toFinset (h : X ∈ A.subsets) : X.toFinset.sort (· ≤ ·) = X := by
  have hpairwise := pairwise_of_mem_subsets h
  exact (List.toFinset_sort _ hpairwise.nodup).mpr (hpairwise.imp Nat.le_of_lt)

/-- The states of an automaton `D` stand for the sets of states of `A` to which words lead, each
non-empty one once.  A state goes on to the state for all successors of its set, if there
are any, it accepts if a member does, and it bears the names of the members in the order in
which they were declared. -/
structure Materializes (A D : Automaton) (set : Nat → Finset Nat) : Prop where
  bijOn : Set.BijOn set {i | i < D.states.length} {X | X.Nonempty ∧ A.IsReachedSet X}
  start_eq : set D.start = {A.start}
  alphabet_eq : D.alphabet = A.alphabet
  move : ∀ i < D.states.length, ∀ a, (A.successorSet (set i) a).Nonempty →
    ∃ j < D.states.length, set j = A.successorSet (set i) a ∧ D.targets i a = [j]
  no_move : ∀ i < D.states.length, ∀ a, A.successorSet (set i) a = ∅ → D.targets i a = []
  accepting_iff : ∀ i < D.states.length, i ∈ D.accepting ↔ ∃ p ∈ set i, p ∈ A.accepting
  name_eq : ∀ i < D.states.length, (D.nameOf i).text =
    "\x7b" ++ ", ".intercalate (((set i).sort (· ≤ ·)).map fun p => (A.nameOf p).text) ++ "\x7d"

/-- The lists of different sets are different, since they are in increasing order. -/
theorem bijOn_setAt (A : Automaton) :
    Set.BijOn A.setAt {i | i < A.determinize.states.length}
      {X | X.Nonempty ∧ A.IsReachedSet X} := by
  rw [length_states_determinize]
  refine Set.BijOn.mk ?_ ?_ ?_
  · intro i hi
    have hX := List.getElem?_eq_getElem hi
    rcases mem_subsets_iff_word.mp (List.getElem_mem hi) with ⟨hne, w, hw, hword⟩
    rw [setAt_eq hX]
    refine ⟨List.toFinset_nonempty_iff _ |>.mpr hne, w, hw, fun q => ?_⟩
    rw [List.mem_toFinset, ← hword, mem_wordSet_iff]
  · intro i hi j hj heq
    have hX := List.getElem?_eq_getElem hi
    have hY := List.getElem?_eq_getElem hj
    rw [setAt_eq hX, setAt_eq hY] at heq
    have hlists : A.subsets[i] = A.subsets[j] := by
      rw [← sort_toFinset (List.getElem_mem hi), heq, sort_toFinset (List.getElem_mem hj)]
    exact subsets_place_unique hX (hlists ▸ hY)
  · intro X hX
    rcases hX with ⟨⟨p, hp⟩, w, hw, hrun⟩
    have hword : (A.wordSet w).toFinset = X := by
      ext q
      rw [List.mem_toFinset, mem_wordSet_iff, hrun]
    have hne : A.wordSet w ≠ [] :=
      List.ne_nil_of_mem (mem_wordSet_iff.mpr ((hrun p).mp hp))
    rcases List.getElem?_of_mem (mem_subsets_iff_word.mpr ⟨hne, w, hw, rfl⟩) with ⟨i, hi⟩
    exact ⟨i, (List.getElem?_eq_some_iff.mp hi).1, (setAt_eq hi).trans hword⟩

theorem materializes_setAt (A : Automaton) : A.Materializes A.determinize A.setAt := by
  refine ⟨A.bijOn_setAt, rfl, rfl, ?_, ?_, ?_, ?_⟩
  · intro i hi a hsuccessors
    rw [length_states_determinize] at hi ⊢
    have hX := List.getElem?_eq_getElem hi
    rw [setAt_eq hX] at hsuccessors ⊢
    have hne : A.successors A.subsets[i] a ≠ [] := by
      rw [ne_eq, successors_eq_nil_iff]
      exact hsuccessors.ne_empty
    have hmem := (successors_mem_subsets (List.getElem_mem hi) hne).2
    refine ⟨_, List.idxOf_lt_length_iff.mpr hmem, ?_, ?_⟩
    · rw [setAt_eq (List.getElem?_idxOf hmem), toFinset_successors]
    · rw [targets_determinize hX, if_neg hne]
  · intro i hi a hempty
    rw [length_states_determinize] at hi
    have hX := List.getElem?_eq_getElem hi
    rw [setAt_eq hX, ← successors_eq_nil_iff] at hempty
    rw [targets_determinize hX, if_pos hempty]
  · intro i hi
    rw [length_states_determinize] at hi
    have hX := List.getElem?_eq_getElem hi
    rw [← isAccepting_iff, determinize_isAccepting_iff hX, setAt_eq hX]
    simp only [List.mem_toFinset, isAccepting_iff]
  · intro i hi
    rw [length_states_determinize] at hi
    have hX := List.getElem?_eq_getElem hi
    rw [nameOf_determinize hX, setAt_eq hX, sort_toFinset (List.getElem_mem hi)]
    rfl

/-- The worklist ends, after one visit for each state that it makes, and what it has made then
is one state for every set of states to which a word leads, the empty set apart. -/
theorem determinize_materializes (A : Automaton) :
    (∃ W, A.visitSets? A.determinize.states.length A.startWorklist = some W ∧ W.queue = [] ∧
        W.diagram = A.determinize.toDiagram) ∧
      A.Materializes A.determinize A.setAt :=
  ⟨(A.visitSets?_startWorklist _).1 (Nat.le_refl _), A.materializes_setAt⟩

end FormalLang.Automaton
