import FormalLang.Proofs.Access.Converting
import FormalLang.Proofs.Automaton.Determinization

/-!
# Determinizing without failing

The sets of states wait in a queue, and each has a state from when it is discovered.  When
a set is taken from the queue, its state is looked up; then the arrows from it are linked,
and the sets to which they lead get states if they have none.  A set only waits if it has a
state, so the lookup does not fail.  The sets are discovered in the order of the search, so
that their states are the places of the sets, and when no set is left all sets that words
lead to have been made.

Main results:

- Theorem `Automaton.foldl_visitEdge`: the edges of a set, one after the other.
- Theorem `Automaton.Progress.visit`: what a visit to a set comes to.
- Theorem `Automaton.determinize?_eq`: no access fails when an automaton is determinized.
-/

namespace FormalLang

/-! ## States that are added -/

namespace Diagram

variable {D : Diagram}

/-- Add states behind the others. -/
def addStates (D : Diagram) (names : List Symbol) : Diagram :=
  { D with states := D.states ++ names }

theorem addStates_nil (D : Diagram) : D.addStates [] = D := by
  rw [addStates, List.append_nil]

theorem addStates_cons (D : Diagram) (name : Symbol) (names : List Symbol) :
    D.addStates (name :: names) = (D.addStates [name]).addStates names := by
  simp only [addStates, List.append_assoc, List.singleton_append]

/-- Arrows do not matter to the states that are added. -/
theorem addStates_link (D : Diagram) (e : Arrow) (names : List Symbol) :
    (D.link e).addStates names = (D.addStates names).link e :=
  rfl

end Diagram

/-- A member of the front of a list stands at the same place in the whole list. -/
theorem idxOf_of_front {α : Type} [BEq α] [LawfulBEq α] {l S : List α} {a : α} (h : l <+: S)
    (ha : a ∈ l) : S.idxOf a = l.idxOf a := by
  rcases h with ⟨rest, rfl⟩
  exact List.idxOf_append_of_mem ha

namespace Automaton

variable {A : Automaton}

/-! ## The worklist -/

/-- A determinization under way: the sets that have states, in the order of these, the sets
that wait, and the diagram so far. -/
structure Worklist where
  sets : List (List Nat)
  queue : List (List Nat)
  diagram : Diagram

/-- Link the arrow of an edge from the set with state `i`.  A set without a state gets one,
and waits. -/
def visitEdge (A : Automaton) (i : Nat) (W : Worklist) (edge : Symbol × List Nat) : Worklist :=
  match W.sets.idxOf? edge.2 with
  | some j => { W with diagram := W.diagram.link ⟨i, edge.1, j⟩ }
  | none =>
      { sets := W.sets ++ [edge.2]
        queue := W.queue ++ [edge.2]
        diagram :=
          (W.diagram.addStates [A.subsetName edge.2]).link ⟨i, edge.1, W.sets.length⟩ }

/-- Follow a symbol from a set, if it leads anywhere. -/
def visitSymbol (A : Automaton) (X : List Nat) (i : Nat) (W : Worklist) (a : Symbol) : Worklist :=
  if (A.successors X a).isEmpty then W else A.visitEdge i W (a, A.successors X a)

/-- Visit a set, whose state is looked up. -/
def visitSet? (A : Automaton) (W : Worklist) (X : List Nat) : Option Worklist := do
  let i ← W.sets.idxOf? X
  let D := if X.any A.isAccepting then W.diagram.accept i else W.diagram
  return A.alphabet.toList.foldl (A.visitSymbol X i) { W with diagram := D }

/-- Visit the sets that wait; nothing if sets are left when the steps run out. -/
def visitSets? (A : Automaton) : (steps : Nat) → Worklist → Option Worklist
  | 0, W => if W.queue.isEmpty then some W else none
  | steps + 1, W =>
      match W.queue with
      | [] => some W
      | X :: queue => do
          let W ← A.visitSet? { W with queue := queue } X
          A.visitSets? steps W

/-- The worklist at the beginning, with the set of the start state only. -/
def startWorklist (A : Automaton) : Worklist where
  sets := [[A.start]]
  queue := [[A.start]]
  diagram :=
    { states := [A.subsetName [A.start]]
      alphabet := A.alphabet
      start := 0
      accepting := .empty
      transitions := .empty }

/-- The deterministic automaton, made with a worklist. -/
def determinize? (A : Automaton) : Option Automaton := do
  let W ← A.visitSets? (Nat.pow 2 A.states.length) A.startWorklist
  W.diagram.checked?

/-! ## Edges -/

/-- The arrows from a set with state `i`, when all sets have states. -/
def setArrows (A : Automaton) (X : List Nat) (i : Nat) : List Arrow :=
  (A.subsetEdges X).map fun edge => ⟨i, edge.1, A.subsets.idxOf edge.2⟩

/-- All sets that are made have states, so every edge between them has its arrow. -/
theorem subsetArrows_subsets (A : Automaton) :
    A.subsetArrows A.subsets = A.subsets.zipIdx.flatMap fun X => A.setArrows X.1 X.2 := by
  refine List.flatMap_congr fun X hX => ?_
  have hmem : X.1 ∈ A.subsets := List.fst_mem_of_mem_zipIdx hX
  rw [setArrows, ← List.filterMap_eq_map]
  refine List.filterMap_congr fun edge hedge => ?_
  exact if_pos (mem_subsets_of_mem_subsetEdges hmem hedge)

theorem foldl_visitSymbol (X : List Nat) (i : Nat) (W : Worklist) :
    A.alphabet.toList.foldl (A.visitSymbol X i) W = (A.subsetEdges X).foldl (A.visitEdge i) W := by
  rw [subsetEdges, List.foldl_filterMap]
  refine List.foldl_ext _ _ W fun W a _ => ?_
  by_cases hempty : (A.successors X a).isEmpty = true
  · simp only [visitSymbol, hempty, if_true]
  · simp only [visitSymbol, hempty, if_false, Bool.false_eq_true]

/-- Following edges discovers the sets that have no states yet, and links an arrow for each
edge.  By induction on the edges; the places of sets do not change any more. -/
theorem foldl_visitEdge {edges : List (Symbol × List Nat)} {i : Nat} {W : Worklist}
    {marked : Std.TreeSet (List Nat)} (hmarked : ∀ X, X ∈ marked ↔ X ∈ W.sets)
    (hsubsets : W.sets ++ (Search.unmarked marked edges).map Prod.snd <+: A.subsets) :
    edges.foldl (A.visitEdge i) W =
      { sets := W.sets ++ (Search.unmarked marked edges).map Prod.snd
        queue := W.queue ++ (Search.unmarked marked edges).map Prod.snd
        diagram :=
          (W.diagram.addStates
              (((Search.unmarked marked edges).map Prod.snd).map A.subsetName)).linkAll
            (edges.map fun edge => ⟨i, edge.1, A.subsets.idxOf edge.2⟩) } := by
  induction edges generalizing W marked with
  | nil =>
      simp only [Search.unmarked, List.map_nil, List.append_nil, Diagram.addStates_nil]
      rfl
  | cons edge edges ih =>
      rcases edge with ⟨a, Y⟩
      rw [List.foldl_cons, visitEdge]
      by_cases hY : Y ∈ marked
      · have hmem : Y ∈ W.sets := (hmarked Y).mp hY
        rw [Search.unmarked, if_pos hY] at hsubsets ⊢
        have hplace := idxOf_of_front ((List.prefix_append _ _).trans hsubsets) hmem
        have hrest := ih (W := { W with
          diagram := W.diagram.link ⟨i, a, W.sets.idxOf Y⟩ }) hmarked hsubsets
        simp only [idxOf?_of_mem hmem]
        rw [hrest, List.map_cons, Diagram.linkAll_cons, hplace, Diagram.addStates_link]
      · have hnot : Y ∉ W.sets := fun hmem => hY ((hmarked Y).mpr hmem)
        rw [Search.unmarked, if_neg hY, List.map_cons, List.append_cons] at hsubsets
        rw [Search.unmarked, if_neg hY, List.map_cons]
        have hplace : A.subsets.idxOf Y = W.sets.length := by
          rw [idxOf_of_front ((List.prefix_append _ _).trans hsubsets) (by simp),
            List.idxOf_append_of_notMem hnot]
          simp
        have hmarked' : ∀ X, X ∈ marked.insert Y ↔ X ∈ W.sets ++ [Y] := by
          intro X
          rw [Std.TreeSet.mem_insert, Std.LawfulEqOrd.compare_eq_iff_eq, List.mem_append,
            List.mem_singleton, hmarked, or_comm, eq_comm]
        have hrest := ih (W :=
          { sets := W.sets ++ [Y]
            queue := W.queue ++ [Y]
            diagram :=
              (W.diagram.addStates [A.subsetName Y]).link ⟨i, a, W.sets.length⟩ }) hmarked' hsubsets
        simp only [List.idxOf?_eq_none_iff.mpr hnot]
        rw [hrest, List.map_cons, List.map_cons, Diagram.linkAll_cons, hplace,
          Diagram.addStates_link, ← Diagram.addStates_cons]
        simp only [List.append_assoc, List.singleton_append]

/-! ## Visits -/

/-- The diagram when the sets of `done` have been visited and those of `sets` have
states. -/
def madeSoFar (A : Automaton) (done sets : List (List Nat)) : Diagram :=
  { A.subsetDiagram done with
    states := sets.map A.subsetName
    transitions := .ofArrows (done.zipIdx.flatMap fun X => A.setArrows X.1 X.2) }

/-- A determinization between two visits, with so many steps left: the search for sets has
come as far, all sets that were discovered have states, and what was made is what belongs
to the sets that were visited. -/
structure Progress (A : Automaton) (steps : Nat) (done : List (List Nat))
    (marked : Std.TreeSet (List Nat)) (W : Worklist) : Prop where
  frontier : Search.Frontier A.subsetEdges [A.start] done W.queue marked
  sets_eq : W.sets = done ++ W.queue
  subsets_eq : A.subsets = W.sets ++
    (Search.visit A.subsetEdges (fun _ => false) steps W.queue marked).discoveries.map
      Search.Discovery.target
  diagram_eq : W.diagram = A.madeSoFar done W.sets

theorem Progress.initial (A : Automaton) :
    A.Progress (Nat.pow 2 A.states.length) [] (Search.markAll ∅ [[A.start]]) A.startWorklist where
  frontier := Search.Frontier.initial _ _
  sets_eq := rfl
  subsets_eq := rfl
  diagram_eq := rfl

/-- One more set that accepts if one of its members does. -/
theorem accepting_subsetDiagram_append (A : Automaton) (done : List (List Nat)) (X : List Nat) :
    (A.subsetDiagram (done ++ [X])).accepting =
      if X.any A.isAccepting then (A.subsetDiagram done).accepting.insert done.length
      else (A.subsetDiagram done).accepting := by
  have hold : ((List.range done.length).filter fun i =>
      ((done ++ [X]).getD i []).any A.isAccepting) =
        (List.range done.length).filter fun i => (done.getD i []).any A.isAccepting := by
    refine List.filter_congr fun i hi => ?_
    rw [List.getD_eq_getElem?_getD, List.getElem?_append_left (List.mem_range.mp hi),
      ← List.getD_eq_getElem?_getD]
  have hnew : (done ++ [X]).getD done.length [] = X := by
    rw [List.getD_eq_getElem?_getD, List.getElem?_concat_length, Option.getD_some]
  change OrderedSet.ofList (List.filter _ (List.range (done ++ [X]).length)) = _
  rw [List.length_append, List.length_singleton, List.range_succ, List.filter_append, hold,
    List.filter_cons, List.filter_nil, hnew]
  by_cases hX : X.any A.isAccepting = true
  · rw [if_pos hX, if_pos hX, OrderedSet.ofList_append]
    rfl
  · rw [if_neg hX, if_neg hX, List.append_nil]
    rfl

/-- What belongs to one more set: it accepts if one of its members does, the sets that it
discovered have states, and its arrows are linked. -/
theorem madeSoFar_append (A : Automaton) (done sets new : List (List Nat)) (X : List Nat) :
    (((if X.any A.isAccepting then (A.madeSoFar done sets).accept done.length
        else A.madeSoFar done sets).addStates (new.map A.subsetName)).linkAll
      (A.setArrows X done.length)) = A.madeSoFar (done ++ [X]) (sets ++ new) := by
  have hsymbols : ∀ e ∈ A.setArrows X done.length, e.symbol ∈ A.alphabet := by
    intro e he
    rcases List.mem_map.mp he with ⟨edge, hedge, rfl⟩
    exact symbol_mem_of_mem_subsetEdges hedge
  have hlink : ∀ D : Diagram, D.alphabet = A.alphabet → D.linkAll (A.setArrows X done.length) =
      { D with
        transitions := (A.setArrows X done.length).foldl Transitions.insert D.transitions } :=
    fun D hD => Diagram.linkAll_of_symbol_mem (hD ▸ hsymbols)
  have harrows : (done ++ [X]).zipIdx.flatMap (fun Y => A.setArrows Y.1 Y.2) =
      done.zipIdx.flatMap (fun Y => A.setArrows Y.1 Y.2) ++ A.setArrows X done.length := by
    rw [List.zipIdx_append, List.flatMap_append, Nat.zero_add]
    simp
  have haccepting := A.accepting_subsetDiagram_append done X
  by_cases hX : X.any A.isAccepting = true
  · rw [if_pos hX] at haccepting ⊢
    rw [hlink]
    · simp only [madeSoFar, haccepting, harrows, Transitions.ofArrows, List.foldl_append,
        List.map_append]
      rfl
    · rfl
  · rw [if_neg hX] at haccepting ⊢
    rw [hlink]
    · simp only [madeSoFar, haccepting, harrows, Transitions.ofArrows, List.foldl_append,
        List.map_append]
      rfl
    · rfl

/-- A visit to the set that waits first finds its state, and goes on with the search. -/
theorem Progress.visit {steps : Nat} {done queue : List (List Nat)} {X : List Nat}
    {marked : Std.TreeSet (List Nat)} {W : Worklist} (h : A.Progress (steps + 1) done marked W)
    (hqueue : W.queue = X :: queue) :
    ∃ W', A.visitSet? { W with queue := queue } X = some W' ∧
      A.Progress steps (done ++ [X])
        (Search.markAll marked ((Search.unmarked marked (A.subsetEdges X)).map Prod.snd)) W' := by
  have hfrontier := h.frontier
  have hsets := h.sets_eq
  have hsubsets := h.subsets_eq
  rw [hqueue] at hfrontier hsets
  rw [hqueue, Search.targets_visit_cons _ _ _ _ rfl, ← List.append_assoc] at hsubsets
  have hmarked : ∀ Y, Y ∈ marked ↔ Y ∈ W.sets := by
    rw [hsets]
    exact hfrontier.mem_marked_iff
  have hplace : W.sets.idxOf? X = some done.length := by
    have hnot : X ∉ done := fun hX =>
      (List.nodup_append.mp hfrontier.nodup).2.2 X hX X List.mem_cons_self rfl
    rw [hsets, idxOf?_of_mem (by simp), List.idxOf_append_of_notMem hnot, List.idxOf_cons_self,
      Nat.add_zero]
  let D := if X.any A.isAccepting then W.diagram.accept done.length else W.diagram
  have hvisit : A.visitSet? { W with queue := queue } X =
      some (A.alphabet.toList.foldl (A.visitSymbol X done.length)
        { W with queue := queue, diagram := D }) := by
    rw [visitSet?, hplace]
    rfl
  have hfold := foldl_visitEdge (W := { W with queue := queue, diagram := D }) (i := done.length)
    hmarked ⟨_, hsubsets.symm⟩
  rw [foldl_visitSymbol, hfold] at hvisit
  refine ⟨_, hvisit, hfrontier.step, ?_, hsubsets, ?_⟩
  · simp only [hsets, List.append_assoc, List.cons_append, List.nil_append]
  · simp only [D, h.diagram_eq]
    exact A.madeSoFar_append done W.sets _ X

/-- When no set waits any more, all sets have been made. -/
theorem Progress.finished {steps : Nat} {done : List (List Nat)}
    {marked : Std.TreeSet (List Nat)} {W : Worklist} (h : A.Progress steps done marked W)
    (hqueue : W.queue = []) : W.diagram = A.determinize.toDiagram := by
  have hsets := h.sets_eq
  have hsubsets := h.subsets_eq
  rw [hqueue, List.append_nil] at hsets
  rw [hqueue, Search.visit_nil, List.map_nil, List.append_nil] at hsubsets
  rw [h.diagram_eq, ← hsets, ← hsubsets, madeSoFar, ← subsetArrows_subsets]
  rfl

/-- The sets that wait are visited, and no lookup fails.  By induction on the steps: there
are no more sets than steps. -/
theorem visitSets?_eq {steps : Nat} {done : List (List Nat)} {marked : Std.TreeSet (List Nat)}
    {W : Worklist} (h : A.Progress steps done marked W)
    (hsteps : Search.ReachesAtMost A.subsetEdges [A.start] (done.length + steps)) :
    ∃ W', A.visitSets? steps W = some W' ∧ W'.diagram = A.determinize.toDiagram := by
  induction steps generalizing done marked W with
  | zero =>
      cases hqueue : W.queue with
      | nil => exact ⟨W, by rw [visitSets?, hqueue]; rfl, h.finished hqueue⟩
      | cons X queue =>
          rcases (hqueue ▸ h.frontier).exists_fuel hsteps with ⟨rest, hrest, -⟩
          contradiction
  | succ steps ih =>
      cases hqueue : W.queue with
      | nil => exact ⟨W, by rw [visitSets?, hqueue], h.finished hqueue⟩
      | cons X queue =>
          rcases h.visit hqueue with ⟨W', hW', hprogress⟩
          rcases (hqueue ▸ h.frontier).exists_fuel hsteps with ⟨rest, hrest, henough⟩
          cases hrest
          rcases ih hprogress henough with ⟨W'', hW'', hdiagram⟩
          refine ⟨W'', ?_, hdiagram⟩
          rw [visitSets?, hqueue]
          simp only [hW', Option.bind_eq_bind, Option.bind_some, hW'']

/-- No access fails when an automaton is determinized. -/
theorem determinize?_eq (A : Automaton) : A.determinize? = some A.determinize := by
  have hbound : Search.ReachesAtMost A.subsetEdges [A.start]
      (([] : List (List Nat)).length + Nat.pow 2 A.states.length) := by
    rw [List.length_nil, Nat.zero_add]
    exact A.reachesAtMost_subsetEdges
  rcases visitSets?_eq (Progress.initial A) hbound with ⟨W, hW, hdiagram⟩
  rw [determinize?, hW]
  exact Diagram.checked?_eq_some hdiagram

end Automaton
end FormalLang
