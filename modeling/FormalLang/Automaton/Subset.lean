import FormalLang.Automaton.Basic
import FormalLang.Event
import FormalLang.Search

/-!
# Determinization

The subset construction.  A state of the deterministic automaton stands for a
non-empty set of states, written as the list of its members in increasing
order.  Only the sets that some word leads to are made, in the order in which a
breadth-first search from the start discovers them.
-/

namespace FormalLang.Automaton

/-- The states that a symbol leads to from a set of states, in increasing
order. -/
def successors (A : Automaton) (X : List Nat) (a : Symbol) : List Nat :=
  (List.range A.states.length).filter fun q => X.any fun p => q ∈ A.targets p a

/-- The sets that the symbols of the alphabet lead to from a set of states,
without the empty one. -/
def subsetEdges (A : Automaton) (X : List Nat) : List (Symbol × List Nat) :=
  A.alphabet.toList.filterMap fun a =>
    let Y := A.successors X a
    if Y.isEmpty then none else some (a, Y)

/-- The sets that words lead to, in the order of their discovery.  There are no
more of them than subsets. -/
def subsets (A : Automaton) : List (List Nat) :=
  let bound := Nat.pow 2 A.states.length
  let found := (Search.run A.subsetEdges (fun _ => false) bound [A.start]).discoveries
  [A.start] :: found.map Search.Discovery.target

/-- The name of a set: the names of its members between braces. -/
def subsetName (A : Automaton) (X : List Nat) : Symbol :=
  ⟨"\x7b" ++ ", ".intercalate (X.map fun p => (A.nameOf p).text) ++ "\x7d",
    by simp [String.append_eq_empty_iff]⟩

/-- The arrows between the sets of a list, each set standing at its place. -/
def subsetArrows (A : Automaton) (sets : List (List Nat)) : List Arrow :=
  sets.zipIdx.flatMap fun X =>
    (A.subsetEdges X.1).filterMap fun edge =>
      if edge.2 ∈ sets then some ⟨X.2, edge.1, sets.idxOf edge.2⟩ else none

/-- The diagram of the sets of a list, without arrows.  The first set is the
start, and a set accepts when one of its members does. -/
def subsetDiagram (A : Automaton) (sets : List (List Nat)) : Diagram where
  states := sets.map A.subsetName
  alphabet := A.alphabet
  start := 0
  accepting :=
    .ofList <| (List.range sets.length).filter fun i => (sets.getD i []).any A.isAccepting
  transitions := .empty

theorem symbol_mem_of_mem_subsetEdges {A : Automaton} {X Y : List Nat} {a : Symbol}
    (h : (a, Y) ∈ A.subsetEdges X) : a ∈ A.alphabet := by
  obtain ⟨b, hb, hedge⟩ := List.mem_filterMap.mp h
  simp only [Option.ite_none_left_eq_some, Option.some.injEq, Prod.mk.injEq] at hedge
  exact hedge.2.1 ▸ hb

theorem hasPlaceFor_of_mem_subsetArrows {A : Automaton} {sets : List (List Nat)} {e : Arrow}
    (h : e ∈ A.subsetArrows sets) : (A.subsetDiagram sets).HasPlaceFor e := by
  obtain ⟨⟨X, i⟩, hX, h⟩ := List.mem_flatMap.mp h
  obtain ⟨⟨a, Y⟩, hedge, he⟩ := List.mem_filterMap.mp h
  simp only [Option.ite_none_right_eq_some, Option.some.injEq] at he
  obtain ⟨hY, rfl⟩ := he
  have hi := (List.mem_zipIdx hX).2.1
  refine ⟨?_, symbol_mem_of_mem_subsetEdges hedge, ?_⟩
  · simpa [subsetDiagram] using hi
  · simpa [subsetDiagram] using List.idxOf_lt_length_of_mem hY

/-- The deterministic automaton of the sets that words lead to. -/
def determinize (A : Automaton) : Automaton :=
  let sets := A.subsets
  ofArrows (A.subsetDiagram sets)
    (by
      show 0 < (List.map A.subsetName A.subsets).length
      simp [subsets])
    (by
      intro q hq
      rw [subsetDiagram, OrderedSet.mem_ofList] at hq
      simpa [subsetDiagram] using (List.mem_filter.mp hq).1)
    (A.subsetArrows sets)
    (fun _ he => hasPlaceFor_of_mem_subsetArrows he)

/-- The events of determinization: the arrows, in order. -/
def determinizeEvents (A : Automaton) : List Event :=
  A.subsets.flatMap fun X =>
    (A.subsetEdges X).map fun edge =>
      .subsetMove (A.subsetName X) edge.1 (A.subsetName edge.2)

end FormalLang.Automaton
