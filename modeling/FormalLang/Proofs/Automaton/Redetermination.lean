import FormalLang.Proofs.Automaton.ReachedSets

/-!
# Determinizing what is deterministic

The sets that words lead to have one member each in a deterministic automaton, or none.
So its determinized automaton is the part of it that can be reached, with names in braces.
An automaton that was determinized has no other part, and determinizing it again discovers
its states in the order in which they were discovered before: apart from one more pair of
braces around each name nothing changes.

Main results:

- Theorem `Automaton.subsets_eq_origin`: the sets that are made of a deterministic automaton.
- Theorem `Automaton.restricts_origin`: the part of it that can be reached.
- Theorem `Automaton.subsets_determinize`: the sets that are made the second time.
- Theorem `Automaton.determinize_restricts_then_renames`: determinizing a deterministic
  automaton, and determinizing twice.
-/

namespace FormalLang

/-- A symbol between braces. -/
def Symbol.braced (a : Symbol) : Symbol :=
  ⟨"\x7b" ++ a.text ++ "\x7d", by simp [String.append_eq_empty_iff]⟩

namespace Automaton

variable {A : Automaton} {X : List Nat} {w : Word} {a : Symbol} {i p q : Nat}

theorem subsetName_singleton (A : Automaton) (p : Nat) :
    A.subsetName [p] = (A.nameOf p).braced :=
  rfl

/-! ## Deterministic automata -/

section Deterministic

variable (hdet : A.isDeterministic = true)

include hdet

theorem targets_of_mem (hq : q ∈ A.targets p a) : A.targets p a = [q] := by
  apply eq_singleton_of_nodup (nodup_targets _ _ _)
  intro r
  constructor
  · exact fun hr => isDeterministic_iff.mp hdet p a r q hr hq
  · exact fun heq => heq ▸ hq

/-- A symbol leads from a state to one state, or to none. -/
theorem targets_eq_nil_or_singleton (p : Nat) (a : Symbol) :
    A.targets p a = [] ∨ ∃ q, A.targets p a = [q] := by
  by_cases hnil : A.targets p a = []
  · exact Or.inl hnil
  · rcases List.exists_mem_of_ne_nil _ hnil with ⟨q, hq⟩
    exact Or.inr ⟨q, targets_of_mem hdet hq⟩

/-- The successors of one state are what it leads to. -/
theorem successors_singleton (p : Nat) (a : Symbol) : A.successors [p] a = A.targets p a := by
  have hmem : ∀ q, q ∈ A.successors [p] a ↔ q ∈ A.targets p a := by
    simp [mem_successors_iff]
  rcases targets_eq_nil_or_singleton hdet p a with hnil | ⟨q, hq⟩
  · rw [hnil, List.eq_nil_iff_forall_not_mem]
    intro q hq
    rw [hmem, hnil] at hq
    exact List.not_mem_nil hq
  · rw [hq]
    apply eq_singleton_of_nodup (List.nodup_range.sublist (successors_sublist _ _))
    intro r
    rw [hmem, hq, List.mem_singleton]

/-- A word leads to one state, or to none. -/
theorem wordSet_eq_nil_or_singleton (w : Word) : A.wordSet w = [] ∨ ∃ p, A.wordSet w = [p] := by
  induction w using List.reverseRecOn with
  | nil => exact Or.inr ⟨A.start, rfl⟩
  | append_singleton w a ih =>
      rw [wordSet_concat]
      rcases ih with hnil | ⟨p, hp⟩
      · exact Or.inl (by simp [hnil, successors])
      · rw [hp, successors_singleton hdet]
        exact targets_eq_nil_or_singleton hdet p a

theorem wordSet_of_run (h : A.recognizer.Run A.start w p) : A.wordSet w = [p] := by
  have hp := mem_wordSet_iff.mpr h
  rcases wordSet_eq_nil_or_singleton hdet w with hnil | ⟨q, hq⟩
  · rw [hnil] at hp
    exact (List.not_mem_nil hp).elim
  · rw [hq, List.mem_singleton] at hp
    rw [hq, hp]

theorem exists_eq_singleton (h : X ∈ A.subsets) : ∃ p, X = [p] := by
  rcases mem_subsets_iff_word.mp h with ⟨hne, w, -, rfl⟩
  exact (wordSet_eq_nil_or_singleton hdet w).resolve_left hne

end Deterministic

/-! ## The part that can be reached -/

/-- The state for which a state of the determinized automaton stands, if it is the only
member of its set. -/
def origin (A : Automaton) (i : Nat) : Nat :=
  (A.subsets.getD i []).headD 0

theorem origin_eq (h : A.subsets[i]? = some [p]) : A.origin i = p := by
  rw [origin, List.getD_eq_getElem?_getD, h]
  rfl

/-- An automaton `D` is the part of `A` that can be reached from the start.  Each state of `D`
has an original, which can be reached, and everything that can be reached is an original;
moves and accepting states are those of the originals, and the names are theirs between
braces. -/
structure Restricts (A D : Automaton) (origin : Nat → Nat) : Prop where
  bijOn : Set.BijOn origin {i | i < D.states.length} {p | ∃ w, A.recognizer.Run A.start w p}
  start_eq : origin D.start = A.start
  alphabet_eq : D.alphabet = A.alphabet
  targets_eq : ∀ i < D.states.length, ∀ a, (D.targets i a).map origin = A.targets (origin i) a
  accepting_iff : ∀ i < D.states.length, i ∈ D.accepting ↔ origin i ∈ A.accepting
  name_eq : ∀ i < D.states.length, D.nameOf i = (A.nameOf (origin i)).braced

section Deterministic

variable (hdet : A.isDeterministic = true)

include hdet

/-- The sets have one member each, the original of their state. -/
theorem subsets_eq_origin (hi : i < A.subsets.length) : A.subsets[i]? = some [A.origin i] := by
  have hX := List.getElem?_eq_getElem hi
  rcases exists_eq_singleton hdet (List.getElem_mem hi) with ⟨p, hp⟩
  rw [hp] at hX
  rw [origin_eq hX, hX]

theorem bijOn_origin :
    Set.BijOn A.origin {i | i < A.determinize.states.length}
      {p | ∃ w, A.recognizer.Run A.start w p} := by
  rw [length_states_determinize]
  refine Set.BijOn.mk ?_ ?_ ?_
  · intro i hi
    have hmem := List.mem_of_getElem? (subsets_eq_origin hdet hi)
    rcases mem_subsets_iff_word.mp hmem with ⟨-, w, -, hw⟩
    have horigin : A.origin i ∈ A.wordSet w := by
      rw [hw]
      exact List.mem_cons_self
    exact ⟨w, mem_wordSet_iff.mp horigin⟩
  · intro i hi j hj heq
    have hset := subsets_eq_origin hdet hj
    rw [← heq] at hset
    exact subsets_place_unique (subsets_eq_origin hdet hi) hset
  · intro p hp
    rcases hp with ⟨w, hrun⟩
    have hword := wordSet_of_run hdet hrun
    have hmem : [p] ∈ A.subsets :=
      mem_subsets_iff_word.mpr ⟨by simp, w, symbol_mem_of_run hrun, hword⟩
    rcases List.getElem?_of_mem hmem with ⟨i, hi⟩
    exact ⟨i, (List.getElem?_eq_some_iff.mp hi).1, origin_eq hi⟩

/-- The determinized automaton of a deterministic one is the part that can be reached. -/
theorem restricts_origin : A.Restricts A.determinize A.origin := by
  refine ⟨bijOn_origin hdet, origin_eq rfl, rfl, ?_, ?_, ?_⟩
  · intro i hi a
    rw [length_states_determinize] at hi
    have hset := subsets_eq_origin hdet hi
    have hsuccessors := successors_singleton hdet (A.origin i) a
    rw [targets_determinize hset, hsuccessors]
    rcases targets_eq_nil_or_singleton hdet (A.origin i) a with hnil | ⟨q, hq⟩
    · rw [if_pos hnil, hnil, List.map_nil]
    · rw [hq] at hsuccessors ⊢
      have hne : A.successors [A.origin i] a ≠ [] := by
        rw [hsuccessors]
        exact List.cons_ne_nil _ _
      have hmem := (successors_mem_subsets (List.mem_of_getElem? hset) hne).2
      rw [hsuccessors] at hmem
      rw [if_neg (List.cons_ne_nil _ _), List.map_singleton, origin_eq (List.getElem?_idxOf hmem)]
  · intro i hi
    rw [length_states_determinize] at hi
    rw [← isAccepting_iff, determinize_isAccepting_iff (subsets_eq_origin hdet hi),
      ← isAccepting_iff]
    simp
  · intro i hi
    rw [length_states_determinize] at hi
    rw [nameOf_determinize (subsets_eq_origin hdet hi), subsetName_singleton]

end Deterministic

/-! ## Determinizing twice -/

/-- The set that the second determinization makes of a set of the first one: it has the
state of the set as its only member. -/
def placeSet (A : Automaton) (X : List Nat) : List Nat :=
  [A.subsets.idxOf X]

theorem successors_determinize (hX : X ∈ A.subsets) (a : Symbol) :
    A.determinize.successors (A.placeSet X) a =
      if A.successors X a = [] then [] else A.placeSet (A.successors X a) := by
  rw [placeSet, successors_singleton A.determinize_isDeterministic,
    targets_determinize (List.getElem?_idxOf hX)]
  rfl

/-- The edges of the second determinization are those of the first one. -/
theorem subsetEdges_determinize (hX : X ∈ A.subsets) :
    A.determinize.subsetEdges (A.placeSet X) =
      Search.mapEdges A.placeSet (A.subsetEdges X) := by
  rw [subsetEdges, subsetEdges, Search.mapEdges, List.map_filterMap]
  refine List.filterMap_congr fun a _ => ?_
  rw [successors_determinize hX]
  by_cases hnil : A.successors X a = []
  · simp [hnil]
  · simp [hnil, placeSet]

/-- The second determinization discovers the states of the first one in their order. -/
theorem subsets_determinize_eq_map (A : Automaton) :
    A.determinize.subsets = A.subsets.map A.placeSet := by
  have hinj : Set.InjOn A.placeSet {X | Search.Reachable A.subsetEdges [A.start] X} := by
    intro X hX Y _ heq
    have hmem : X ∈ A.subsets := mem_subsets_iff.mpr hX
    exact (List.idxOf_inj hmem).mp (List.singleton_inj.mp heq)
  have hlength : A.subsets.length ≤ Nat.pow 2 A.determinize.states.length := by
    rw [length_states_determinize]
    exact Nat.lt_two_pow_self.le
  have hstart : A.placeSet [A.start] = [A.determinize.start] := by
    simp [placeSet, subsets, determinize, ofArrows, subsetDiagram]
  have hfound : Search.found (A.placeSet [A.start])
      (Search.run A.determinize.subsetEdges (fun _ => false)
        (Nat.pow 2 A.determinize.states.length) (A.placeSet [A.start])) =
      (Search.found [A.start] (Search.run A.subsetEdges (fun _ => false)
        (Nat.pow 2 A.determinize.states.length) [A.start])).map A.placeSet :=
    Search.found_run_map hinj
      (fun X hX => subsetEdges_determinize (mem_subsets_iff.mpr hX)) (fun _ _ => rfl) _
  rw [found_run_subsetEdges (A.reachesAtMost_length_subsets.mono hlength), hstart] at hfound
  exact hfound

/-- The sets of the second determinization are those of one state each, in order. -/
theorem subsets_determinize (A : Automaton) :
    A.determinize.subsets = (List.range A.subsets.length).map fun i => [i] := by
  rw [subsets_determinize_eq_map]
  apply List.ext_getElem
  · simp
  · intro i hi _
    have hlt : i < A.subsets.length := by simpa using hi
    simp only [List.getElem_map, List.getElem_range, placeSet, A.nodup_subsets.idxOf_getElem i hlt]

theorem getElem?_subsets_determinize (hi : i < A.subsets.length) :
    A.determinize.subsets[i]? = some [i] := by
  rw [subsets_determinize, List.getElem?_map, List.getElem?_range hi]
  rfl

/-- A set of one state stands at the place of this state. -/
theorem idxOf_placeSet (hX : X ∈ A.subsets) :
    A.determinize.subsets.idxOf (A.placeSet X) = A.subsets.idxOf X := by
  have hplace := getElem?_subsets_determinize (List.idxOf_lt_length_iff.mpr hX)
  have hmem : A.placeSet X ∈ A.determinize.subsets := List.mem_of_getElem? hplace
  exact subsets_place_unique (List.getElem?_idxOf hmem) hplace

/-! ### The parts of the result -/

theorem states_determinize_determinize (A : Automaton) :
    A.determinize.determinize.states = A.determinize.states.map Symbol.braced := by
  rw [states_determinize A.determinize]
  apply List.ext_getElem
  · simp [subsets_determinize]
  · intro i hi hi'
    have hlt : i < A.determinize.states.length := by simpa using hi'
    have hname : A.determinize.nameOf i = A.determinize.states[i] := by
      rw [Diagram.nameOf, List.getD_eq_getElem?_getD, List.getElem?_eq_getElem hlt,
        Option.getD_some]
    simp only [subsets_determinize, List.getElem_map, List.getElem_range, subsetName_singleton,
      hname]

theorem accepting_determinize_determinize (A : Automaton) :
    A.determinize.determinize.accepting = A.determinize.accepting := by
  have hlength : A.determinize.subsets.length = A.subsets.length := by
    simp [subsets_determinize]
  rw [accepting_determinize A.determinize, accepting_determinize A, hlength]
  refine congrArg _ (List.filter_congr fun i hi => ?_)
  have hlt : i < A.subsets.length := List.mem_range.mp hi
  have haccepting := determinize_isAccepting_iff (List.getElem?_eq_getElem hlt)
  rw [Bool.eq_iff_iff, List.getD_eq_getElem?_getD, getElem?_subsets_determinize hlt,
    List.getD_eq_getElem?_getD, List.getElem?_eq_getElem hlt]
  simpa using haccepting

theorem transitions_determinize_determinize (A : Automaton) :
    A.determinize.determinize.transitions = A.determinize.transitions := by
  rw [transitions_determinize A.determinize, transitions_determinize A, subsetArrows_subsets,
    subsetArrows_subsets, subsets_determinize_eq_map, List.zipIdx_map, List.flatMap_map]
  refine congrArg _ (List.flatMap_congr fun X hX => ?_)
  have hmem : X.1 ∈ A.subsets := List.fst_mem_of_mem_zipIdx hX
  rw [setArrows, setArrows, Prod.map_fst, Prod.map_snd, subsetEdges_determinize hmem,
    Search.mapEdges, List.map_map]
  refine List.map_congr_left fun edge hedge => ?_
  have htarget := mem_subsets_of_mem_subsetEdges hmem hedge
  rw [Function.comp_apply, idxOf_placeSet htarget]
  rfl

/-- Determinizing a second time puts braces around the names, and changes nothing else. -/
theorem determinize_determinize (A : Automaton) :
    A.determinize.determinize.toDiagram =
      { A.determinize.toDiagram with states := A.determinize.states.map Symbol.braced } := by
  calc A.determinize.determinize.toDiagram
      = { states := A.determinize.determinize.states
          alphabet := A.alphabet
          start := 0
          accepting := A.determinize.determinize.accepting
          transitions := A.determinize.determinize.transitions } := rfl
    _ = { A.determinize.toDiagram with states := A.determinize.states.map Symbol.braced } := by
        rw [states_determinize_determinize, accepting_determinize_determinize,
          transitions_determinize_determinize]
        rfl

/-- The determinized automaton of a deterministic one is the part of it that can be reached:
each of its states stands for one state, and its names are between braces.  Determinizing a
second time puts braces around the names, and changes nothing else. -/
theorem determinize_restricts_then_renames :
    (∀ A : Automaton, A.isDeterministic = true →
        (∀ i < A.determinize.states.length, A.setAt i = {A.origin i}) ∧
          A.Restricts A.determinize A.origin) ∧
      ∀ A : Automaton, A.determinize.determinize.toDiagram =
        { A.determinize.toDiagram with states := A.determinize.states.map Symbol.braced } := by
  constructor
  · intro A hdet
    refine ⟨fun i hi => ?_, restricts_origin hdet⟩
    rw [length_states_determinize] at hi
    rw [setAt_eq (subsets_eq_origin hdet hi), List.toFinset_cons, List.toFinset_nil,
      insert_empty_eq]
  · exact determinize_determinize

/-- The only symbol of `lateStart`. -/
def loopLetter : Symbol :=
  ⟨"g", by simp⟩

/-- An automaton whose first state cannot be reached from its start. -/
def lateStart : Automaton :=
  Automaton.ofArrows
    { states := [⟨"u", by simp⟩, ⟨"v", by simp⟩]
      alphabet := .ofList [loopLetter]
      start := 1
      accepting := .ofList [1]
      transitions := .empty }
    (by decide) (by decide) [⟨0, loopLetter, 1⟩, ⟨1, loopLetter, 1⟩]
    (by
      intro e he
      rw [List.mem_pair] at he
      rcases he with rfl | rfl
      · exact ⟨by decide, by decide, by decide⟩
      · exact ⟨by decide, by decide, by decide⟩)

/-- The state that can be reached is all that is left, and it is renamed twice. -/
theorem lateStart_determinized :
    lateStart.isDeterministic = true ∧ lateStart.determinize.states.length = 1 ∧
      lateStart.setAt 0 = {lateStart.origin 0} ∧
        lateStart.Restricts lateStart.determinize lateStart.origin ∧
          lateStart.determinize.determinize.toDiagram =
            { lateStart.determinize.toDiagram with
              states := lateStart.determinize.states.map Symbol.braced } := by
  have hdet : lateStart.isDeterministic = true := by decide
  have hlength : lateStart.determinize.states.length = 1 := by decide +kernel
  have hfirst := determinize_restricts_then_renames.1 lateStart hdet
  exact ⟨hdet, hlength, hfirst.1 0 (by omega), hfirst.2,
    determinize_restricts_then_renames.2 lateStart⟩

end Automaton
end FormalLang
