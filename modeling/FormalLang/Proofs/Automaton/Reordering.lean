import FormalLang.Proofs.Automaton.Entries
import FormalLang.Proofs.Automaton.Renumbering

/-!
# Definitions of automata in another order

A definition declares names, in some order, some of them perhaps several times, and a
transition of it may list several targets.  The order decides how the states are
numbered, and in which order the targets of a state stand; it decides neither whether
there is an automaton nor what this automaton accepts.  The states of two automata with
the same entries are matched by their names, and this is a renumbering.

Main results:

- Theorem `Blueprint.ofLists_eq`: what a blueprint has collected from lists.
- Theorem `Blueprint.SameEntries.exists_toAutomaton_iff`: blueprints with the same entries
  have automata or faults alike.
- Theorem `Blueprint.SameEntries.renumbers`: their automata differ in the numbers of states.
- Theorem `Blueprint.toAutomaton_reordered`: what is built from lists that were reordered.
-/

namespace FormalLang

namespace Blueprint

variable {b b' : Blueprint}

/-! ## Blueprints of lists -/

/-- Transitions that list several targets, with one target each. -/
def spread (transitions : List (String × String × List String)) :
    List (String × String × String) :=
  transitions.flatMap fun t => t.2.2.map fun target => (t.1, t.2.1, target)

theorem mem_spread_iff {transitions : List (String × String × List String)}
    {t : String × String × String} :
    t ∈ spread transitions ↔ ∃ targets, (t.1, t.2.1, targets) ∈ transitions ∧ t.2.2 ∈ targets := by
  rcases t with ⟨source, symbol, target⟩
  simp only [spread, List.mem_flatMap, List.mem_map, Prod.mk.injEq, Prod.exists]
  constructor
  · intro h
    rcases h with ⟨_, _, targets, hmem, _, htarget, rfl, rfl, rfl⟩
    exact ⟨targets, hmem, htarget⟩
  · intro h
    rcases h with ⟨targets, hmem, htarget⟩
    exact ⟨source, symbol, targets, hmem, target, htarget, rfl, rfl, rfl⟩

/-- A blueprint of lists has the distinct names of each list, the start state, and a
transition for every target. -/
theorem ofLists_eq (states alphabet : List String) (start : String) (accepting : List String)
    (transitions : List (String × String × List String)) :
    ofLists states alphabet start accepting transitions =
      { states := .ofList states
        alphabet := .ofList alphabet
        start := some start
        accepting := .ofList accepting
        transitions := spread transitions } := by
  have hspread : (transitions.flatMap fun t =>
      t.2.2.map fun target => Entry.transition t.1 t.2.1 target) =
        (spread transitions).map fun t => .transition t.1 t.2.1 t.2.2 := by
    simp only [spread, List.map_flatMap, List.map_map, Function.comp_def]
  rw [ofLists, hspread, enterAll_empty, ofEntries, lastStart?]
  simp [List.filterMap_append, List.filterMap_map, Function.comp_def, List.filterMap_cons,
    Entry.state?, Entry.symbol?, Entry.start?, Entry.accepting?, Entry.transition?]

/-! ## The same entries -/

/-- Two blueprints with the same entries, in any order. -/
structure SameEntries (b b' : Blueprint) : Prop where
  state_iff : ∀ name, name ∈ b.states ↔ name ∈ b'.states
  symbol_iff : ∀ name, name ∈ b.alphabet ↔ name ∈ b'.alphabet
  start_eq : b.start = b'.start
  accepting_iff : ∀ name, name ∈ b.accepting ↔ name ∈ b'.accepting
  transition_iff : ∀ t, t ∈ b.transitions ↔ t ∈ b'.transitions

namespace SameEntries

theorem symm (h : SameEntries b b') : SameEntries b' b where
  state_iff name := (h.state_iff name).symm
  symbol_iff name := (h.symbol_iff name).symm
  start_eq := h.start_eq.symm
  accepting_iff name := (h.accepting_iff name).symm
  transition_iff t := (h.transition_iff t).symm

theorem complete (h : SameEntries b b') (hb : b.Complete) : b'.Complete := by
  constructor
  · simpa only [h.state_iff] using hb.state_ne_empty
  · simpa only [h.symbol_iff] using hb.letter_ne_empty
  · simpa only [h.state_iff, h.start_eq] using hb.start_mem
  · simpa only [h.accepting_iff, h.state_iff] using hb.accepting_mem
  · simpa only [h.transition_iff, h.state_iff, h.symbol_iff] using hb.transition_mem

/-- Blueprints with the same entries have automata or faults alike. -/
theorem exists_toAutomaton_iff (h : SameEntries b b') :
    (∃ A, b.toAutomaton = .ok A) ↔ ∃ B, b'.toAutomaton = .ok B := by
  rw [Blueprint.exists_toAutomaton_iff, Blueprint.exists_toAutomaton_iff]
  exact ⟨h.complete, h.symm.complete⟩

end SameEntries

end Blueprint

/-! ## States with the same name -/

/-- The state of one automaton that bears the name of a state of another. -/
def Automaton.placeIn (A B : Automaton) (p : Nat) : Nat :=
  B.states.idxOf (A.nameOf p)

theorem Diagram.nameOf_mem {D : Diagram} {p : Nat} (hp : p < D.states.length) :
    D.nameOf p ∈ D.states := by
  rw [nameOf_eq_getElem hp]
  exact List.getElem_mem hp

theorem Diagram.nameOf_idxOf {D : Diagram} {name : Symbol} (h : name ∈ D.states) :
    D.nameOf (D.states.idxOf name) = name := by
  rw [nameOf_eq_getElem (List.idxOf_lt_length_iff.mpr h), List.getElem_idxOf]

namespace Blueprint.SameEntries

variable {b b' : Blueprint} {A B : Automaton} {p : Nat}

theorem nameOf_mem (h : SameEntries b b') (hA : A.Realizes b) (hB : B.Realizes b')
    (hp : p < A.states.length) : A.nameOf p ∈ B.states := by
  rw [hB.state_mem_iff, ← h.state_iff, ← hA.state_mem_iff]
  exact Diagram.nameOf_mem hp

theorem placeIn_lt (h : SameEntries b b') (hA : A.Realizes b) (hB : B.Realizes b')
    (hp : p < A.states.length) : A.placeIn B p < B.states.length :=
  List.idxOf_lt_length_iff.mpr (h.nameOf_mem hA hB hp)

theorem nameOf_placeIn (h : SameEntries b b') (hA : A.Realizes b) (hB : B.Realizes b')
    (hp : p < A.states.length) : B.nameOf (A.placeIn B p) = A.nameOf p :=
  Diagram.nameOf_idxOf (h.nameOf_mem hA hB hp)

/-- Going to the other automaton and back leads to the same state. -/
theorem placeIn_placeIn (h : SameEntries b b') (hA : A.Realizes b) (hB : B.Realizes b')
    (hp : p < A.states.length) : B.placeIn A (A.placeIn B p) = p := by
  have hback := h.symm.placeIn_lt hB hA (h.placeIn_lt hA hB hp)
  apply (hA.nameOf_inj hback hp).mp
  rw [h.symm.nameOf_placeIn hB hA (h.placeIn_lt hA hB hp), h.nameOf_placeIn hA hB hp]

/-- The states of automata with the same entries are matched by their names, and this
keeps all that is said by names. -/
theorem renumbers (h : SameEntries b b') (hA : A.Realizes b) (hB : B.Realizes b') :
    Automaton.Renumbers (A.placeIn B) A B := by
  have hlt := fun p hp => h.placeIn_lt (p := p) hA hB hp
  have hname := fun p hp => h.nameOf_placeIn (p := p) hA hB hp
  constructor
  · refine Set.BijOn.mk hlt ?_ ?_
    · intro p hp q hq heq
      rw [← h.placeIn_placeIn hA hB hp, heq, h.placeIn_placeIn hA hB hq]
    · intro r hr
      exact ⟨B.placeIn A r, h.symm.placeIn_lt hB hA hr, h.symm.placeIn_placeIn hB hA hr⟩
  · intro a
    rw [hA.symbol_mem_iff, hB.symbol_mem_iff, h.symbol_iff]
  · have hstart := A.wellFormed.start_lt
    apply (hB.nameOf_inj (hlt _ hstart) B.wellFormed.start_lt).mp
    rw [hname _ hstart]
    have htext := h.start_eq
    rw [hA.start_text, hB.start_text, Option.some.injEq] at htext
    exact Symbol.ext htext
  · intro p hp
    rw [hB.accepting_iff (hlt p hp), hA.accepting_iff hp, hname p hp, h.accepting_iff]
  · intro p hp q hq a
    rw [hB.mem_targets_iff (hlt p hp) (hlt q hq), hA.mem_targets_iff hp hq, h.transition_iff,
      Diagram.arrowNames, Diagram.arrowNames, hname p hp, hname q hq]

end Blueprint.SameEntries

/-! ## Other orders -/

namespace Blueprint

variable {states alphabet accepting states' alphabet' accepting' : List String}
  {transitions transitions' : List (String × String × List String)}

/-- Two definitions with the same names of states, of symbols and of accepting states, and
with the same targets for a state and a symbol. -/
structure SameDefinition (states alphabet accepting : List String)
    (transitions : List (String × String × List String))
    (states' alphabet' accepting' : List String)
    (transitions' : List (String × String × List String)) : Prop where
  state_iff : ∀ name, name ∈ states ↔ name ∈ states'
  symbol_iff : ∀ name, name ∈ alphabet ↔ name ∈ alphabet'
  accepting_iff : ∀ name, name ∈ accepting ↔ name ∈ accepting'
  transition_iff : ∀ source symbol target,
    (∃ targets, (source, symbol, targets) ∈ transitions ∧ target ∈ targets) ↔
      ∃ targets, (source, symbol, targets) ∈ transitions' ∧ target ∈ targets

theorem SameDefinition.sameEntries
    (h : SameDefinition states alphabet accepting transitions states' alphabet' accepting'
      transitions') (start : String) :
    SameEntries (ofLists states alphabet start accepting transitions)
      (ofLists states' alphabet' start accepting' transitions') := by
  rw [ofLists_eq, ofLists_eq]
  constructor
  · intro name
    simp only [OrderedSet.mem_ofList, h.state_iff]
  · intro name
    simp only [OrderedSet.mem_ofList, h.symbol_iff]
  · rfl
  · intro name
    simp only [OrderedSet.mem_ofList, h.accepting_iff]
  · intro t
    simp only [mem_spread_iff, h.transition_iff]

/-- The lists of a definition may be reordered and repeated, and the targets of a
transition be given together or one by one: the definition is refused as before, or both
automata accept the same texts and words and are deterministic or not alike. -/
theorem toAutomaton_reordered
    (h : SameDefinition states alphabet accepting transitions states' alphabet' accepting'
      transitions') (start : String) :
    ((∃ e, (ofLists states alphabet start accepting transitions).toAutomaton = .error e) ∧
        ∃ e, (ofLists states' alphabet' start accepting' transitions').toAutomaton = .error e) ∨
      ∃ A B, (ofLists states alphabet start accepting transitions).toAutomaton = .ok A ∧
        (ofLists states' alphabet' start accepting' transitions').toAutomaton = .ok B ∧
          (∀ text, A.acceptsText text = B.acceptsText text) ∧
            (∀ w, A.accepts w = B.accepts w) ∧ A.isDeterministic = B.isDeterministic := by
  have hsame := h.sameEntries start
  rcases errors_or_oks hsame.exists_toAutomaton_iff with hfail | hbuilt
  · exact Or.inl hfail
  · rcases hbuilt with ⟨A, B, hA, hB⟩
    have hrenumbers :=
      hsame.renumbers (realizes_of_toAutomaton hA) (realizes_of_toAutomaton hB)
    exact Or.inr ⟨A, B, hA, hB, hrenumbers.acceptsText_eq, hrenumbers.accepts_eq,
      hrenumbers.isDeterministic_eq⟩

/-- A definition with all targets of a state and a symbol together, and one with other
orders, repeated names, and the targets given in two transitions. -/
theorem scatteredTargets_built :
    SameDefinition ["p", "q"] ["v", "vv"] ["p", "q"] [("p", "v", ["p", "q"]), ("q", "vv", [])]
        ["q", "p", "q"] ["vv", "v"] ["q", "p"] [("p", "v", ["q"]), ("p", "v", ["q", "p"])] ∧
      ∃ A B,
        (ofLists ["p", "q"] ["v", "vv"] "p" ["p", "q"]
          [("p", "v", ["p", "q"]), ("q", "vv", [])]).toAutomaton = .ok A ∧
        (ofLists ["q", "p", "q"] ["vv", "v"] "p" ["q", "p"]
          [("p", "v", ["q"]), ("p", "v", ["q", "p"])]).toAutomaton = .ok B ∧
        (∀ text, A.acceptsText text = B.acceptsText text) ∧
          (∀ w, A.accepts w = B.accepts w) ∧ A.isDeterministic = B.isDeterministic := by
  have hsame : SameDefinition ["p", "q"] ["v", "vv"] ["p", "q"]
      [("p", "v", ["p", "q"]), ("q", "vv", [])] ["q", "p", "q"] ["vv", "v"] ["q", "p"]
      [("p", "v", ["q"]), ("p", "v", ["q", "p"])] := by
    constructor
    · simp [or_comm]
    · simp [or_comm]
    · simp [or_comm]
    · intro source symbol target
      grind
  have hok : (ofLists ["p", "q"] ["v", "vv"] "p" ["p", "q"]
      [("p", "v", ["p", "q"]), ("q", "vv", [])]).toAutomaton.isOk = true := by decide
  refine ⟨hsame, (toAutomaton_reordered hsame "p").resolve_left fun hfail => ?_⟩
  rcases hfail.1 with ⟨e, he⟩
  rw [he] at hok
  contradiction

end Blueprint
end FormalLang
