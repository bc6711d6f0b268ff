import FormalLang.Proofs.Access.Guarded
import FormalLang.Proofs.Automaton.Construction

/-!
# Building automata without failing

A blueprint is validated before anything is built from it.  After that the places of its
states are looked up by their names, and symbols are made of the names of its alphabet and
of its transitions.  No such access fails, since each name was found to be declared, and no
declared name is empty.

Main results:

- Theorem `Blueprint.alike_place` and Theorem `Blueprint.alike_letter`: a name that passes
  its check can be looked up.
- Theorem `Blueprint.alike_validate`: what was validated can be built.
- Theorem `Blueprint.build?_eq`: no access fails when a blueprint is built.
-/

namespace FormalLang.Blueprint

variable {b : Blueprint} {states alphabet : List Symbol} {name : String}

/-! ## Validation -/

/-- Refuse the name of a state that is not declared. -/
def checkState (b : Blueprint) (name : String) : Except AutomatonError Unit :=
  if name ∈ b.states then .ok () else .error (.undeclaredState name)

/-- Refuse the name of a symbol that is not declared. -/
def checkLetter (b : Blueprint) (name : String) : Except AutomatonError Unit :=
  if name ∈ b.alphabet then .ok () else .error (.undeclaredSymbol name)

/-- Refuse a transition with a name that is not declared. -/
def checkTransition (b : Blueprint) (transition : String × String × String) :
    Except AutomatonError Unit := do
  b.checkState transition.1
  b.checkState transition.2.2
  b.checkLetter transition.2.1

/-- The name of the start state, once there is nothing for which the blueprint is refused. -/
def validate (b : Blueprint) : Except AutomatonError String :=
  if "" ∈ b.states.toList ++ b.alphabet.toList then .error .emptyName
  else
    match b.start with
    | none => .error .missingStart
    | some start => do
        b.checkState start
        b.accepting.toList.forM b.checkState
        b.transitions.forM b.checkTransition
        return start

/-! ## Lookups -/

/-- The arrow of a transition: both states are looked up by their names, and a symbol is
made of the name between them. -/
def arrow? (b : Blueprint) (transition : String × String × String) : Option Arrow := do
  let source ← b.states.toList.idxOf? transition.1
  let a ← Symbol.ofString? transition.2.1
  let target ← b.states.toList.idxOf? transition.2.2
  return ⟨source, a, target⟩

/-- Build an automaton with lookups only. -/
def construct? (b : Blueprint) (start : String) : Option Automaton := do
  let states ← b.states.toList.mapM Symbol.ofString?
  let p ← b.states.toList.idxOf? start
  let accepting ← b.accepting.toList.mapM fun name => b.states.toList.idxOf? name
  let alphabet ← b.alphabet.toList.mapM Symbol.ofString?
  let arrows ← b.transitions.mapM b.arrow?
  let layout : Diagram :=
    { states := states
      alphabet := .ofList alphabet
      start := p
      accepting := .ofList accepting
      transitions := .empty }
  (layout.linkAll arrows).checked?

/-- Validate a blueprint and build its automaton. -/
def build? (b : Blueprint) : Guarded AutomatonError Automaton := do
  let start ← Guarded.of b.validate
  Guarded.access (b.construct? start)

/-! ## What passes its check -/

/-- Names are declared if symbols can be made of them. -/
theorem declared_eq (names : OrderedSet String) :
    declared names =
      match names.toList.mapM Symbol.ofString? with
      | some symbols => .ok symbols
      | none => .error .emptyName := by
  unfold declared
  induction names.toList with
  | nil => rfl
  | cons name names ih =>
      rw [List.mapM_cons, List.mapM_cons, ih]
      cases Symbol.ofString? name with
      | none => rfl
      | some a =>
          cases names.mapM Symbol.ofString? with
          | none => rfl
          | some symbols => rfl

/-- A state that passes its check has a place, and this is where its name is found. -/
theorem alike_place (hstates : states.map Symbol.text = b.states.toList) (name : String) :
    Alike (fun _ (p : Fin states.length) => b.states.toList.idxOf? name = some p.val)
      (b.checkState name) (place states name) := by
  have hfirst : states.findIdx (fun state => state.text == name) = b.states.toList.idxOf name := by
    rw [← hstates, List.idxOf, List.findIdx_map]
    rfl
  have hlength : states.length = b.states.toList.length := by
    rw [← hstates, List.length_map]
  unfold checkState place
  by_cases hname : name ∈ b.states
  · have hlt : states.findIdx (fun state => state.text == name) < states.length := by
      rw [hfirst, hlength]
      exact List.idxOf_lt_length_of_mem hname
    rw [if_pos hname, dif_pos hlt]
    exact .ok ((idxOf?_of_mem hname).trans (congrArg some hfirst.symm))
  · have hnot : ¬states.findIdx (fun state => state.text == name) < states.length := by
      rw [hfirst, hlength, List.idxOf_lt_length_iff]
      exact hname
    rw [if_neg hname, dif_neg hnot]
    exact .error _

/-- A symbol that passes its check is in the alphabet, and it is the one with its name. -/
theorem alike_letter (halphabet : alphabet.map Symbol.text = b.alphabet.toList) (name : String) :
    Alike (fun _ (a : { a // a ∈ OrderedSet.ofList alphabet }) =>
        Symbol.ofString? name = some a.val)
      (b.checkLetter name) (letter (.ofList alphabet) name) := by
  have hmem : name ∈ b.alphabet ↔ ∃ a ∈ OrderedSet.ofList alphabet, a.text = name := by
    simp only [OrderedSet.mem_ofList, ← List.mem_map, halphabet, OrderedSet.mem_toList]
  unfold checkLetter letter
  split
  · rename_i hname
    split
    · rename_i a ha
      have htext : a.text = name := by simpa using List.find?_some ha
      exact .ok (Symbol.ofString?_eq_some_iff.mpr htext)
    · rename_i hnone
      rcases hmem.mp hname with ⟨a, ha, htext⟩
      have hnot := List.find?_eq_none.mp hnone a ha
      exact (hnot (beq_iff_eq.mpr htext)).elim
  · rename_i hname
    split
    · rename_i a ha
      have htext : a.text = name := by simpa using List.find?_some ha
      exact (hname (hmem.mpr ⟨a, List.mem_of_find?_eq_some ha, htext⟩)).elim
    · exact .error _

/-- The names of a transition that passes its check can be looked up. -/
theorem alike_arrow {D : Diagram} (hstates : D.states.map Symbol.text = b.states.toList)
    (halphabet : alphabet.map Symbol.text = b.alphabet.toList)
    (hD : D.alphabet = .ofList alphabet) (transition : String × String × String) :
    Alike (fun _ (e : { e // D.HasPlaceFor e }) => b.arrow? transition = some e.val)
      (b.checkTransition transition) (arrow D transition) := by
  unfold checkTransition arrow
  refine (alike_place hstates transition.1).bind fun _ source hsource => ?_
  refine (alike_place hstates transition.2.2).bind fun _ target htarget => ?_
  have hletter : Alike (fun _ (a : { a // a ∈ D.alphabet }) =>
      Symbol.ofString? transition.2.1 = some a.val)
      (b.checkLetter transition.2.1) (letter D.alphabet transition.2.1) := by
    rw [hD]
    exact alike_letter halphabet transition.2.1
  rw [← bind_pure (b.checkLetter transition.2.1)]
  refine hletter.bind fun _ a ha => .ok ?_
  rw [arrow?, hsource, ha, htarget]
  rfl

/-! ## What was validated -/

/-- A blueprint is refused by its validation as it is when its automaton is made, and what
was validated can be built. -/
theorem alike_validate (b : Blueprint) :
    Alike (fun start A => b.construct? start = some A) b.validate b.toAutomaton := by
  unfold validate toAutomaton
  rw [declared_eq, declared_eq]
  by_cases hempty : "" ∈ b.states.toList ++ b.alphabet.toList
  · rw [if_pos hempty]
    rcases List.mem_append.mp hempty with hstate | hletter
    · rw [Symbol.mapM_ofString?_of_empty_mem hstate]
      exact .error _
    · rw [Symbol.mapM_ofString?_of_empty_mem hletter]
      cases b.states.toList.mapM Symbol.ofString? with
      | none => exact .error _
      | some states => exact .error _
  · rw [if_neg hempty]
    have hnames : ∀ name ∈ b.states.toList ++ b.alphabet.toList, name ≠ "" :=
      fun name hname heq => hempty (heq ▸ hname)
    rcases Symbol.exists_mapM_ofString? fun name h => hnames name (List.mem_append_left _ h) with
      ⟨states, hstates, hstatesText⟩
    rcases Symbol.exists_mapM_ofString? fun name h => hnames name (List.mem_append_right _ h) with
      ⟨alphabet, halphabet, halphabetText⟩
    rw [hstates, halphabet]
    cases b.start with
    | none => exact .error _
    | some start =>
        refine (alike_place hstatesText start).bind fun _ p hp => ?_
        refine (Alike.mapM_forM fun name _ => alike_place hstatesText name).bind
          fun _ accepting haccepting => ?_
        refine (Alike.mapM_forM fun transition _ =>
          alike_arrow hstatesText halphabetText rfl transition).bind fun _ arrows harrows => ?_
        refine .ok ?_
        unfold construct?
        simp only [hstates, hp, haccepting, halphabet, harrows, Option.bind_eq_bind,
          Option.bind_some]
        refine Diagram.checked?_eq_some (Diagram.linkAll_of_symbol_mem fun e he => ?_)
        rcases List.mem_map.mp he with ⟨f, -, rfl⟩
        exact f.property.symbol_mem

/-- No access fails when a blueprint is built. -/
theorem build?_eq (b : Blueprint) : b.build? = .of b.toAutomaton :=
  b.alike_validate.of_bind_access

end FormalLang.Blueprint
