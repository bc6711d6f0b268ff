import FormalLang.Automaton.Blueprint
import FormalLang.Proofs.Automaton.Transitions
import FormalLang.Proofs.Checks.FirstFault
import Mathlib.Data.List.GetD
import Mathlib.Data.List.Nodup

/-!
# The automaton of a blueprint

Names are checked before an automaton is made of them: first those that are declared, then
the start state, the accepting states, and the transitions in the order in which they were
entered.  What is made has the declared states and symbols in their order, and whatever is
said by names in the blueprint is said by the numbers of states in the automaton.

Main results:

- Theorem `Blueprint.enforces_toAutomaton`: the checks of a blueprint, in their order.
- Theorem `Blueprint.exists_toAutomaton_iff`: a blueprint has an automaton exactly when all
  names that it uses are declared.
- Theorem `Blueprint.realizes_of_toAutomaton`: the automaton has what the blueprint says.
-/

namespace FormalLang

namespace Diagram

variable {D : Diagram}

theorem nameOf_eq_getElem {p : Nat} (hp : p < D.states.length) : D.nameOf p = D.states[p] :=
  List.getD_eq_getElem _ _ hp

/-- Different states have different names, if no name is there twice. -/
theorem nameOf_inj (hnodup : D.states.Nodup) {p q : Nat} (hp : p < D.states.length)
    (hq : q < D.states.length) : D.nameOf p = D.nameOf q ↔ p = q := by
  rw [nameOf_eq_getElem hp, nameOf_eq_getElem hq]
  exact hnodup.getElem_inj_iff

/-- An arrow told by names: those of its states and its symbol. -/
def arrowNames (D : Diagram) (e : Arrow) : String × String × String :=
  ((D.nameOf e.source).text, e.symbol.text, (D.nameOf e.target).text)

end Diagram

/-- A state is found by its name, if no name is there twice. -/
theorem Automaton.stateNamed?_eq_some_iff {A : Automaton} (hnodup : A.states.Nodup) {name : String}
    {p : Nat} : A.stateNamed? name = some p ↔ p < A.states.length ∧ (A.nameOf p).text = name := by
  rw [stateNamed?, List.findIdx?_eq_some_iff_getElem]
  constructor
  · intro hfound
    rcases hfound with ⟨hp, hname, -⟩
    exact ⟨hp, by rw [Diagram.nameOf_eq_getElem hp, beq_iff_eq.mp hname]⟩
  · intro hname
    rcases hname with ⟨hp, rfl⟩
    rw [Diagram.nameOf_eq_getElem hp]
    refine ⟨hp, beq_self_eq_true _, fun q hqp hq => ?_⟩
    -- No state before it bears the same name.
    have hsame : A.states[q] = A.states[p] := Symbol.ext (beq_iff_eq.mp hq)
    exact Nat.ne_of_lt hqp (hnodup.getElem_inj_iff.mp hsame)

namespace Blueprint

variable {b : Blueprint} {names : OrderedSet String} {states : List Symbol}
  {alphabet : OrderedSet Symbol} {name : String}

/-! ## Declared names -/

/-- The check of a name that is declared. -/
def nameCheck (name : String) : Check AutomatonError := fun e =>
  name = "" ∧ e = .emptyName

theorem nameCheck_passes_iff : (nameCheck name).Passes ↔ name ≠ "" :=
  Check.passes_and_eq_iff

theorem declared_eq_ok_iff {symbols : List Symbol} :
    declared names = .ok symbols ↔ symbols.map Symbol.text = names.toList := by
  apply mapM_eq_ok_iff_map_eq
  intro name a
  rw [← Symbol.ofString?_eq_some_iff]
  cases Symbol.ofString? name with
  | none => simp
  | some c => simp

/-- Declaring names checks each of them. -/
theorem enforces_declared (names : OrderedSet String) :
    Enforces (names.toList.map nameCheck) (declared names) := by
  rw [List.map_eq_flatMap]
  apply Enforces.mapM
  intro name _ e
  rw [firstFault_cons_iff]
  cases hname : Symbol.ofString? name with
  | none => simp [nameCheck, Symbol.ofString?_eq_none_iff.mp hname, eq_comm]
  | some a =>
      have hne : name ≠ "" := by
        rw [ne_eq, ← Symbol.ofString?_eq_none_iff, hname]
        simp
      simp [nameCheck, hne]

/-! ## Names that are used -/

/-- The check of a name that is used for a state. -/
def stateCheck (b : Blueprint) (name : String) : Check AutomatonError := fun e =>
  name ∉ b.states ∧ e = .undeclaredState name

/-- The check of a name that is used for a symbol. -/
def letterCheck (b : Blueprint) (name : String) : Check AutomatonError := fun e =>
  name ∉ b.alphabet ∧ e = .undeclaredSymbol name

theorem stateCheck_passes_iff : (b.stateCheck name).Passes ↔ name ∈ b.states :=
  Check.passes_and_eq_iff.trans not_not

theorem letterCheck_passes_iff : (b.letterCheck name).Passes ↔ name ∈ b.alphabet :=
  Check.passes_and_eq_iff.trans not_not

/-- The checks of a transition: of the state that it leaves, the state that it leads to, and
the symbol. -/
def transitionChecks (b : Blueprint) (transition : String × String × String) :
    List (Check AutomatonError) :=
  [b.stateCheck transition.1, b.stateCheck transition.2.2, b.letterCheck transition.2.1]

/-- The checks of the start state. -/
def startChecks (b : Blueprint) : List (Check AutomatonError) :=
  match b.start with
  | none => [fun e => e = .missingStart]
  | some name => [b.stateCheck name]

/-- The place of a name is that of the only state with this name. -/
theorem place_eq_ok_iff (hnodup : states.Nodup) {p : Fin states.length} :
    place states name = .ok p ↔ states[p].text = name := by
  unfold place
  split
  · rename_i hlt
    have hfound := List.findIdx_getElem (w := hlt)
    rw [beq_iff_eq] at hfound
    rw [Except.ok.injEq]
    constructor
    · rintro rfl
      exact hfound
    · intro hp
      apply Fin.ext
      apply (List.Nodup.getElem_inj_iff hnodup).mp
      exact Symbol.ext (hfound.trans hp.symm)
  · rename_i hnot
    simp only [reduceCtorEq, false_iff]
    intro hp
    apply hnot
    apply List.findIdx_lt_length_of_exists
    exact ⟨states[p], List.getElem_mem p.isLt, beq_iff_eq.mpr hp⟩

theorem enforces_place (hstates : states.map Symbol.text = b.states.toList) (name : String) :
    Enforces [b.stateCheck name] (place states name) := by
  have hmem : name ∈ b.states ↔
      states.findIdx (fun state => state.text == name) < states.length := by
    rw [← OrderedSet.mem_toList, ← hstates, List.findIdx_lt_length, List.mem_map]
    simp only [beq_iff_eq]
  intro e
  rw [firstFault_cons_iff]
  unfold place
  by_cases hname : name ∈ b.states
  · rw [dif_pos (hmem.mp hname)]
    simp [stateCheck, hname]
  · rw [dif_neg (hmem.not.mp hname)]
    simp [stateCheck, hname, eq_comm]

/-- The letter of a name is the only symbol with this name. -/
theorem letter_eq_ok_iff {a : { a // a ∈ alphabet }} :
    letter alphabet name = .ok a ↔ a.val.text = name := by
  unfold letter
  split
  · rename_i c hc
    have htext : c.text = name := by simpa using List.find?_some hc
    rw [Except.ok.injEq, Subtype.ext_iff, Symbol.ext_iff, htext, eq_comm]
  · rename_i hnone
    simp only [reduceCtorEq, false_iff]
    intro ha
    exact List.find?_eq_none.mp hnone a.val a.property (beq_iff_eq.mpr ha)

theorem enforces_letter (halphabet : alphabet.toList.map Symbol.text = b.alphabet.toList)
    (name : String) : Enforces [b.letterCheck name] (letter alphabet name) := by
  have hmem : name ∈ b.alphabet ↔ ∃ a : { a // a ∈ alphabet }, a.val.text = name := by
    rw [← OrderedSet.mem_toList, ← halphabet, List.mem_map, Subtype.exists]
    simp only [OrderedSet.mem_toList, exists_prop]
  intro e
  rw [firstFault_cons_iff]
  by_cases hname : name ∈ b.alphabet
  · rcases hmem.mp hname with ⟨a, ha⟩
    rw [letter_eq_ok_iff.mpr ha]
    simp [letterCheck, hname]
  · have herror : letter alphabet name = .error (.undeclaredSymbol name) := by
      unfold letter
      split
      · rename_i a ha
        have htext : a.text = name := by simpa using List.find?_some ha
        exact (hname (hmem.mpr ⟨⟨a, List.mem_of_find?_eq_some ha⟩, htext⟩)).elim
      · rfl
    rw [herror]
    simp [letterCheck, hname, eq_comm]

/-! ## Transitions -/

/-- An arrow leads between the states of a transition with its symbol, told by their names. -/
theorem arrow_eq_ok_iff {D : Diagram} (hnodup : D.states.Nodup)
    {transition : String × String × String} {e : { e // D.HasPlaceFor e }} :
    arrow D transition = .ok e ↔ D.arrowNames e.val = transition := by
  rcases transition with ⟨source, symbol, target⟩
  rcases e with ⟨⟨p, a, q⟩, hp, ha, hq⟩
  simp only [arrow, bind_eq_ok_iff, place_eq_ok_iff hnodup, letter_eq_ok_iff,
    Diagram.arrowNames, Prod.mk.injEq, Diagram.nameOf_eq_getElem hp, Diagram.nameOf_eq_getElem hq]
  constructor
  · intro h
    rcases h with ⟨p', hsource, q', htarget, a', hsymbol, heq⟩
    cases heq
    exact ⟨hsource, hsymbol, htarget⟩
  · intro h
    rcases h with ⟨hsource, hsymbol, htarget⟩
    exact ⟨⟨p, hp⟩, hsource, ⟨q, hq⟩, htarget, ⟨a, ha⟩, hsymbol, rfl⟩

theorem enforces_arrow {D : Diagram} (hstates : D.states.map Symbol.text = b.states.toList)
    (halphabet : D.alphabet.toList.map Symbol.text = b.alphabet.toList)
    (transition : String × String × String) :
    Enforces (b.transitionChecks transition) (arrow D transition) := by
  apply (enforces_place hstates transition.1).bind
  intro source _
  apply (enforces_place hstates transition.2.2).bind
  intro target _
  apply (enforces_letter halphabet transition.2.1).bind
  intro a _
  exact Enforces.ok _

/-! ## Whole blueprints -/

/-- The checks of a blueprint, in the order in which they are made. -/
def checks (b : Blueprint) : List (Check AutomatonError) :=
  b.states.toList.map nameCheck ++ (b.alphabet.toList.map nameCheck ++ (b.startChecks ++
    (b.accepting.toList.map b.stateCheck ++ b.transitions.flatMap b.transitionChecks)))

theorem nodup_of_states_text (hstates : states.map Symbol.text = b.states.toList) :
    states.Nodup := by
  apply List.Nodup.of_map Symbol.text
  rw [hstates]
  exact b.states.nodup

/-- The symbols with distinct names are all in the alphabet, in their order. -/
theorem toList_alphabet {symbols : List Symbol}
    (hsymbols : symbols.map Symbol.text = names.toList) :
    (OrderedSet.ofList symbols).toList = symbols := by
  apply OrderedSet.toList_ofList_of_nodup
  apply List.Nodup.of_map Symbol.text
  rw [hsymbols]
  exact names.nodup

theorem enforces_startPlace (hstates : states.map Symbol.text = b.states.toList) :
    Enforces b.startChecks (startPlace states b.start) := by
  unfold startChecks startPlace
  cases b.start with
  | none =>
      intro e
      simp [firstFault_cons_iff, eq_comm]
  | some name => exact enforces_place hstates name

/-- The automaton of a blueprint is refused for the first fault that its checks find, and for
nothing else. -/
theorem enforces_toAutomaton (b : Blueprint) : Enforces b.checks b.toAutomaton := by
  apply (enforces_declared b.states).bind
  intro states hstates
  apply (enforces_declared b.alphabet).bind
  intro symbols hsymbols
  rw [declared_eq_ok_iff] at hstates hsymbols
  apply (enforces_startPlace hstates).bind
  intro start _
  have haccepting : Enforces (b.accepting.toList.map b.stateCheck)
      (b.accepting.toList.mapM (place states)) := by
    rw [List.map_eq_flatMap]
    exact Enforces.mapM fun name _ => enforces_place hstates name
  apply haccepting.bind
  intro accepting _
  have halphabet : (OrderedSet.ofList symbols).toList.map Symbol.text = b.alphabet.toList := by
    rw [toList_alphabet hsymbols, hsymbols]
  rw [← List.append_nil (b.transitions.flatMap b.transitionChecks)]
  apply (Enforces.mapM fun transition _ => enforces_arrow hstates halphabet transition).bind
  intro arrows _
  exact Enforces.ok _

/-- A blueprint without fault: no declared name is empty, a start state is set, and all names
that are used are declared. -/
structure Complete (b : Blueprint) : Prop where
  state_ne_empty : ∀ name ∈ b.states, name ≠ ""
  letter_ne_empty : ∀ name ∈ b.alphabet, name ≠ ""
  start_mem : ∃ name ∈ b.states, b.start = some name
  accepting_mem : ∀ name ∈ b.accepting, name ∈ b.states
  transition_mem : ∀ t ∈ b.transitions, t.1 ∈ b.states ∧ t.2.2 ∈ b.states ∧ t.2.1 ∈ b.alphabet

theorem startChecks_pass_iff :
    (∀ c ∈ b.startChecks, c.Passes) ↔ ∃ name ∈ b.states, b.start = some name := by
  unfold startChecks
  cases b.start with
  | none => simp [Check.Passes]
  | some name => simp [stateCheck_passes_iff]

/-- A blueprint has an automaton exactly when it is without fault. -/
theorem exists_toAutomaton_iff : (∃ A, b.toAutomaton = .ok A) ↔ b.Complete := by
  rw [b.enforces_toAutomaton.exists_ok_iff]
  simp only [checks, transitionChecks, List.forall_mem_append, List.forall_mem_map,
    List.forall_mem_flatMap, List.forall_mem_cons, startChecks_pass_iff, nameCheck_passes_iff,
    stateCheck_passes_iff, letterCheck_passes_iff, OrderedSet.mem_toList]
  constructor
  · intro h
    rcases h with ⟨hstates, hletters, hstart, haccepting, htransitions⟩
    refine ⟨hstates, hletters, hstart, haccepting, fun t ht => ?_⟩
    exact ⟨(htransitions t ht).1, (htransitions t ht).2.1, (htransitions t ht).2.2.1⟩
  · intro h
    refine ⟨h.state_ne_empty, h.letter_ne_empty, h.start_mem, h.accepting_mem, fun t ht => ?_⟩
    have hmem := h.transition_mem t ht
    exact ⟨hmem.1, hmem.2.1, hmem.2.2, by simp⟩

end Blueprint

/-! ## What is built -/

/-- An automaton has what a blueprint says, in the order in which it was entered: its states
and symbols are the declared ones, and start, accepting states and transitions are those of
the blueprint, told by names. -/
structure Automaton.Realizes (A : Automaton) (b : Blueprint) : Prop where
  states_text : A.states.map Symbol.text = b.states.toList
  alphabet_text : A.alphabet.toList.map Symbol.text = b.alphabet.toList
  start_text : b.start = some (A.nameOf A.start).text
  accepting_text : A.accepting.toList.map (fun p => (A.nameOf p).text) = b.accepting.toList
  arrows : ∃ arrows, A.transitions = .ofArrows arrows ∧
    (∀ e ∈ arrows, A.HasPlaceFor e) ∧ arrows.map A.arrowNames = b.transitions

theorem Blueprint.startPlace_eq_ok_iff {states : List Symbol} (hnodup : states.Nodup)
    {start : Option String} {p : Fin states.length} :
    startPlace states start = .ok p ↔ start = some states[p].text := by
  cases start with
  | none => simp [startPlace]
  | some name => rw [startPlace, place_eq_ok_iff hnodup, Option.some.injEq, eq_comm]

/-- The automaton of a blueprint has what the blueprint says. -/
theorem Blueprint.realizes_of_toAutomaton {b : Blueprint} {A : Automaton}
    (h : b.toAutomaton = .ok A) : A.Realizes b := by
  unfold toAutomaton at h
  rcases bind_eq_ok_iff.mp h with ⟨states, hstates, h⟩
  rcases bind_eq_ok_iff.mp h with ⟨symbols, hsymbols, h⟩
  rcases bind_eq_ok_iff.mp h with ⟨start, hstart, h⟩
  rcases bind_eq_ok_iff.mp h with ⟨accepting, haccepting, h⟩
  rcases bind_eq_ok_iff.mp h with ⟨arrows, harrows, h⟩
  cases h
  rw [declared_eq_ok_iff] at hstates hsymbols
  have hnodup := nodup_of_states_text hstates
  rw [startPlace_eq_ok_iff hnodup] at hstart
  rw [mapM_eq_ok_iff_map_eq fun name p => place_eq_ok_iff hnodup] at haccepting
  rw [mapM_eq_ok_iff_map_eq fun transition e => arrow_eq_ok_iff hnodup] at harrows
  have hname : ∀ p : Fin states.length, states.getD p.val Symbol.unknown = states[p] :=
    fun p => List.getD_eq_getElem _ _ p.isLt
  have hplaces : (accepting.map Fin.val).map (fun p => (states.getD p Symbol.unknown).text) =
      b.accepting.toList := by
    rw [← haccepting, List.map_map]
    refine List.map_congr_left fun p _ => ?_
    rw [Function.comp_apply, hname p]
  refine ⟨hstates, ?_, ?_, ?_, arrows.map Subtype.val, rfl, ?_, ?_⟩
  · change (OrderedSet.ofList symbols).toList.map Symbol.text = _
    rw [toList_alphabet hsymbols, hsymbols]
  · change b.start = some (states.getD start.val Symbol.unknown).text
    rw [hname start, hstart]
  · change (OrderedSet.ofList (accepting.map Fin.val)).toList.map
      (fun p => (states.getD p Symbol.unknown).text) = _
    rw [OrderedSet.toList_ofList_of_nodup, hplaces]
    apply List.Nodup.of_map fun p => (states.getD p Symbol.unknown).text
    rw [hplaces]
    exact b.accepting.nodup
  · intro e he
    rcases List.mem_map.mp he with ⟨f, -, rfl⟩
    exact ⟨f.property.source_lt, f.property.symbol_mem, f.property.target_lt⟩
  · rw [List.map_map]
    exact harrows

/-! ## Names and numbers -/

namespace Automaton.Realizes

variable {A : Automaton} {b : Blueprint} {p q : Nat} {a : Symbol}

theorem nodup_states (h : A.Realizes b) : A.states.Nodup :=
  Blueprint.nodup_of_states_text h.states_text

/-- Different states have different names. -/
theorem nameOf_inj (h : A.Realizes b) (hp : p < A.states.length) (hq : q < A.states.length) :
    A.nameOf p = A.nameOf q ↔ p = q :=
  Diagram.nameOf_inj h.nodup_states hp hq

theorem state_mem_iff (h : A.Realizes b) (name : Symbol) :
    name ∈ A.states ↔ name.text ∈ b.states := by
  rw [← OrderedSet.mem_toList, ← h.states_text]
  exact (List.mem_map_of_injective fun _ _ => Symbol.ext).symm

theorem symbol_mem_iff (h : A.Realizes b) : a ∈ A.alphabet ↔ a.text ∈ b.alphabet := by
  rw [← OrderedSet.mem_toList, ← OrderedSet.mem_toList, ← h.alphabet_text]
  exact (List.mem_map_of_injective fun _ _ => Symbol.ext).symm

/-- The accepting states are those whose names were entered as accepting. -/
theorem accepting_iff (h : A.Realizes b) (hp : p < A.states.length) :
    p ∈ A.accepting ↔ (A.nameOf p).text ∈ b.accepting := by
  rw [← OrderedSet.mem_toList, ← OrderedSet.mem_toList, ← h.accepting_text, List.mem_map]
  constructor
  · intro hmem
    exact ⟨p, hmem, rfl⟩
  · intro hmem
    rcases hmem with ⟨q, hq, htext⟩
    have hqp := (h.nameOf_inj (A.wellFormed.accepting_lt q hq) hp).mp (Symbol.ext htext)
    exact hqp ▸ hq

/-- One state leads to another exactly when a transition between their names was entered. -/
theorem mem_targets_iff (h : A.Realizes b) (hp : p < A.states.length)
    (hq : q < A.states.length) :
    q ∈ A.targets p a ↔ A.arrowNames ⟨p, a, q⟩ ∈ b.transitions := by
  rcases h.arrows with ⟨arrows, htransitions, hplaces, hnames⟩
  rw [Diagram.mem_targets_iff_of_eq htransitions, ← hnames, List.mem_map]
  constructor
  · intro hmem
    exact ⟨_, hmem, rfl⟩
  · intro hmem
    rcases hmem with ⟨⟨p', a', q'⟩, he, heq⟩
    simp only [Diagram.arrowNames, Prod.mk.injEq, ← Symbol.ext_iff] at heq
    have hplace := hplaces _ he
    rw [h.nameOf_inj hplace.source_lt hp, h.nameOf_inj hplace.target_lt hq] at heq
    rcases heq with ⟨rfl, rfl, rfl⟩
    exact he

end Automaton.Realizes
end FormalLang
