import FormalLang.Proofs.Automaton.Validation
import FormalLang.Proofs.Ordered.FirstAppearance
import Mathlib.Data.List.Induction

/-!
# Blueprints made entry by entry

A blueprint begins empty, and entries are made in it one after the other.  What it has in the
end is read off the list of its entries: the names of each kind in the order in which they
first came up, the last of the start states, and all transitions.  So are the first fault that
is found in it and the automaton that it has without a fault.

The automaton may be built between two entries, before all names are declared.  Such a build
leaves the blueprint as it is, and entries of different kinds do not interfere; so the last build
depends on the order within each kind only.

Main results:

- Theorem `Blueprint.enterAll_empty`: what a blueprint has collected.
- Theorem `Blueprint.enforces_enterAll`: its checks.
- Theorem `Automaton.Realizes.follows`: its automaton.
- Theorem `Blueprint.toAutomaton_validates`: all of this for any entries.
- Theorem `Blueprint.callAll_fst`: the blueprint after entries and builds.
- Theorem `Blueprint.lastBuild_of_sameByKind`: the order in which calls of different kinds are
  made does not matter to the last build.
-/

namespace FormalLang

namespace Blueprint

/-! ## What entries say -/

/-- The name of a state that is declared. -/
def Entry.state? : Entry → Option String
  | .state name => some name
  | _ => none

/-- The name of a symbol that is declared. -/
def Entry.symbol? : Entry → Option String
  | .symbol name => some name
  | _ => none

/-- The name of a state at which the automaton starts. -/
def Entry.start? : Entry → Option String
  | .start name => some name
  | _ => none

/-- The name of a state that accepts. -/
def Entry.accepting? : Entry → Option String
  | .accepting name => some name
  | _ => none

/-- A transition, told by names. -/
def Entry.transition? : Entry → Option (String × String × String)
  | .transition source letter target => some (source, letter, target)
  | _ => none

section Names

variable {entry : Entry} {name : String} {t : String × String × String}

theorem Entry.state?_eq_some_iff : entry.state? = some name ↔ entry = .state name := by
  cases entry <;> simp [Entry.state?]

theorem Entry.symbol?_eq_some_iff : entry.symbol? = some name ↔ entry = .symbol name := by
  cases entry <;> simp [Entry.symbol?]

theorem Entry.start?_eq_some_iff : entry.start? = some name ↔ entry = .start name := by
  cases entry <;> simp [Entry.start?]

theorem Entry.accepting?_eq_some_iff : entry.accepting? = some name ↔ entry = .accepting name := by
  cases entry <;> simp [Entry.accepting?]

theorem Entry.transition?_eq_some_iff :
    entry.transition? = some t ↔ entry = .transition t.1 t.2.1 t.2.2 := by
  cases entry <;> simp [Entry.transition?, Prod.ext_iff]

end Names

/-! ## What a blueprint collects -/

variable {entries : List Entry} {name : String} {t : String × String × String}

/-- The start state that was entered last. -/
def lastStart? (entries : List Entry) : Option String :=
  (entries.filterMap Entry.start?).getLast?

/-- There is no last start state if none was entered. -/
theorem lastStart?_eq_none_iff :
    lastStart? entries = none ↔ ∀ name, Entry.start name ∉ entries := by
  simp only [lastStart?, List.getLast?_eq_none_iff, List.eq_nil_iff_forall_not_mem,
    List.mem_filterMap, Entry.start?_eq_some_iff, exists_eq_right]

/-- The blueprint with all that entries say. -/
def ofEntries (entries : List Entry) : Blueprint where
  states := .ofList (entries.filterMap Entry.state?)
  alphabet := .ofList (entries.filterMap Entry.symbol?)
  start := lastStart? entries
  accepting := .ofList (entries.filterMap Entry.accepting?)
  transitions := entries.filterMap Entry.transition?

/-- One more entry is made at the end. -/
theorem ofEntries_concat (entries : List Entry) (entry : Entry) :
    ofEntries (entries ++ [entry]) = (ofEntries entries).enter entry := by
  simp only [ofEntries, lastStart?, List.filterMap_append, OrderedSet.ofList_append,
    List.getLast?_append]
  cases entry <;>
    simp [enter, Entry.state?, Entry.symbol?, Entry.start?, Entry.accepting?, Entry.transition?,
      List.filterMap_cons, OrderedSet.insertAll]

/-- A blueprint has collected what its entries say. -/
theorem enterAll_empty (entries : List Entry) : empty.enterAll entries = ofEntries entries := by
  induction entries using List.reverseRecOn with
  | nil => rfl
  | append_singleton entries entry ih =>
      rw [ofEntries_concat, ← ih]
      exact List.foldl_concat enter empty entry entries

@[simp]
theorem mem_states_ofEntries : name ∈ (ofEntries entries).states ↔ Entry.state name ∈ entries := by
  simp [ofEntries, List.mem_filterMap, Entry.state?_eq_some_iff]

@[simp]
theorem mem_alphabet_ofEntries :
    name ∈ (ofEntries entries).alphabet ↔ Entry.symbol name ∈ entries := by
  simp [ofEntries, List.mem_filterMap, Entry.symbol?_eq_some_iff]

@[simp]
theorem mem_accepting_ofEntries :
    name ∈ (ofEntries entries).accepting ↔ Entry.accepting name ∈ entries := by
  simp [ofEntries, List.mem_filterMap, Entry.accepting?_eq_some_iff]

@[simp]
theorem mem_transitions_ofEntries :
    t ∈ (ofEntries entries).transitions ↔ Entry.transition t.1 t.2.1 t.2.2 ∈ entries := by
  simp [ofEntries, List.mem_filterMap, Entry.transition?_eq_some_iff]

/-! ## Checks -/

/-- The check of a name that entries use for a state. -/
def usedStateCheck (entries : List Entry) (name : String) : Check AutomatonError := fun e =>
  Entry.state name ∉ entries ∧ e = .undeclaredState name

/-- The check of a name that entries use for a symbol. -/
def usedSymbolCheck (entries : List Entry) (name : String) : Check AutomatonError := fun e =>
  Entry.symbol name ∉ entries ∧ e = .undeclaredSymbol name

/-- The checks of entries, in the order in which they are made: no name that is declared is
empty; there is a start state, and the last one is declared; the accepting states are
declared, those first that were entered first; and so are the states and the symbol of every
transition, in the order of the transitions. -/
def entryChecks (entries : List Entry) : List (Check AutomatonError) :=
  [fun e => (Entry.state "" ∈ entries ∨ Entry.symbol "" ∈ entries) ∧ e = .emptyName,
    fun e => (∀ name, Entry.start name ∉ entries) ∧ e = .missingStart,
    fun e => ∃ name, lastStart? entries = some name ∧ usedStateCheck entries name e] ++
    (entries.filterMap Entry.accepting?).eraseDups.map (usedStateCheck entries) ++
    (entries.filterMap Entry.transition?).flatMap fun t =>
      [usedStateCheck entries t.1, usedStateCheck entries t.2.2, usedSymbolCheck entries t.2.1]

theorem stateCheck_ofEntries : (ofEntries entries).stateCheck = usedStateCheck entries := by
  funext name e
  simp [stateCheck, usedStateCheck]

theorem letterCheck_ofEntries : (ofEntries entries).letterCheck = usedSymbolCheck entries := by
  funext name e
  simp [letterCheck, usedSymbolCheck]

/-- The checks of the declared names make one check. -/
theorem sameFaults_nameChecks_ofEntries (entries : List Entry) :
    SameFaults
      ((ofEntries entries).states.toList.map nameCheck ++
        (ofEntries entries).alphabet.toList.map nameCheck)
      [fun e => (Entry.state "" ∈ entries ∨ Entry.symbol "" ∈ entries) ∧ e = .emptyName] := by
  have hone := SameFaults.map_and_eq
    ((ofEntries entries).states.toList ++ (ofEntries entries).alphabet.toList)
    (fun name => name = "") AutomatonError.emptyName
  simp only [List.map_append, exists_eq_right, List.mem_append, OrderedSet.mem_toList,
    mem_states_ofEntries, mem_alphabet_ofEntries] at hone
  exact hone

theorem sameFaults_startChecks_ofEntries (entries : List Entry) :
    SameFaults (ofEntries entries).startChecks
      [fun e => (∀ name, Entry.start name ∉ entries) ∧ e = .missingStart,
        fun e => ∃ name, lastStart? entries = some name ∧ usedStateCheck entries name e] := by
  have hstart : (ofEntries entries).start = lastStart? entries := rfl
  intro e
  rw [startChecks, hstart, ← lastStart?_eq_none_iff, stateCheck_ofEntries]
  cases lastStart? entries with
  | none => simp [firstFault_cons_iff]
  | some name => simp [firstFault_cons_iff, Check.Passes]

/-- The checks of the blueprint are those of its entries. -/
theorem sameFaults_checks_ofEntries (entries : List Entry) :
    SameFaults (ofEntries entries).checks (entryChecks entries) := by
  have haccepting : (ofEntries entries).accepting.toList =
      (entries.filterMap Entry.accepting?).eraseDups := OrderedSet.toList_ofList _
  have htransition : (ofEntries entries).transitionChecks = fun t =>
      [usedStateCheck entries t.1, usedStateCheck entries t.2.2,
        usedSymbolCheck entries t.2.1] := by
    funext t
    rw [transitionChecks, stateCheck_ofEntries, letterCheck_ofEntries]
  have hnames := sameFaults_nameChecks_ofEntries entries
  have hstart := sameFaults_startChecks_ofEntries entries
  have hsame := hnames.append (hstart.append (SameFaults.refl
    ((ofEntries entries).accepting.toList.map (ofEntries entries).stateCheck ++
      (ofEntries entries).transitions.flatMap (ofEntries entries).transitionChecks)))
  rw [checks, entryChecks]
  rw [haccepting, stateCheck_ofEntries, htransition] at hsame ⊢
  simp only [List.append_assoc] at hsame ⊢
  exact hsame

/-- The automaton of entries is refused for the first fault that their checks find, and for
nothing else. -/
theorem enforces_enterAll (entries : List Entry) :
    Enforces (entryChecks entries) (empty.enterAll entries).toAutomaton := by
  rw [enterAll_empty]
  exact (ofEntries entries).enforces_toAutomaton.congr (sameFaults_checks_ofEntries entries)

/-! ## The automaton of entries -/

/-- The target of a transition, if it is one for a state and a symbol. -/
def targetName? (source symbol : String) (t : String × String × String) : Option String :=
  if t.1 = source ∧ t.2.1 = symbol then some t.2.2 else none

/-- The targets of the transitions that were entered for a state and a symbol. -/
def targetNames (entries : List Entry) (source symbol : String) : List String :=
  (entries.filterMap Entry.transition?).filterMap (targetName? source symbol)

end Blueprint

open Blueprint

/-- An automaton follows entries: it has the states and symbols that were declared, in the order
in which they first were, starts at the last start state, and accepts where it was entered.  A
state and a symbol lead to the targets that were entered for them, in the order in which they
first were. -/
structure Automaton.Follows (A : Automaton) (entries : List Entry) : Prop where
  states_text : A.states.map Symbol.text = (entries.filterMap Entry.state?).eraseDups
  alphabet_text :
    A.alphabet.toList.map Symbol.text = (entries.filterMap Entry.symbol?).eraseDups
  nodup_text : (A.states.map Symbol.text).Nodup
  stateNamed?_eq_some_iff : ∀ name p,
    (A.stateNamed? name = some p ↔ p < A.states.length ∧ (A.nameOf p).text = name)
  start_text : lastStart? entries = some (A.nameOf A.start).text
  accepting_iff : ∀ p < A.states.length,
    (p ∈ A.accepting ↔ Entry.accepting (A.nameOf p).text ∈ entries)
  mem_targets_iff : ∀ p < A.states.length, ∀ q < A.states.length, ∀ a,
    (q ∈ A.targets p a ↔
      Entry.transition (A.nameOf p).text a.text (A.nameOf q).text ∈ entries)
  targets_text : ∀ p < A.states.length, ∀ a,
    (A.targets p a).map (fun q => (A.nameOf q).text) =
      (targetNames entries (A.nameOf p).text a.text).eraseDups

namespace Automaton.Realizes

variable {A : Automaton} {b : Blueprint} {entries : List Entry} {p : Nat} {a : Symbol}
  {name : String}

/-- An arrow has a target for a state and a symbol if it has one by their names. -/
theorem targetName?_arrowNames (h : A.Realizes b) (hp : p < A.states.length) {e : Arrow}
    (he : A.HasPlaceFor e) :
    targetName? (A.nameOf p).text a.text (A.arrowNames e) =
      (e.target? p a).map fun q => (A.nameOf q).text := by
  have hiff : (A.nameOf e.source).text = (A.nameOf p).text ∧ e.symbol.text = a.text ↔
      p = e.source ∧ a = e.symbol := by
    rw [← Symbol.ext_iff, ← Symbol.ext_iff, h.nameOf_inj he.source_lt hp]
    exact and_congr eq_comm eq_comm
  unfold targetName? Arrow.target? Diagram.arrowNames
  by_cases hstarts : p = e.source ∧ a = e.symbol
  · rw [if_pos hstarts, if_pos (hiff.mpr hstarts), Option.map_some]
  · rw [if_neg hstarts, if_neg (hiff.not.mpr hstarts), Option.map_none]

/-- A state and a symbol lead to the targets of the transitions of the blueprint, in the order
in which they first stand there. -/
theorem targets_text (h : A.Realizes b) (hp : p < A.states.length) :
    (A.targets p a).map (fun q => (A.nameOf q).text) =
      (b.transitions.filterMap (targetName? (A.nameOf p).text a.text)).eraseDups := by
  rcases h.arrows with ⟨arrows, htransitions, hplaces, hnames⟩
  have hlt : ∀ q ∈ arrows.filterMap (Arrow.target? p a), q < A.states.length := by
    intro q hq
    rcases List.mem_filterMap.mp hq with ⟨e, he, htarget⟩
    rw [Arrow.target?_eq_some_iff] at htarget
    subst htarget
    exact (hplaces _ he).target_lt
  have hinj : ∀ q ∈ arrows.filterMap (Arrow.target? p a),
      ∀ r ∈ arrows.filterMap (Arrow.target? p a),
        (A.nameOf q).text = (A.nameOf r).text → q = r :=
    fun q hq r hr htext => (h.nameOf_inj (hlt q hq) (hlt r hr)).mp (Symbol.ext htext)
  rw [Diagram.targets_eq, htransitions, Transitions.targets?_ofArrows, OrderedSet.toList_ofList,
    ← eraseDups_map hinj, ← hnames, List.map_filterMap, List.filterMap_map]
  refine congrArg List.eraseDups (List.filterMap_congr fun e he => ?_)
  exact (h.targetName?_arrowNames hp (hplaces e he)).symm

/-- What has all that entries say follows them. -/
theorem follows (h : A.Realizes (ofEntries entries)) : A.Follows entries where
  states_text := h.states_text.trans (OrderedSet.toList_ofList _)
  alphabet_text := h.alphabet_text.trans (OrderedSet.toList_ofList _)
  nodup_text := by
    rw [h.states_text]
    exact (ofEntries entries).states.nodup
  stateNamed?_eq_some_iff _ _ := Automaton.stateNamed?_eq_some_iff h.nodup_states
  start_text := h.start_text
  accepting_iff _ hp := (h.accepting_iff hp).trans mem_accepting_ofEntries
  mem_targets_iff _ hp _ hq _ := (h.mem_targets_iff hp hq).trans mem_transitions_ofEntries
  targets_text _ hp _ := h.targets_text hp

end Automaton.Realizes

namespace Blueprint

/-- Whatever entries are made one after the other, the automaton is refused for the first
fault that their checks find, and for nothing else.  If all checks pass, there is an automaton
that follows the entries. -/
theorem toAutomaton_validates (entries : List Entry) :
    (∀ e, (empty.enterAll entries).toAutomaton = .error e ↔
      FirstFault (entryChecks entries) e) ∧
    ((∀ c ∈ entryChecks entries, c.Passes) →
      ∃ A, (empty.enterAll entries).toAutomaton = .ok A ∧ A.Follows entries) := by
  have henforces := enforces_enterAll entries
  refine ⟨henforces, fun hpass => ?_⟩
  rcases henforces.exists_ok_iff.mpr hpass with ⟨A, hA⟩
  have hrealizes := realizes_of_toAutomaton hA
  rw [enterAll_empty] at hrealizes
  exact ⟨A, hA, hrealizes.follows⟩

/-- Names that are used before they are declared, some of them several times, a start state
that is replaced, and a transition that is entered twice. -/
def scatteredEntries : List Entry :=
  [.start "h", .transition "g" "k" "h", .accepting "h", .state "g", .symbol "k", .state "h",
    .transition "g" "k" "g", .state "g", .start "g", .transition "g" "k" "h"]

theorem scatteredEntries_followed :
    (∀ c ∈ entryChecks scatteredEntries, c.Passes) ∧
      ∃ A, (empty.enterAll scatteredEntries).toAutomaton = .ok A ∧
        A.Follows scatteredEntries := by
  have hpass := (enforces_enterAll scatteredEntries).forall_passes_of_isOk (by decide)
  exact ⟨hpass, (toAutomaton_validates scatteredEntries).2 hpass⟩

/-! ## Builds between entries -/

/-- A call on a blueprint: an entry is made in it, or its automaton is built. -/
inductive Call
  | enter (entry : Entry)
  | build
deriving DecidableEq

/-- The entry that a call makes. -/
def Call.entry? : Call → Option Entry
  | .enter entry => some entry
  | .build => none

/-- The blueprint after a call, and the answer to a build.  What is built is the automaton of
the blueprint as it stands, which may well be refused; the blueprint is kept either way. -/
def call (b : Blueprint) : Call → Blueprint × Option (Except AutomatonError Automaton)
  | .enter entry => (b.enter entry, none)
  | .build => (b, some b.toAutomaton)

/-- Make calls one after the other: the blueprint in the end, and the answers to the builds. -/
def callAll (b : Blueprint) : List Call → Blueprint × List (Except AutomatonError Automaton)
  | [] => (b, [])
  | c :: calls =>
      let after := b.call c
      let rest := after.1.callAll calls
      (rest.1, after.2.toList ++ rest.2)

variable {calls calls' : List Call}

/-- The entries among calls. -/
def entriesOf (calls : List Call) : List Entry :=
  calls.filterMap Call.entry?

/-- Builds leave no trace in the blueprint. -/
theorem callAll_fst (b : Blueprint) (calls : List Call) :
    (b.callAll calls).1 = b.enterAll (entriesOf calls) := by
  induction calls generalizing b with
  | nil => rfl
  | cons c calls ih =>
      cases c with
      | enter entry => exact ih (b.enter entry)
      | build => exact ih b

/-- The answers to further calls come after the others. -/
theorem callAll_append_snd (b : Blueprint) (calls calls' : List Call) :
    (b.callAll (calls ++ calls')).2 =
      (b.callAll calls).2 ++ ((b.callAll calls).1.callAll calls').2 := by
  induction calls generalizing b with
  | nil => rfl
  | cons c calls ih =>
      simp only [List.cons_append, callAll, List.append_assoc]
      rw [ih]

/-- The last build answers with the automaton of all entries before it. -/
theorem getLast?_callAll_build (calls : List Call) :
    (empty.callAll (calls ++ [.build])).2.getLast? =
      some (ofEntries (entriesOf calls)).toAutomaton := by
  rw [callAll_append_snd, callAll_fst, enterAll_empty]
  exact List.getLast?_concat

/-- Calls that make the same entries of each kind in the same order, and whose last start state
is the same.  Entries of different kinds and builds may stand in any order among each other. -/
structure SameByKind (calls calls' : List Call) : Prop where
  states_eq :
    (entriesOf calls).filterMap Entry.state? = (entriesOf calls').filterMap Entry.state?
  symbols_eq :
    (entriesOf calls).filterMap Entry.symbol? = (entriesOf calls').filterMap Entry.symbol?
  accepting_eq :
    (entriesOf calls).filterMap Entry.accepting? = (entriesOf calls').filterMap Entry.accepting?
  transitions_eq :
    (entriesOf calls).filterMap Entry.transition? =
      (entriesOf calls').filterMap Entry.transition?
  lastStart?_eq : lastStart? (entriesOf calls) = lastStart? (entriesOf calls')

/-- Such calls collect the same. -/
theorem SameByKind.ofEntries_eq (h : SameByKind calls calls') :
    ofEntries (entriesOf calls) = ofEntries (entriesOf calls') := by
  unfold ofEntries
  rw [h.states_eq, h.symbols_eq, h.accepting_eq, h.transitions_eq, h.lastStart?_eq]

/-- Calls of different kinds commute: a build after them has an answer, an automaton or a fault,
which does not depend on how the kinds stand among each other. -/
theorem lastBuild_of_sameByKind (h : SameByKind calls calls') :
    ∃ answer, (empty.callAll (calls ++ [.build])).2.getLast? = some answer ∧
      (empty.callAll (calls' ++ [.build])).2.getLast? = some answer := by
  refine ⟨_, getLast?_callAll_build calls, ?_⟩
  rw [getLast?_callAll_build, h.ofEntries_eq]

/-- All kinds in turn, with nothing built before the end. -/
def callsInTurn : List Call :=
  [.state "m", .state "n", .symbol "w", .start "m", .accepting "n", .transition "m" "w" "n",
    .transition "n" "w" "m"].map .enter

/-- The same with names that are used before they are declared, builds that fail, and a start
state that is replaced. -/
def callsMixed : List Call :=
  [.build, .enter (.transition "m" "w" "n"), .enter (.start "n"), .build, .enter (.accepting "n"),
    .enter (.state "m"), .build, .enter (.transition "n" "w" "m"), .enter (.symbol "w"),
    .enter (.state "n"), .build, .enter (.start "m")]

theorem callsMixed_built :
    SameByKind callsMixed callsInTurn ∧
      ∃ A, (empty.callAll (callsMixed ++ [.build])).2.getLast? = some (.ok A) ∧
        (empty.callAll (callsInTurn ++ [.build])).2.getLast? = some (.ok A) := by
  have hsame : SameByKind callsMixed callsInTurn := ⟨rfl, rfl, rfl, rfl, rfl⟩
  have hbuilt : ((empty.callAll (callsInTurn ++ [.build])).2.getLast?.any Except.isOk) = true := by
    decide
  rcases lastBuild_of_sameByKind hsame with ⟨answer, hmixed, hturn⟩
  rw [hturn] at hbuilt
  cases answer with
  | error e => contradiction
  | ok A => exact ⟨hsame, A, hmixed, hturn⟩

end Blueprint
end FormalLang
