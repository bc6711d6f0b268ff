import FormalLang.Automaton.Basic

/-!
# Blueprints of automata

A blueprint collects the states, symbols and transitions of an automaton by
name, in any order and with nothing checked.  Building the automaton looks for
faults in a fixed order and replaces the names of states by their numbers.
-/

namespace FormalLang

/-- The reasons for which a blueprint is refused. -/
inductive AutomatonError
  /-- A state or a symbol has an empty name. -/
  | emptyName
  /-- There is no start state. -/
  | missingStart
  /-- A name is used for a state and not declared. -/
  | undeclaredState (name : String)
  /-- A name is used for a symbol and not declared. -/
  | undeclaredSymbol (name : String)
deriving DecidableEq

/-- The message for a refused blueprint. -/
def AutomatonError.message : AutomatonError → String
  | .emptyName => "state and symbol names must not be empty"
  | .missingStart => "no start state was set"
  | .undeclaredState name => "state `" ++ name ++ "` is not declared"
  | .undeclaredSymbol name => "symbol `" ++ name ++ "` is not in the alphabet"

/-- What a blueprint has collected. -/
structure Blueprint where
  states : OrderedSet String
  alphabet : OrderedSet String
  start : Option String
  accepting : OrderedSet String
  transitions : List (String × String × String)
deriving DecidableEq

namespace Blueprint

/-- A blueprint of nothing. -/
def empty : Blueprint :=
  ⟨.empty, .empty, none, .empty, []⟩

/-- An entry of a blueprint. -/
inductive Entry
  | state (name : String)
  | symbol (name : String)
  | start (name : String)
  | accepting (name : String)
  | transition (source symbol target : String)
deriving DecidableEq

/-- Make an entry.  Declaring a name again changes nothing; a later start
replaces an earlier one. -/
def enter (b : Blueprint) : Entry → Blueprint
  | .state name => { b with states := b.states.insert name }
  | .symbol name => { b with alphabet := b.alphabet.insert name }
  | .start name => { b with start := some name }
  | .accepting name => { b with accepting := b.accepting.insert name }
  | .transition source symbol target =>
      { b with transitions := b.transitions ++ [(source, symbol, target)] }

/-- Make entries one after the other. -/
def enterAll (b : Blueprint) (entries : List Entry) : Blueprint :=
  entries.foldl enter b

/-! ## The automaton of a blueprint -/

/-- The symbols with these names, if none of them is empty. -/
def declared (names : OrderedSet String) : Except AutomatonError (List Symbol) :=
  names.toList.mapM fun name =>
    match Symbol.ofString? name with
    | some a => .ok a
    | none => .error .emptyName

/-- The state with a name. -/
def place (states : List Symbol) (name : String) :
    Except AutomatonError (Fin states.length) :=
  if h : states.findIdx (fun state => state.text == name) < states.length then .ok ⟨_, h⟩
  else .error (.undeclaredState name)

/-- The symbol of the alphabet with a name. -/
def letter (alphabet : OrderedSet Symbol) (name : String) :
    Except AutomatonError { a // a ∈ alphabet } :=
  match h : alphabet.toList.find? (fun a => a.text == name) with
  | some a => .ok ⟨a, List.mem_of_find?_eq_some h⟩
  | none => .error (.undeclaredSymbol name)

/-- The arrow of a transition. -/
def arrow (D : Diagram) (transition : String × String × String) :
    Except AutomatonError { e // D.HasPlaceFor e } := do
  let source ← place D.states transition.1
  let target ← place D.states transition.2.2
  let a ← letter D.alphabet transition.2.1
  return ⟨⟨source, a, target⟩, source.isLt, a.property, target.isLt⟩

/-- The start state. -/
def startPlace (states : List Symbol) :
    Option String → Except AutomatonError (Fin states.length)
  | none => .error .missingStart
  | some name => place states name

/-- The automaton of a blueprint, or the first fault in it. -/
def toAutomaton (b : Blueprint) : Except AutomatonError Automaton := do
  let states ← declared b.states
  let alphabet ← declared b.alphabet
  let start ← startPlace states b.start
  let accepting ← b.accepting.toList.mapM (place states)
  let D : Diagram :=
    { states := states
      alphabet := .ofList alphabet
      start := start
      accepting := .ofList (accepting.map Fin.val)
      transitions := .empty }
  let arrows ← b.transitions.mapM (arrow D)
  return Automaton.ofArrows D start.isLt
    (by
      intro q hq
      rw [OrderedSet.mem_ofList, List.mem_map] at hq
      obtain ⟨p, -, rfl⟩ := hq
      exact p.isLt)
    (arrows.map Subtype.val)
    (by
      intro e he
      obtain ⟨f, -, rfl⟩ := List.mem_map.mp he
      exact f.property)

/-- The blueprint given at once by lists of names; a transition lists all its
targets. -/
def ofLists (states alphabet : List String) (start : String) (accepting : List String)
    (transitions : List (String × String × List String)) : Blueprint :=
  empty.enterAll <|
    states.map Entry.state ++ alphabet.map Entry.symbol ++ [.start start] ++
      accepting.map Entry.accepting ++
      transitions.flatMap fun t => t.2.2.map fun target => .transition t.1 t.2.1 target

end Blueprint
end FormalLang
