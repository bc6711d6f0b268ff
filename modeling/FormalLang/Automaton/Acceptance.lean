import FormalLang.Automaton.Basic
import FormalLang.Event
import FormalLang.Recognizer.Text

/-!
# Acceptance

An automaton accepts a word when the word leads from the start to an accepting
state.  A deterministic automaton is walked along one path; any other one is
read as a recognizer, with all the states that a word can lead to.  A text is
accepted when one of its splits into symbols is.
-/

namespace FormalLang.Automaton

/-- An automaton as a recognizer of its language. -/
def recognizer (A : Automaton) : Recognizer Nat where
  states := List.range A.states.length
  alphabet := A.alphabet.toList
  start := A.start
  next := A.targets
  final := A.isAccepting
  start_mem := List.mem_range.mpr A.wellFormed.start_lt
  next_mem := fun _ _ _ hq => List.mem_range.mpr (A.target_lt hq)

/-! ## Words -/

/-- Whether the only path along a word ends in an accepting state. -/
def followPath (A : Automaton) (p : Nat) : Word → Bool
  | [] => A.isAccepting p
  | a :: w =>
      match A.targets p a with
      | [] => false
      | q :: _ => followPath A q w

/-- Whether an automaton accepts a word. -/
def accepts (A : Automaton) (w : Word) : Bool :=
  if A.isDeterministic then A.followPath A.start w else A.recognizer.recognizes w

/-- The events of following the only path. -/
def pathEvents (A : Automaton) (p : Nat) : Word → List Event
  | [] => []
  | a :: w =>
      match A.targets p a with
      | [] => [.stuck (A.nameOf p) a]
      | q :: _ => .moved (A.nameOf p) a (A.nameOf q) :: pathEvents A q w

/-- The events of reading a word. -/
def acceptsEvents (A : Automaton) (w : Word) : List Event :=
  if A.isDeterministic then .started (A.nameOf A.start) :: A.pathEvents A.start w
  else
    (A.recognizer.liveSets (.ofList [A.start]) w).map fun step =>
      .liveStates step.1 (step.2.toList.map A.nameOf)

/-! ## Texts -/

/-- Whether an automaton accepts a split of a text. -/
def acceptsText (A : Automaton) (text : String) : Bool :=
  A.recognizer.recognizesText text.toList

/-- The events of reading a text: every configuration when it is found, and the
failure if there is one. -/
def acceptsTextEvents (A : Automaton) (text : String) : List Event :=
  let outcome := A.recognizer.searchText text.toList
  outcome.discoveries.map (fun d =>
      .moved (A.nameOf d.source.state) d.label (A.nameOf d.target.state)) ++
    if outcome.reached then [] else [.noRun text]

end FormalLang.Automaton
