import FormalLang.Grammar.Basic
import FormalLang.Grammar.Class
import FormalLang.Text.Quoted

/-!
# Events

What the operations report about their way to an answer.  An event is a value:
each operation has its answer and, apart from it, the list of its events in the
order in which they happened.
-/

namespace FormalLang

/-- How much an event matters. -/
inductive Level
  | trace
  | debug
  | warn
deriving DecidableEq

/-- An event in one of the operations. -/
inductive Event
  /-- A grammar was classified. -/
  | classified (start : Symbol) (c : GrammarClass)
  /-- No derivation of a grammar gives the text. -/
  | noDerivation (text : String)
  /-- So many derivations go on after a terminal. -/
  | liveDerivations (a : Symbol) (count : Nat)
  /-- A non-terminal was met below the depth bound. -/
  | depthBound (A : Symbol)
  /-- A non-terminal without alternatives was met. -/
  | noProductions (A : Symbol)
  /-- A rule was applied to a non-terminal. -/
  | applied (A : Symbol) (rhs : SententialForm)
  /-- An automaton moved from a state to a state. -/
  | moved (source a target : Symbol)
  /-- No run over the text accepts. -/
  | noRun (text : String)
  /-- A run started at a state. -/
  | started (state : Symbol)
  /-- A state has no move by a symbol. -/
  | stuck (state a : Symbol)
  /-- A symbol led to a set of states. -/
  | liveStates (a : Symbol) (states : List Symbol)
  /-- A set of states leads to another one. -/
  | subsetMove (source a target : Symbol)
  /-- A transition was made of a rule. -/
  | addedTransition (A a target : Symbol)
  /-- A state was made accepting because of an erasing rule. -/
  | erases (A : Symbol)
  /-- A rule was made of a transition. -/
  | addedRule (A : Symbol) (rhs : SententialForm)
deriving DecidableEq

namespace Event

/-- The level of an event. -/
def level : Event → Level
  | noProductions _ => .warn
  | classified .. | subsetMove .. | addedTransition .. | erases _ | addedRule .. => .debug
  | _ => .trace

/-- A move of an automaton as an equation. -/
def moveText (source a target : String) : String :=
  "δ(" ++ source ++ ", " ++ a ++ ") = " ++ target

/-- The message of an event. -/
def message : Event → String
  | classified start c =>
      "classified grammar with start " ++ start.text ++ " as " ++ c.title
  | noDerivation text => "no derivation produces " ++ Text.quoted text
  | liveDerivations a count => "after " ++ a.text ++ ": " ++ toString count ++ " live derivations"
  | depthBound A => "depth bound reached at " ++ A.text ++ ", truncating"
  | noProductions A => "no productions for " ++ A.text ++ ", expanding to the empty word"
  | applied A rhs => "applying " ++ A.text ++ " → " ++ rhs.text
  | moved source a target => moveText source.text a.text target.text
  | noRun text => "no run over " ++ Text.quoted text ++ " ends in an accepting state"
  | started state => "starting at " ++ state.text
  | stuck state a => "no transition δ(" ++ state.text ++ ", " ++ a.text ++ "), rejecting"
  | liveStates a states =>
      "after " ++ a.text ++ ": \x7b" ++ ", ".intercalate (states.map Symbol.text) ++ "\x7d"
  | subsetMove source a target => moveText source.text a.text target.text
  | addedTransition A a target =>
      "adding transition " ++ moveText A.text a.text target.text
  | erases A => A.text ++ " derives ε, marking it accepting"
  | addedRule A rhs => "adding production " ++ A.text ++ " → " ++ rhs.text

end Event
end FormalLang
