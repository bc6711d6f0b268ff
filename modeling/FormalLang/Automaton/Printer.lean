import FormalLang.Automaton.Basic
import FormalLang.Text.Table

/-!
# Writing automata

Two written forms of an automaton: a listing, with a section for each of its
parts, and a table of its transitions, with a row for each state and a column
for each symbol.
-/

namespace FormalLang.Automaton

/-! ## Listing -/

/-- A section of the listing: its title and its lines. -/
def listingSection (title : String) (lines : List String) : String :=
  String.join ((title :: lines).map fun line => line ++ "\n")

/-- The line for a cell of the transitions. -/
def cellText (A : Automaton) (p : Nat) (a : Symbol) (targets : OrderedSet Nat) : String :=
  (A.nameOf p).text ++ ":" ++ a.text ++ ">" ++
    ",".intercalate (targets.toList.map fun q => (A.nameOf q).text)

/-- The lines for the transitions. -/
def transitionLines (A : Automaton) : List String :=
  A.transitions.entries.flatMap fun row =>
    row.2.entries.map fun cell => A.cellText row.1 cell.1 cell.2

/-- The listing of an automaton. -/
def listing (A : Automaton) : String :=
  listingSection "#states" (A.states.map Symbol.text) ++
    listingSection "#initial" [(A.nameOf A.start).text] ++
    listingSection "#accepting" (A.accepting.toList.map fun q => (A.nameOf q).text) ++
    listingSection "#alphabet" (A.alphabet.toList.map Symbol.text) ++
    listingSection "#transitions" A.transitionLines

/-! ## Transition table -/

/-- The targets in a cell of the table: one name, or several between braces. -/
def targetsText (A : Automaton) : List Nat → String
  | [q] => (A.nameOf q).text
  | qs => "\x7b" ++ ", ".intercalate (qs.map fun q => (A.nameOf q).text) ++ "\x7d"

/-- The name of a state with an arrow at the start state and a star at the
accepting ones. -/
def markedName (A : Automaton) (p : Nat) : String :=
  (if p = A.start then "→" else "") ++ (A.nameOf p).text ++
    (if A.isAccepting p then "*" else "")

/-- The table of transitions. -/
def table (A : Automaton) : Text.Table where
  header := "δ" :: A.alphabet.toList.map Symbol.text
  rows :=
    (List.range A.states.length).map fun p =>
      A.markedName p ::
        A.alphabet.toList.map fun a =>
          match A.transitions.targets? p a with
          | some qs => A.targetsText qs.toList
          | none => ""

end FormalLang.Automaton
