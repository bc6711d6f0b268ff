import FormalLang.Grammar.Check
import FormalLang.Grammar.RuleLine
import FormalLang.Split.Count

/-!
# Reading grammars

A grammar is given by the names of its symbols and its rule lines.  Both sides
of a rule must split into the declared symbols in exactly one way; an
alternative written `ε` is the empty word.
-/

namespace FormalLang

/-- The declarations against which rule lines are read. -/
structure Declarations where
  nonTerminals : OrderedSet Symbol
  terminals : OrderedSet Symbol

namespace Declarations

/-- Every declared symbol once, so that a symbol declared as both kinds does not
make two splits of one. -/
def symbols (D : Declarations) : List Symbol :=
  (D.nonTerminals.insertAll D.terminals.toList).toList

/-- A symbol as the kind that it is declared as; non-terminals come first. -/
def asDeclared (D : Declarations) (a : Symbol) : GrammarSymbol :=
  if a ∈ D.nonTerminals then .nonTerminal a else .terminal a

/-- The sentential form that a side of a rule stands for. -/
def readSide (D : Declarations) (side : String) : Except GrammarError SententialForm :=
  if side = emptyWordText then .ok []
  else
    match Splits.ofText D.symbols side with
    | .one w => .ok (w.map D.asDeclared)
    | .none => .error (.noSplit side)
    | .many => .error (.manySplits side)

/-- The left-hand side and the alternatives that a line stands for. -/
def readLine (D : Declarations) (line : String) :
    Except GrammarError (SententialForm × List SententialForm) :=
  match RuleLine.parse? line with
  | none => .error (.invalidLine line)
  | some parts => do
      let lhs ← D.readSide parts.lhs
      let alternatives ← parts.alternatives.mapM D.readSide
      return (lhs, alternatives)

end Declarations

/-- The symbols with these names, if none of them is empty. -/
def Symbol.ofNames (names : List String) : Except GrammarError (List Symbol) :=
  names.mapM fun name =>
    match Symbol.ofString? name with
    | some a => .ok a
    | none => .error .emptySymbol

/-- The grammar given by names and rule lines. -/
def Grammar.read (nonTerminals terminals : List String) (start : String)
    (lines : List String) : Except GrammarError Grammar := do
  let nonTerminals ← Symbol.ofNames nonTerminals
  let terminals ← Symbol.ofNames terminals
  let start ←
    match Symbol.ofString? start with
    | some a => .ok a
    | none => .error .emptySymbol
  let D : Declarations := ⟨.ofList nonTerminals, .ofList terminals⟩
  let lines ← lines.mapM D.readLine
  Presentation.check
    { nonTerminals := D.nonTerminals
      terminals := D.terminals
      productions := Productions.ofLines lines
      start := start }

end FormalLang
