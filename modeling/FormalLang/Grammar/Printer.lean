import FormalLang.Grammar.Basic

/-!
# Writing grammars

The listing of a grammar: a line with its four parts and a line for every
left-hand side with its alternatives.
-/

namespace FormalLang.Grammar

/-- The line for a left-hand side. -/
def ruleText (lhs : SententialForm) (alternatives : OrderedSet SententialForm) : String :=
  lhs.text ++ " → " ++ " | ".intercalate (alternatives.toList.map SententialForm.text)

/-- The symbols of a set between braces. -/
def setText (symbols : OrderedSet Symbol) : String :=
  "\x7b" ++ ", ".intercalate (symbols.toList.map Symbol.text) ++ "\x7d"

/-- The rule lines of a grammar. -/
def ruleLines (g : Grammar) : List String :=
  g.productions.entries.map fun e => ruleText e.1 e.2

/-- The listing of a grammar. -/
def listing (g : Grammar) : String :=
  "G = (" ++ setText g.nonTerminals ++ ", " ++ setText g.terminals ++ ", P, " ++ g.start.text ++
    ")\n\nP = \x7b\n" ++ String.join (g.ruleLines.map fun line => "  " ++ line ++ "\n") ++ "\x7d\n"

end FormalLang.Grammar
