/-!
# Classes of grammars

The four classes of the hierarchy of grammars, from the most general to the
most restrictive.
-/

namespace FormalLang

/-- A class of the hierarchy. -/
inductive GrammarClass
  | unrestricted
  | contextSensitive
  | contextFree
  | regular
deriving DecidableEq

namespace GrammarClass

/-- The number of a class in the hierarchy. -/
def level : GrammarClass → Nat
  | unrestricted => 0
  | contextSensitive => 1
  | contextFree => 2
  | regular => 3

/-- Classes are ordered by restrictiveness. -/
instance : LE GrammarClass where
  le c d := c.level ≤ d.level

instance (c d : GrammarClass) : Decidable (c ≤ d) :=
  inferInstanceAs (Decidable (c.level ≤ d.level))

instance : Ord GrammarClass where
  compare c d := compare c.level d.level

/-- The title of a class. -/
def title : GrammarClass → String
  | unrestricted => "Type 0: Unrestricted Grammar"
  | contextSensitive => "Type 1: Context-Sensitive Grammar"
  | contextFree => "Type 2: Context-Free Grammar"
  | regular => "Type 3: Regular Grammar"

end GrammarClass
end FormalLang
