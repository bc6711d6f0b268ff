import FormalLang.Text.Blank

/-!
# Rule lines

A line such as `A → bS | aB` gives a left-hand side and its alternatives.  The
arrow stands once, no bar stands before it, and bars stand between the
alternatives after it.  A part needs a character other than a space or a tab;
the white space at its ends is taken off.
-/

namespace FormalLang

/-- The parts of a rule line, without the white space at their ends. -/
structure RuleLine where
  lhs : String
  alternatives : List String
deriving DecidableEq

namespace RuleLine

/-- The arrow between the left-hand side and the alternatives. -/
def arrow : Char := '→'

/-- The bar between two alternatives. -/
def bar : Char := '|'

/-- The part of a line, if it has a character other than a space or a tab. -/
def part? (t : List Char) : Option String :=
  if t.all fun c => c == ' ' || c == '\t' then none
  else some (String.ofList (Text.trim t))

/-- The pieces of a text between the occurrences of a character. -/
def pieces (sep : Char) : List Char → List (List Char)
  | [] => [[]]
  | c :: t =>
      if c = sep then [] :: pieces sep t
      else
        match pieces sep t with
        | [] => [[c]]
        | p :: ps => (c :: p) :: ps

/-- The parts of a line, if it is a rule line. -/
def parse? (line : String) : Option RuleLine :=
  match pieces arrow line.toList with
  | [left, right] =>
      if bar ∈ left then none
      else do
        let lhs ← part? left
        let alternatives ← (pieces bar right).mapM part?
        return ⟨lhs, alternatives⟩
  | _ => none

end RuleLine
end FormalLang
