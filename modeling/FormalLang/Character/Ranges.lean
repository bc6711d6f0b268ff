/-!
# Classes of characters

A class of characters is kept as the ranges of its code points.  The classes are
those of the Unicode character database, version 17, with marks and wide
characters that were added after it; code points that are reserved between those
count like them.
-/

namespace FormalLang.Character

/-- Ranges of code points, each with its first and its last member. -/
abbrev Ranges := List (Nat × Nat)

/-- Whether a code point lies in one of the ranges. -/
def Ranges.has (ranges : Ranges) (n : Nat) : Bool :=
  ranges.any fun range => range.1 ≤ n && n ≤ range.2

end FormalLang.Character
