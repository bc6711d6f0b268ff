/-!
# Random indices

An index below `n` is drawn from random 64-bit words.  A word `v` is mapped to
the whole part of `v * n / 2 ^ 64`; the words at the end of each window are
refused, so that every index is given by equally many words.
-/

namespace FormalLang.Random

/-- A way to draw an index below a bound from random words: the index and the words that
are left, or nothing if the words run out. -/
abbrev Draw := Nat → List UInt64 → Option (Nat × List UInt64)

/-- The number of words that give each index below `n`: the largest power of
two whose product with `n` is less than `2 ^ 64`. -/
def windowSize (n : Nat) : Nat :=
  Nat.pow 2 (63 - Nat.log2 n)

/-- The index below `n` that a word gives, unless it is refused. -/
def index? (n : Nat) (v : UInt64) : Option Nat :=
  let product := v.toNat * n
  if product % UInt64.size ≤ n * windowSize n - 1 then some (product / UInt64.size) else none

/-- Draw the index that the first word gives that is not refused. -/
def draw : Draw
  | _, [] => none
  | n, v :: words =>
      match index? n v with
      | some i => some (i, words)
      | none => draw n words

end FormalLang.Random
