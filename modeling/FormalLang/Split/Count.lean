import FormalLang.Split.Basic

/-!
# Counting splits

Whether a text has no split into symbols, exactly one, or several.  The splits
behind every place of the content are counted from its end on, as none, one or
several: what stands at a place sums up what stands behind its continuations.
A symbol that is listed twice makes two splits of one.

When there is only one split, it is read off the counts from the first place
on: of the continuations of a place, the one that leads to a place with one
split is taken.
-/

namespace FormalLang

/-- The splits of a text, as far as they are told apart. -/
inductive Splits
  /-- There is no split. -/
  | none
  /-- There is one split. -/
  | one (w : Word)
  /-- There are two splits or more. -/
  | many
deriving DecidableEq

namespace Splits

/-- The number of splits from a place on, up to two, when the counts behind it
are given.  A continuation of `n` characters leads to entry `n - 1` of them, or
past the end of the content, where no split goes on. -/
def countHere (symbols : List Symbol) (t : List Char) (behind : List Nat) : Nat :=
  let counts := (continuations symbols t).map fun step => behind.getD (step.2 - 1) 0
  Nat.min 2 (counts.foldr (fun count total => count + total) 0)

/-- The counts at the first places of a text, from the first one to the one
after `n` characters, where the splits end. -/
def countsTo (symbols : List Symbol) : Nat → List Char → List Nat
  | 0, _ => [1]
  | n + 1, t =>
      let behind := countsTo symbols n t.tail
      countHere symbols t behind :: behind

/-- The word of the only split, if the counts lead on from place to place.  Of
the `n` characters in front of the end the first `skip` belong to the symbol
that was taken last. -/
def follow (symbols : List Symbol) : (n skip : Nat) → List Char → List Nat → Option Word
  | 0, _, _, _ => some []
  | n + 1, skip + 1, t, counts => follow symbols n skip t.tail counts.tail
  | n + 1, 0, t, counts =>
      match (continuations symbols t).find? fun step => counts[step.2]? == some 1 with
      | some step => (follow symbols n (step.2 - 1) t.tail counts.tail).map (step.1 :: ·)
      | .none => .none

/-- The counts at all places of the content of a text, its end included. -/
def counts (symbols : List Symbol) (t : List Char) : List Nat :=
  countsTo symbols (Text.trimEnd t).length t

/-- The word that is read off the counts of a text. -/
def readOff? (symbols : List Symbol) (t : List Char) (counts : List Nat) : Option Word :=
  follow symbols (Text.trimEnd t).length 0 t counts

/-- The splits of a text into symbols from a list. -/
def ofText (symbols : List Symbol) (text : String) : Splits :=
  let t := text.toList
  let counts := counts symbols t
  match counts.headD 0 with
  | 0 => none
  | 1 =>
      match readOff? symbols t counts with
      | some w => one w
      | .none => none
  | _ => many

end Splits
end FormalLang
