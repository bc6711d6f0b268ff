import FormalLang.Character.Wide
import FormalLang.Text.EmojiSequence
import FormalLang.Text.Ligature
import FormalLang.Text.VowelSign

/-!
# Width of a line

The columns that a line takes up on a display.  Most characters take up one,
pictures and most characters of East Asia two, marks none; a ligature and a
sequence of emoji take up fewer columns than their characters apart.

The line is read from its end.  What a character adds depends on what stands
right after it, which is the front of the part already read.
-/

namespace FormalLang.Text

open Character

/-- What an invisible selector asks of the character in front of it. -/
inductive Selector
  /-- To be a picture. -/
  | picture
  /-- To be a sign of the text. -/
  | sign
  /-- To be as wide as the characters of East Asia, for a quotation mark. -/
  | broad
deriving DecidableEq

/-- The selector that a code point stands for. -/
def Selector.ofCodePoint? (n : Nat) : Option Selector :=
  if n = 0xFE0F then some .picture
  else if n = 0xFE0E then some .sign
  else if n = 0xFE01 then some .broad
  else none

/-- What stands at the front of the part of a line that has been read. -/
inductive Front
  | plain
  | ligature (part : Ligature)
  | vowel (sign : VowelSign)
  | emoji (part : EmojiSequence)
deriving DecidableEq

namespace Front

/-- The front that a character makes by itself. -/
def ofCodePoint (n : Nat) : Front :=
  if n ≤ 0xA0 then plain
  else
    match EmojiSequence.ofLast? n, Ligature.ofLast? n, VowelSign.ofLast? n with
    | some part, _, _ => emoji part
    | none, some part, _ => ligature part
    | none, none, some sign => vowel sign
    | none, none, none => plain

/-- What a character in front comes to, if it joins what stands at the front. -/
def read? (n : Nat) : Front → Option (Int × Front)
  | plain => none
  | ligature part =>
      (part.read? n).map fun (columns, rest) => (columns, rest.elim plain ligature)
  | vowel sign => (sign.read? n).map fun (columns, rest) => (columns, rest.elim plain vowel)
  | emoji part => (part.read? n).map fun (columns, rest) => (columns, emoji rest)

/-- Whether a picture in front is tied to the one at the front. -/
def isJoined : Front → Bool
  | emoji part => part.isJoined
  | _ => false

/-- The front behind a selector: a ligature goes on across it, anything else
does not. -/
def passed : Front → Front
  | ligature part => ligature part
  | _ => plain

end Front

/-- The columns of a character by itself. -/
def ownWidth (n : Nat) : Nat :=
  if n ≤ 0xA0 || EmojiSequence.isFlagLetter n then 1
  else if EmojiSequence.isSkin n || emojiByDefault.has n then 2
  -- The sign for "and so on" is written with three characters.
  else if n = 0x17D8 then 3
  -- The filler stands for the first letter of a syllable, which is wide; the
  -- vowel is written with two characters.
  else if n = 0x115F || n = 0x17A4 then 2
  else if isZeroWidth n then 0
  else if wide.has n then 2
  else 1

/-- The quotation marks that can be as wide as the characters of East Asia. -/
def quotationMarks : Ranges :=
  [(0x2018, 0x2019), (0x201C, 0x201D)]

/-- Whether a code point is a picture that a selector makes as narrow as a sign
of the text.  Ideographs in a frame keep their width. -/
def isNarrowedBySelector (n : Nat) : Bool :=
  emojiOrSign.has n && !(0x1F200 ≤ n && n ≤ 0x1F2FF)

/-- The columns that a selector gives to the character in front of it, and the
front after that, if the selector has an effect. -/
def Selector.read? (n : Nat) (front : Front) : Selector → Option (Int × Front)
  | .picture =>
      if emojiOnDemand.has n || emojiOrSign.has n then
        some (if front.isJoined then 0 else 2, .emoji .picture)
      else none
  | .sign => if isNarrowedBySelector n then some (1, .plain) else none
  | .broad => if quotationMarks.has n then some (2, .plain) else none

/-- A line as far as it has been read: its columns, what stands at its front,
and the selectors there, the last that was read first. -/
structure Measured where
  columns : Int
  front : Front
  selectors : List Selector
deriving DecidableEq

namespace Measured

/-- The end of a line. -/
def empty : Measured :=
  ⟨0, .plain, []⟩

/-- A line with a selector more in front, after other selectors had no effect on
it.  Selectors in front of a ligature add up, apart from the one for a picture,
which has to stand right after its character.  Elsewhere only the last that was
read counts, and it keeps a picture that waits for another one. -/
def select (s : Selector) (m : Measured) : Measured :=
  match m.front with
  | .ligature _ => { m with selectors := s :: m.selectors.filter (· ≠ .picture) }
  | front =>
      let waits := s = .picture && m.selectors.isEmpty && front.isJoined
      { m with front := if waits then front else .plain, selectors := [s] }

/-- A line without the selectors at its front. -/
def dropSelectors (m : Measured) : Measured :=
  if m.selectors.isEmpty then m else { m with front := m.front.passed, selectors := [] }

/-- A line with a character more in front, on which no selector has an effect. -/
def cons (n : Nat) (m : Measured) : Measured :=
  match m.front.read? n with
  | some (added, front) => ⟨m.columns + added, front, []⟩
  | none => ⟨m.columns + ownWidth n, .ofCodePoint n, []⟩

/-- A line with a character more in front. -/
def read (n : Nat) (m : Measured) : Measured :=
  match m.selectors.findSome? (Selector.read? n m.front) with
  | some (added, front) => ⟨m.columns + added, front, []⟩
  | none =>
      match Selector.ofCodePoint? n with
      | some s => m.select s
      | none => m.dropSelectors.cons n

/-- A whole line, read from its last character to its first. -/
def ofChars (cs : List Char) : Measured :=
  cs.foldr (fun c m => m.read c.toNat) empty

end Measured

/-- The columns that a line takes up. -/
def lineWidth (line : String) : Nat :=
  (Measured.ofChars line.toList).columns.toNat

end FormalLang.Text
