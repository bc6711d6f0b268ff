import FormalLang.Character.ZeroWidth

/-!
# Ligatures

Some characters are drawn as one with those in front of them and then take up
fewer columns than apart.  A line is read from its end, so that the last letter
of a ligature is met first.
-/

namespace FormalLang.Text

/-- The part of a ligature that has been read so far.  Where the letters have to
be tied by a joiner, the part tells whether the joiner has been met. -/
inductive Ligature
  /-- The second letter of lam and alef. -/
  | alef
  /-- The second letter of alef and lamed. -/
  | lamed (joined : Bool)
  /-- A letter of Khmer that a sign can put below the letter in front. -/
  | subscript
  /-- The last letter of Buginese iya. -/
  | ya (joined : Bool)
  /-- The last letter of Buginese iya with its vowel sign. -/
  | yaWithVowel
  /-- The second of two consonants of Tifinagh. -/
  | consonant (joined : Bool)
  /-- A consonant of Tifinagh with the sign that joins it. -/
  | signedConsonant
  /-- The second of two tone letters of Lisu. -/
  | tone
  /-- The second letter of Old Turkic nci. -/
  | turkicI (joined : Bool)
deriving DecidableEq

namespace Ligature

open Character

/-- The letters of the joining group of alef. -/
def alefs : Ranges :=
  [(0x0622, 0x0623), (0x0625, 0x0625), (0x0627, 0x0627), (0x0671, 0x0673), (0x0675, 0x0675),
    (0x0773, 0x0774), (0x0870, 0x0882)]

/-- The letters of the joining group of lam. -/
def lams : Ranges :=
  [(0x0644, 0x0644), (0x06B5, 0x06B8), (0x076A, 0x076A), (0x08A6, 0x08A6), (0x08C7, 0x08C7)]

/-- The letters of Khmer that have a form below the line. -/
def subscripts : Ranges :=
  [(0x1780, 0x1782), (0x1784, 0x1787), (0x1789, 0x178C), (0x178E, 0x1793), (0x1795, 0x1798),
    (0x179B, 0x179D), (0x17A0, 0x17A0), (0x17A2, 0x17A2), (0x17A7, 0x17A7), (0x17AB, 0x17AC),
    (0x17AF, 0x17AF)]

/-- The consonants of Tifinagh. -/
def consonants : Ranges :=
  [(0x2D31, 0x2D65), (0x2D6F, 0x2D6F)]

/-- The characters that may stand between the letters of a ligature. -/
def transparent : Ranges :=
  [(0x034F, 0x034F), (0x17B4, 0x17B5), (0x180B, 0x180D), (0x180F, 0x180F), (0x200D, 0x200D),
    (0xFE00, 0xFE0F), (0xE0100, 0xE01EF)]

/-- The ligature that ends in a letter. -/
def ofLast? (n : Nat) : Option Ligature :=
  if alefs.has n then some alef
  else if n = 0x05DC then some (lamed false)
  else if subscripts.has n then some subscript
  else if n = 0x1A10 then some (ya false)
  else if consonants.has n then some (consonant false)
  else if n = 0xA4FC || n = 0xA4FD then some tone
  else if n = 0x10C03 then some (turkicI false)
  else none

/-- The part of a ligature after a joiner in front of it. -/
def joined : Ligature → Ligature
  | lamed _ => lamed true
  | ya _ => ya true
  | consonant _ => consonant true
  | turkicI _ => turkicI true
  | part => part

/-- What a letter in front of a part of a ligature comes to, if it belongs to
the ligature: the columns that it adds, and the part that is then read if the
ligature may go on. -/
def extend? (n : Nat) : Ligature → Option (Int × Option Ligature)
  | alef =>
      if lams.has n then some (0, none)
      else if isZeroWidth n && !breaksJoining.has n then some (0, some alef)
      else none
  | lamed true => if n = 0x05D0 then some (0, none) else none
  | subscript => if n = 0x17D2 then some (-1, none) else none
  | ya true => if n = 0x1A17 then some (0, some yaWithVowel) else none
  | yaWithVowel => if n = 0x1A15 then some (0, none) else none
  | consonant joined =>
      if n = 0x2D7F then some (1, some signedConsonant)
      else if joined && consonants.has n then some (0, none)
      else none
  | signedConsonant => if consonants.has n then some (-1, none) else none
  | tone => if 0xA4F8 ≤ n && n ≤ 0xA4FB then some (0, none) else none
  | turkicI true => if n = 0x10C32 then some (0, none) else none
  | _ => none

/-- What a character in front of a part of a ligature comes to.  A transparent
character leaves the part as it is, unless it is the joiner; between lam and
alef more characters are transparent. -/
def read? (n : Nat) (part : Ligature) : Option (Int × Option Ligature) :=
  if transparent.has n && part != alef then
    some (0, some (if n = 0x200D then part.joined else part))
  else part.extend? n

end Ligature
end FormalLang.Text
