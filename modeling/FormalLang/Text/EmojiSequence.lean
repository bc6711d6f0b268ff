import FormalLang.Character.Emoji

/-!
# Sequences of emoji

One picture can be made of several characters: two letters make a flag, a tone
is given to the skin of a person, and joiners tie pictures together.  A line is
read from its end, so that the last character of such a sequence is met first.
-/

namespace FormalLang.Text

/-- The part of a sequence of emoji that has been read so far. -/
inductive EmojiSequence
  /-- A whole picture. -/
  | picture
  /-- A tone of skin. -/
  | skin
  /-- A letter of a flag. -/
  | flagLetter
  /-- Letters of flags. -/
  | flagLetters
  /-- A joiner and a picture. -/
  | joined
  /-- The frame of a key, a joiner and a picture. -/
  | joinedKey
  /-- A letter of a flag, a joiner and a picture. -/
  | joinedFlagLetter
  /-- Letters of flags, of an odd number or not, a joiner and a picture. -/
  | joinedFlagLetters (odd : Bool)
  /-- Tags, a joiner and a picture: how many letters and how many digits. -/
  | tags (letters digits : Nat)
deriving DecidableEq

namespace EmojiSequence

open Character

/-- Whether a code point is a letter of a flag. -/
def isFlagLetter (n : Nat) : Bool :=
  0x1F1E6 ≤ n && n ≤ 0x1F1FF

/-- Whether a code point is a tone of skin. -/
def isSkin (n : Nat) : Bool :=
  0x1F3FB ≤ n && n ≤ 0x1F3FF

/-- The sequence that ends in a character. -/
def ofLast? (n : Nat) : Option EmojiSequence :=
  if isFlagLetter n then some flagLetter
  else if isSkin n then some skin
  else if emojiByDefault.has n then some picture
  else none

/-- Whether a joiner waits for the picture in front of it. -/
def isJoined : EmojiSequence → Bool
  | joined | joinedKey => true
  | _ => false

/-- What a tag, or the flag that tags belong to, comes to in front of tags.  A
region has up to six letters, or up to four letters and three digits. -/
def readTag? (n letters digits : Nat) : Option (Int × EmojiSequence) :=
  if 0xE0061 ≤ n && n ≤ 0xE007A && digits = 0 && letters < 6 then
    some (0, tags (letters + 1) 0)
  else if 0xE0030 ≤ n && n ≤ 0xE0039 && (if digits = 0 then letters ≤ 4 else digits < 3) then
    some (0, tags letters (digits + 1))
  else if n = 0x1F3F4 && (if digits = 0 then 3 ≤ letters else digits = 3) then
    some (0, picture)
  else none

/-- What a character in front of a part of a sequence comes to, if it belongs to
the sequence: the columns that it adds, and the part that is then read. -/
def read? (n : Nat) : EmojiSequence → Option (Int × EmojiSequence)
  | picture => if n = 0x200D then some (0, joined) else none
  | skin =>
      if emojiWithSkin.has n then some (0, picture)
      else if n = 0x200D then some (0, joined)
      else none
  | flagLetter => if isFlagLetter n then some (1, flagLetters) else none
  | flagLetters =>
      if isFlagLetter n then some (1, flagLetters)
      else if n = 0x200D then some (0, joined)
      else none
  | joined =>
      if n = 0x20E3 then some (0, joinedKey)
      else if isFlagLetter n then some (1, joinedFlagLetter)
      else if isSkin n then some (0, skin)
      else if n = 0xE007F then some (0, tags 0 0)
      else if emojiByDefault.has n then some (0, picture)
      else none
  | joinedKey => none
  | joinedFlagLetter => if isFlagLetter n then some (-1, joinedFlagLetters false) else none
  | joinedFlagLetters odd =>
      if isFlagLetter n then some (if odd then -1 else 3, joinedFlagLetters !odd)
      else if n = 0x200D then some (0, joined)
      else none
  | tags letters digits => readTag? n letters digits

end EmojiSequence
end FormalLang.Text
