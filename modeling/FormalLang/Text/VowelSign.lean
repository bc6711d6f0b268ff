/-!
# Vowel signs of Kirat Rai

The vowel signs of Kirat Rai are built from two shapes, aa and e, and are as wide
as one character however many characters spell them: aa with e is o, e with e is
ai, and aa with ai is au.
-/

namespace FormalLang.Text

/-- A vowel sign that can be the end of another one. -/
inductive VowelSign
  | e
  | ai
deriving DecidableEq

namespace VowelSign

/-- The vowel sign that ends in a character. -/
def ofLast? (n : Nat) : Option VowelSign :=
  if n = 0x16D67 then some e
  else if n = 0x16D68 then some ai
  else none

/-- What a character in front of a vowel sign comes to, if the two make one sign:
the columns that it adds, and the sign that can be the end of another one. -/
def read? (n : Nat) : VowelSign → Option (Int × Option VowelSign)
  | e =>
      if n = 0x16D63 || n = 0x16D69 then some (0, none)
      else if n = 0x16D67 then some (0, some ai)
      -- An ai in front ends in an e, which makes an ai with the e behind it.
      else if n = 0x16D68 then some (1, some e)
      else none
  | ai => if n = 0x16D63 then some (0, none) else none

end VowelSign
end FormalLang.Text
