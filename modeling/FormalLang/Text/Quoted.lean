import FormalLang.Character.GraphemeExtend
import FormalLang.Character.Unprintable

/-!
# Quoted text

Texts stand in messages between double quotes.  The quote and the backslash
are escaped, the usual control characters have a letter each, and any other
character that would not show is written by its code point.
-/

namespace FormalLang.Text

/-- Whether a character would not show by itself: it has no look of its own, or
it is shown as a part of the character in front of it. -/
def isHidden (c : Char) : Bool :=
  let n := c.toNat
  if n < 0x7F then n < 0x20
  else Character.unprintable.has n || Character.graphemeExtend.has n

/-- The code point of a character in hexadecimal digits between braces. -/
def codePoint (c : Char) : String :=
  "\\u\x7b" ++ String.ofList (Nat.toDigits 16 c.toNat) ++ "\x7d"

/-- A character as it stands between double quotes. -/
def escape (c : Char) : String :=
  match c with
  | '"' => "\\\""
  | '\\' => "\\\\"
  | '\n' => "\\n"
  | '\r' => "\\r"
  | '\t' => "\\t"
  | '\x00' => "\\0"
  | _ => if isHidden c then codePoint c else c.toString

/-- A text between double quotes, with escapes. -/
def quoted (s : String) : String :=
  "\"" ++ String.join (s.toList.map escape) ++ "\""

end FormalLang.Text
