import SlimSvg.Text.HiddenData
import SlimSvg.Text.LowerCase

namespace SlimSvg
namespace Text

/-!
# Quoted texts

A text between quotation marks in which every character can be seen.  What
cannot be seen is written by its code point, so that the quoted form of a text
tells it apart from every other text.
-/

/-- The hexadecimal digits of a number, in lower case. -/
def hexDigits (n : Nat) : List Char :=
  Nat.toDigits 16 n

/-- Whether a character has to be written by its code point. -/
def isHidden (c : Char) : Bool :=
  let n := c.toNat
  n < 0x20 || n == 0x7F || (0x80 ≤ n && inRanges hiddenRanges n)

/-- A character inside of quotation marks of one kind. -/
def escaped (quote c : Char) : List Char :=
  if c == '\x00' then ['\\', '0']
  else if c == '\t' then ['\\', 't']
  else if c == '\r' then ['\\', 'r']
  else if c == '\n' then ['\\', 'n']
  else if c == '\\' then ['\\', '\\']
  else if c == quote then ['\\', quote]
  else if isHidden c then ['\\', 'u', '\x7b'] ++ hexDigits c.toNat ++ ['\x7d']
  else [c]

/-- A text between double quotation marks. -/
def quoted (s : String) : String :=
  String.ofList ('"' :: s.toList.flatMap (escaped '"') ++ ['"'])

/-- A character between single quotation marks. -/
def quotedChar (c : Char) : String :=
  String.ofList ('\'' :: escaped '\'' c ++ ['\''])

end Text
end SlimSvg
