import ContentVault.Text.Hex
import ContentVault.Text.Printable

/-!
# Texts as literals

A text between double quotes, with escapes for quotes, backslashes and whatever would not show. This is how texts
appear in logs.
-/

namespace ContentVault.Text

/-- A character by its code point, in hexadecimal digits between braces. -/
def codeEscape (c : Char) : List Char :=
  ['\\', 'u', '\x7b'] ++ (Nat.toDigits 16 c.toNat) ++ ['\x7d']

/-- A character inside a literal. -/
def literalChar (c : Char) : List Char :=
  if c = '\x00' then ['\\', '0']
  else if c = '\t' then ['\\', 't']
  else if c = '\r' then ['\\', 'r']
  else if c = '\n' then ['\\', 'n']
  else if c = '"' then ['\\', '"']
  else if c = '\\' then ['\\', '\\']
  else if c.toNat < 0x7f && 0x20 ≤ c.toNat then [c]
  else if extendsGrapheme c || !isPrintable c then codeEscape c
  else [c]

/-- A text as a literal. -/
def literal (s : String) : String := String.ofList ('"' :: s.toList.flatMap literalChar ++ ['"'])

end ContentVault.Text
