import StyleCheck.Text.Printable

/-!
# Quoted text

A text inside quotes: the quote, the backslash and four controls have escapes of their own, any other character that cannot
be shown is written by its number in hexadecimal, and all else stands for itself.
-/

namespace StyleCheck

/-- A character written by its number, such as `\u{ad}`. -/
def numericEscape (c : Char) : List Char :=
  ['\\', 'u', '\x7b'] ++ Nat.toDigits 16 c.toNat ++ ['\x7d']

/-- How one character is written inside quotes. -/
def quoteChar (c : Char) : List Char :=
  if c = '"' then ['\\', '"']
  else if c = '\\' then ['\\', '\\']
  else if c = '\n' then ['\\', 'n']
  else if c = '\r' then ['\\', 'r']
  else if c = '\t' then ['\\', 't']
  else if c = '\x00' then ['\\', '0']
  else if isPrintable c then [c]
  else numericEscape c

/-- The text between quotes. -/
def quote (s : String) : String :=
  String.ofList ('"' :: s.toList.flatMap quoteChar ++ ['"'])

end StyleCheck
