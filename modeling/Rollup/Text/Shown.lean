import Rollup.Text.Visible

/-! # Text shown within quotes

A quoted text shows each of its characters: those that would not be seen, or not be told from the
quotes, are written by their names.
-/

namespace Rollup.Text

/-- The braces around a code point. -/
def codePoint (c : Char) : List Char :=
  ['\\', 'u', '\x7b'] ++ Nat.toDigits 16 c.toNat ++ ['\x7d']

/-- How a character is shown within quotes. -/
def shownChar (c : Char) : List Char :=
  if c = '\x00' then ['\\', '0']
  else if c = '\t' then ['\\', 't']
  else if c = '\r' then ['\\', 'r']
  else if c = '\n' then ['\\', 'n']
  else if c = '\\' then ['\\', '\\']
  else if c = '"' then ['\\', '"']
  else if isVisible c then [c]
  else codePoint c

/-- A text within quotes. -/
def shown (text : String) : String :=
  String.ofList ('"' :: (text.toList.flatMap shownChar ++ ['"']))

end Rollup.Text
