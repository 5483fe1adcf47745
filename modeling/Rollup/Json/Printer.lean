import Rollup.Binary64.Layout
import Rollup.Json.Basic

/-! # Writing JSON

Compact text: no blanks, members in order, control characters escaped, all other characters as they
are.
-/

namespace Rollup.Json

/-- From `1e-5` to `1e16` numbers are positional and whole ones end in `.0`. -/
def numberLayout : Binary64.Layout := ⟨some (-4, 16), true⟩

def numberText : Number → String
  | .int n => toString n
  | .float x => if x.isFinite then numberLayout.write x else "null"

/-- A control character as an escape of four hexadecimal digits. -/
def unicodeEscape (c : Char) : List Char :=
  let digits := Nat.toDigits 16 c.toNat
  '\\' :: 'u' :: (List.replicate (4 - digits.length) '0' ++ digits)

/-- How a character stands within quotes. -/
def escape (c : Char) : List Char :=
  if c = '"' then ['\\', '"']
  else if c = '\\' then ['\\', '\\']
  else if c = '\n' then ['\\', 'n']
  else if c = '\r' then ['\\', 'r']
  else if c = '\t' then ['\\', 't']
  else if c = '\x08' then ['\\', 'b']
  else if c = '\x0c' then ['\\', 'f']
  else if c.toNat < 0x20 then unicodeEscape c
  else [c]

/-- A string within quotes. -/
def quoted (s : String) : String := String.ofList ('"' :: (s.toList.flatMap escape ++ ['"']))

mutual

/-- Compact text of a value. -/
def text : Json → String
  | .null => "null"
  | .bool true => "true"
  | .bool false => "false"
  | .number n => numberText n
  | .string s => quoted s
  | .array items => "[" ++ ",".intercalate (texts items) ++ "]"
  | .object members => "\x7b" ++ ",".intercalate (memberTexts members) ++ "\x7d"

def texts : List Json → List String
  | [] => []
  | x :: xs => text x :: texts xs

def memberTexts : List (String × Json) → List String
  | [] => []
  | (name, x) :: xs => (quoted name ++ ":" ++ text x) :: memberTexts xs

end

end Rollup.Json
