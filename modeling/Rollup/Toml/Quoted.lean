/-! # TOML strings

A string stands between quotation marks, where a backslash starts an escape, or between apostrophes,
where every character stands for itself. Three marks on each side let it run over several lines.
-/

namespace Rollup.Toml

/-- A character that stands for itself in strings and comments. -/
def isPlain (c : Char) : Bool := c = '\t' || (0x20 ≤ c.toNat && c.toNat ≠ 0x7F)

def isBlank (c : Char) : Bool := c = ' ' || c = '\t'

/-- What follows a line break, if there is one. -/
def afterBreak? : List Char → Option (List Char)
  | '\n' :: rest => some rest
  | '\r' :: '\n' :: rest => some rest
  | _ => none

/-! ## Reading -/

/-- A text that has been read, and what follows it. -/
structure Lexeme where
  text : List Char
  rest : List Char

def Lexeme.cons (c : Char) (lexeme : Lexeme) : Lexeme := { lexeme with text := c :: lexeme.text }

/-- A code point written in hexadecimal digits. -/
def codePoint? (digits : List Char) : Option Char := do
  let n ← digits.foldlM (fun (n : Nat) c =>
    if '0' ≤ c ∧ c ≤ '9' then some (16 * n + (c.toNat - '0'.toNat))
    else if 'a' ≤ c ∧ c ≤ 'f' then some (16 * n + (c.toNat - 'a'.toNat + 10))
    else if 'A' ≤ c ∧ c ≤ 'F' then some (16 * n + (c.toNat - 'A'.toNat + 10))
    else none) 0
  if n.isValidChar then some (Char.ofNat n) else none

/-- The character of an escape, its backslash already read, and what follows it. -/
def escape? : List Char → Option (Char × List Char)
  | 'b' :: rest => some ('\x08', rest)
  | 't' :: rest => some ('\t', rest)
  | 'n' :: rest => some ('\n', rest)
  | 'f' :: rest => some ('\x0c', rest)
  | 'r' :: rest => some ('\r', rest)
  | '"' :: rest => some ('"', rest)
  | '\\' :: rest => some ('\\', rest)
  | 'u' :: a :: b :: c :: d :: rest => (codePoint? [a, b, c, d]).map (·, rest)
  | 'U' :: a :: b :: c :: d :: e :: f :: g :: h :: rest =>
      (codePoint? [a, b, c, d, e, f, g, h]).map (·, rest)
  | _ => none

theorem escape_length {s rest : List Char} {c : Char} (h : escape? s = some (c, rest)) :
    rest.length < s.length := by
  unfold escape? at h
  split at h
  all_goals simp_all
  all_goals
    obtain ⟨_, _, _, rfl⟩ := h
    omega

/-- What follows blanks and line breaks. -/
def dropSpace : List Char → List Char
  | ' ' :: rest => dropSpace rest
  | '\t' :: rest => dropSpace rest
  | '\n' :: rest => dropSpace rest
  | '\r' :: '\n' :: rest => dropSpace rest
  | s => s

/-- What follows the line breaks and blanks that a backslash at the end of a line swallows. -/
def afterFold? (s : List Char) : Option (List Char) :=
  (afterBreak? (s.dropWhile isBlank)).map dropSpace

/-- Read the rest of a string between quotation marks. -/
def readBasic (s : List Char) : Option Lexeme :=
  match s with
  | [] => none
  | '"' :: rest => some ⟨[], rest⟩
  | '\\' :: rest =>
      match h : escape? rest with
      | none => none
      | some (c, after) =>
          have := escape_length h
          (readBasic after).map (.cons c)
  | c :: rest => if isPlain c then (readBasic rest).map (.cons c) else none
termination_by s.length

/-- Read the rest of a string between apostrophes. -/
def readLiteral : List Char → Option Lexeme
  | [] => none
  | '\x27' :: rest => some ⟨[], rest⟩
  | c :: rest => if isPlain c then (readLiteral rest).map (.cons c) else none

/-- Read the rest of a string between three marks on each side. Up to two more marks may stand right
before its end. -/
def readLong (mark : Char) (s : List Char) : Option Lexeme :=
  match s with
  | [] => none
  | c :: rest =>
      if c = mark then
        if rest.take 4 = [mark, mark, mark, mark] then some ⟨[mark, mark], rest.drop 4⟩
        else if rest.take 3 = [mark, mark, mark] then some ⟨[mark], rest.drop 3⟩
        else if rest.take 2 = [mark, mark] then some ⟨[], rest.drop 2⟩
        else (readLong mark rest).map (.cons c)
      else if c = '\\' ∧ mark = '"' then
        match afterFold? rest with
        | some after =>
            if after.length ≤ rest.length then readLong mark after else none
        | none => match h : escape? rest with
            | none => none
            | some (c, after) =>
                have := escape_length h
                (readLong mark after).map (.cons c)
      else if c = '\n' then (readLong mark rest).map (.cons c)
      else if c = '\r' then
        match rest with
        | '\n' :: after => (readLong mark after).map (.cons '\n')
        | _ => none
      else if isPlain c then (readLong mark rest).map (.cons c)
      else none
termination_by s.length

/-- Read a string that stays on its line. -/
def readShort? : List Char → Option Lexeme
  | '"' :: rest => readBasic rest
  | '\x27' :: rest => readLiteral rest
  | _ => none

/-- Read a string. A line break right behind three opening marks is no part of it. -/
def readString? : List Char → Option Lexeme
  | '"' :: '"' :: '"' :: rest => readLong '"' ((afterBreak? rest).getD rest)
  | '\x27' :: '\x27' :: '\x27' :: rest => readLong '\x27' ((afterBreak? rest).getD rest)
  | s => readShort? s

/-! ## Writing -/

/-- How a character other than a quotation mark stands where escapes are read. In a string of several
lines a line break stands for itself. -/
def escaped (long : Bool) (c : Char) : List Char :=
  if c = '\x08' then ['\\', 'b']
  else if c = '\t' then ['\\', 't']
  else if c = '\n' then if long then ['\n'] else ['\\', 'n']
  else if c = '\x0c' then ['\\', 'f']
  else if c = '\r' then ['\\', 'r']
  else if c = '\\' then ['\\', '\\']
  else if isPlain c then [c]
  else
    let digits := (Nat.toDigits 16 c.toNat).map Char.toUpper
    ['\\', 'u'] ++ List.replicate (4 - digits.length) '0' ++ digits

/-- A text as it stands between quotation marks, `run` of them right before it. A single mark would
end the string, and so would three next to each other a string that has three on each side: one that
would complete the end is escaped. -/
def escapedFrom (long : Bool) (run : Nat) : List Char → List Char
  | [] => []
  | c :: rest =>
      if c = '"' then
        if long ∧ run < 2 then '"' :: escapedFrom long (run + 1) rest
        else '\\' :: '"' :: escapedFrom long 0 rest
      else escaped long c ++ escapedFrom long 0 rest

/-- The most marks that stand next to each other in a text, `run` of them right before it. -/
def longestRun (mark : Char) (run : Nat) : List Char → Nat
  | [] => run
  | c :: rest =>
      if c = mark then longestRun mark (run + 1) rest else max run (longestRun mark 0 rest)

/-- The ways to write a string: between quotation marks or apostrophes, one or three on each side. -/
inductive Quoting where
  | basic
  | literal
  | longBasic
  | longLiteral
  deriving DecidableEq, Repr

/-- How a text is written. Of the ways that need no escape the first is taken, one mark on each side
before three and quotation marks before apostrophes; only a tab may be escaped all the same. -/
def Quoting.of (text : List Char) : Quoting :=
  let breaks := text.contains '\n'
  let clean := text.all fun c => isPlain c || c = '\n'
  let unescaped := clean && !text.contains '\\'
  let quotes := longestRun '"' 0 text
  let apostrophes := longestRun '\x27' 0 text
  if unescaped && quotes = 0 && !breaks then .basic
  else if clean && apostrophes = 0 && !breaks then .literal
  else if unescaped && quotes < 3 then .longBasic
  else if clean && apostrophes < 3 then .longLiteral
  else if breaks then .longBasic
  else .basic

/-- A string as it is written. If it has several lines, the first starts on a line of its own. -/
def quoted (string : String) : String :=
  let text := string.toList
  let opening := if text.contains '\n' then "\n" else ""
  match Quoting.of text with
  | .basic => "\"" ++ String.ofList (escapedFrom false 0 text) ++ "\""
  | .literal => "'" ++ string ++ "'"
  | .longBasic => "\"\"\"" ++ opening ++ String.ofList (escapedFrom true 0 text) ++ "\"\"\""
  | .longLiteral => "'''" ++ opening ++ string ++ "'''"

end Rollup.Toml
