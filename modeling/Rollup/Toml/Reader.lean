import Rollup.Toml.Quoted
import Rollup.Toml.Scalar

/-! # Reading TOML

A text is a sequence of lines: headers, which open tables, and entries, which set keys of the table
opened last. A value may run over several lines. Each step hands on what is left of the text, and what
is left is shorter, so the reading ends.
-/

namespace Rollup.Toml

/-- What is left of a text after something has been read from it. -/
abbrev Rest (s : List Char) := { rest : List Char // rest.length < s.length }

/-- What is left, if it is less. -/
def less? (s rest : List Char) : Option (Rest s) :=
  if h : rest.length < s.length then some ⟨rest, h⟩ else none

/-! ## Between values -/

/-- What follows a comment, or whatever else stands there. Comments hold no control characters. -/
def afterComment : List Char → List Char
  | '#' :: rest => rest.dropWhile isPlain
  | rest => rest

/-- What follows the end of a line. The end of the text ends its last line. -/
def afterLine? (s : List Char) : Option (List Char) :=
  match afterComment (s.dropWhile isBlank) with
  | [] => some []
  | rest => afterBreak? rest

/-- What follows blanks, comments and line breaks, of which there are at most `fuel`. -/
def dropFiller : (fuel : Nat) → List Char → List Char
  | 0, s => s
  | fuel + 1, s =>
      let rest := s.dropWhile isBlank
      match afterBreak? (afterComment rest) with
      | some rest => dropFiller fuel rest
      | none => rest

/-! ## Keys -/

def isBare (c : Char) : Bool := c.isAlphanum || c = '_' || c = '-'

/-- A single name. -/
def readName? (s : List Char) : Option Lexeme :=
  match readShort? s with
  | some lexeme => some lexeme
  | none =>
      if (s.takeWhile isBare).isEmpty then none
      else some ⟨s.takeWhile isBare, s.dropWhile isBare⟩

/-- A key: names with points between them. Gives the names in order, and what follows them. -/
def readKey (s : List Char) : Option (List String × List Char) := do
  let name ← readName? (s.dropWhile isBlank)
  let rest := name.rest.dropWhile isBlank
  match rest with
  | '.' :: rest =>
      if rest.length < s.length then
        let (names, rest) ← readKey rest
        return (String.ofList name.text :: names, rest)
      else none
  | rest => return ([String.ofList name.text], rest)
termination_by s.length

/-- How many names a key may have, and how many containers may be open at once, and one more. -/
def nesting : Nat := 80

/-- A key as the way to a table and a name in it. -/
def keyPath? (names : List String) : Option (List String × String) :=
  if names.length < nesting then names.getLast?.map (names.dropLast, ·) else none

/-! ## Values -/

/-- A character of a word. -/
def isWordChar (c : Char) : Bool := c.isAlphanum || c = '+' || c = '-' || c = '_' || c = '.' || c = ':'

/-- The word at the front of a text. A blank between a date and a time of day is part of it. -/
def readWord (s : List Char) : Lexeme :=
  let word := s.takeWhile isWordChar
  let rest := s.dropWhile isWordChar
  match rest with
  | ' ' :: h₁ :: h₂ :: ':' :: _ =>
      if afterDate? word = some [] ∧ h₁.isDigit ∧ h₂.isDigit then
        ⟨word ++ ' ' :: (rest.drop 1).takeWhile isWordChar, (rest.drop 1).dropWhile isWordChar⟩
      else ⟨word, rest⟩
  | _ => ⟨word, rest⟩

mutual

/-- Read a value that has `depth` containers open around it. -/
def readValue (depth : Nat) (s : List Char) : Option (Value × Rest s) :=
  match s with
  | '[' :: rest =>
      if nesting ≤ depth + 1 then none
      else do
        let (items, left) ← readItems (depth + 1) rest
        return (.array items, ← less? _ left)
  | '\x7b' :: rest =>
      if nesting ≤ depth + 1 then none
      else do
        let (pairs, left) ← readPairs (depth + 1) true rest
        return ((← Table.ofPairs pairs).value, ← less? _ left)
  | s => do
      match readString? s with
      | some lexeme => return (.string (String.ofList lexeme.text), ← less? _ lexeme.rest)
      | none =>
          let word := readWord s
          return (← Value.ofWord? word.text, ← less? _ word.rest)
termination_by 2 * s.length

/-- Read the items of a list and its end. A comma may follow the last item. -/
def readItems (depth : Nat) (s : List Char) : Option (List Value × List Char) :=
  match dropFiller s.length s with
  | ']' :: rest => some ([], rest)
  | start =>
      if start.length ≤ s.length then do
        let (item, left) ← readValue depth start
        match dropFiller left.1.length left.1 with
        | ']' :: rest => return ([item], rest)
        | ',' :: rest =>
            if rest.length < s.length then
              let (items, rest) ← readItems depth rest
              return (item :: items, rest)
            else none
        | _ => none
      else none
termination_by 2 * s.length + 1

/-- Read the entries between braces and the closing brace. They stay on one line, and all but the
first follow a comma. -/
def readPairs (depth : Nat) (first : Bool) (s : List Char) :
    Option (List ((List String × String) × Value) × List Char) :=
  match s.dropWhile isBlank, first with
  | '\x7d' :: rest, true => some ([], rest)
  | _, _ => do
      let (names, rest) ← readKey s
      let '=' :: rest := rest | none
      if (rest.dropWhile isBlank).length < s.length then
        let (value, left) ← readValue depth (rest.dropWhile isBlank)
        match left.1.dropWhile isBlank with
        | '\x7d' :: rest => return ([(← keyPath? names, value)], rest)
        | ',' :: rest =>
            if rest.length < s.length then
              let (pairs, rest) ← readPairs depth false rest
              return ((← keyPath? names, value) :: pairs, rest)
            else none
        | _ => none
      else none
termination_by 2 * s.length + 1

end

/-! ## Lines -/

/-- What a line says. -/
inductive Line where
  | blank
  | header (path : List String) (name : String)
  | itemHeader (path : List String) (name : String)
  | entry (path : List String) (name : String) (value : Value)

/-- Read one line, or as many as its value takes. -/
def readLine (s : List Char) : Option (Line × List Char) := do
  let start := s.dropWhile isBlank
  match start with
  | '[' :: '[' :: rest =>
      let (names, rest) ← readKey rest
      let (path, name) ← keyPath? names
      let ']' :: ']' :: rest := rest | none
      return (.itemHeader path name, ← afterLine? rest)
  | '[' :: rest =>
      let (names, rest) ← readKey rest
      let (path, name) ← keyPath? names
      let ']' :: rest := rest | none
      return (.header path name, ← afterLine? rest)
  | start => match afterLine? start with
      | some rest => return (.blank, rest)
      | none =>
          let (names, rest) ← readKey start
          let (path, name) ← keyPath? names
          let '=' :: rest := rest | none
          let (value, left) ← readValue 0 (rest.dropWhile isBlank)
          return (.entry path name value, ← afterLine? left.1)

/-- A document that is being read, and the way to the table that was opened last. -/
structure Document where
  root : Table := ⟨.header, []⟩
  opened : List String := []

/-- Take in a line. -/
def Document.add (document : Document) : Line → Option Document
  | .blank => some document
  | .header path name => do
      let root ← document.root.changeAt false (Table.openTable name) path
      return ⟨root, path ++ [name]⟩
  | .itemHeader path name => do
      let root ← document.root.changeAt false (Table.openItem name) path
      return ⟨root, path ++ [name]⟩
  | .entry path name value => do
      let root ← document.root.changeAt false (·.add path name value) document.opened
      return { document with root }

/-- Read lines into a document. -/
def Document.read (document : Document) (s : List Char) : Option Document :=
  if s.isEmpty then some document
  else do
    let (line, rest) ← readLine s
    let document ← document.add line
    if rest.length < s.length then document.read rest else none
termination_by s.length

/-- The table that a text spells. A mark of the byte order in front is no part of it. -/
def ofText? (text : List Char) : Option Value :=
  let text := match text with
    | '\uFEFF' :: rest => rest
    | text => text
  (Document.read {} text).map (·.root.value)

end Rollup.Toml
