import Rollup.Json.Numeral
import Rollup.Json.Quoted

/-! # Reading JSON text

The bytes of a text become a tree. Each step hands on what is left of the text, and what is left is
shorter, so the reading ends.
-/

namespace Rollup.Json

def isBlankByte (b : UInt8) : Bool := b = 0x20 || b = 0x0A || b = 0x0D || b = 0x09

def dropBlanks (s : List UInt8) : List UInt8 := s.dropWhile isBlankByte

theorem dropBlanks_length (s : List UInt8) : (dropBlanks s).length ≤ s.length :=
  (List.dropWhile_sublist _).length_le

theorem length_lt_of_dropBlanks {s rest : List UInt8} {b : UInt8} (h : dropBlanks s = b :: rest) :
    rest.length < s.length := by
  have := dropBlanks_length s
  simp [h] at this
  omega

/-- What is left of a text after something has been read from it. -/
abbrev Rest (s : List UInt8) := { rest : List UInt8 // rest.length < s.length }

def Rest.within {s t : List UInt8} (rest : Rest s) (h : s.length ≤ t.length) : Rest t :=
  ⟨rest.1, Nat.lt_of_lt_of_le rest.2 h⟩

/-- The rest of a text that starts with a word. -/
def readWord : (word s : List UInt8) → Except Fault (List UInt8)
  | [], s => .ok s
  | _ :: _, [] => .error .endInValue
  | w :: word, b :: s => if w = b then readWord word s else .error .expectedIdent

theorem readWord_length {word s rest : List UInt8} (h : readWord word s = .ok rest) :
    rest.length ≤ s.length := by
  fun_induction readWord word s
  all_goals simp_all
  all_goals omega

/-- A word that stands for a value, its first letter already read. -/
def wordValue (word : List UInt8) (value : Raw) (s : List UInt8) :
    Raw × Option { rest : List UInt8 // rest.length ≤ s.length } :=
  match h : readWord word s with
  | .ok rest => (value, some ⟨rest, readWord_length h⟩)
  | .error fault => (.broken (.both fault), none)

/-- A numeral, its minus sign already read. -/
def numberValue (negative : Bool) (s : List UInt8) : Raw × Option (Rest s) :=
  match h : Numeral.lex negative s with
  | .ok (numeral, rest) => (.number numeral.number, some ⟨rest, Numeral.lex_length h⟩)
  | .error fault => (.broken fault, none)

/-- A string, its opening quote already read. -/
def stringToken (s : List UInt8) : Except Break (Except Fault String × Rest s) :=
  match h : (lexQuoted s).rest with
  | .ok rest => .ok (textOfPieces (lexQuoted s).pieces, ⟨rest, lexQuoted_length h⟩)
  | .error cut => .error (breakOfCut (lexQuoted s).pieces cut)

mutual

/-- Read a value. Nothing is left when it breaks off. -/
def readValue (s : List UInt8) : Raw × Option (Rest s) :=
  match h : dropBlanks s with
  | [] => (.broken (.both .endInValue), none)
  | b :: r =>
      have hr : r.length < s.length := length_lt_of_dropBlanks h
      let after (t : Option { rest : List UInt8 // rest.length ≤ r.length }) : Option (Rest s) :=
        t.map fun t => ⟨t.1, Nat.lt_of_le_of_lt t.2 hr⟩
      if b = 0x6E then
        let (value, rest) := wordValue [0x75, 0x6C, 0x6C] .null r
        (value, after rest)
      else if b = 0x74 then
        let (value, rest) := wordValue [0x72, 0x75, 0x65] (.bool true) r
        (value, after rest)
      else if b = 0x66 then
        let (value, rest) := wordValue [0x61, 0x6C, 0x73, 0x65] (.bool false) r
        (value, after rest)
      else if b = 0x2D then
        let (value, rest) := numberValue true r
        (value, rest.map (·.within (Nat.le_of_lt hr)))
      else if isDigitByte b then
        let (value, rest) := numberValue false (b :: r)
        (value, rest.map (·.within (h ▸ dropBlanks_length s)))
      else if b = 0x22 then
        match stringToken r with
        | .ok (text, rest) => (.string text, some (rest.within (Nat.le_of_lt hr)))
        | .error fault => (.broken fault, none)
      else if b = 0x5B then
        let (items, ending, rest) := readItems true r
        (.array items ending, rest.map (·.within (Nat.le_of_lt hr)))
      else if b = 0x7B then
        let (members, ending, rest) := readMembers true r
        (.object members ending, rest.map (·.within (Nat.le_of_lt hr)))
      else (.broken (.both .expectedValue), none)
termination_by (s.length, 0)

/-- Read the items of a list, its opening bracket already read. All but the first item follow a
comma. -/
def readItems (first : Bool) (s : List UInt8) : List Raw × Ending × Option (Rest s) :=
  match h : dropBlanks s with
  | [] => ([], .broken (.both .endInList), none)
  | b :: r =>
      have hr : r.length < s.length := length_lt_of_dropBlanks h
      if b = 0x5D then ([], .closed, some ⟨r, hr⟩)
      else if first then
        match readValue s with
        | (item, none) => ([item], .closed, none)
        | (item, some rest) =>
            have := rest.2
            let (items, ending, left) := readItems false rest.1
            (item :: items, ending, left.map (·.within (Nat.le_of_lt this)))
      else if b = 0x2C then
        match dropBlanks r with
        | [] => ([], .broken (.both .endInValue), none)
        | c :: _ =>
            if c = 0x5D then ([], .broken ⟨.trailingComma, .expectedValue⟩, none)
            else match readValue r with
              | (item, none) => ([item], .closed, none)
              | (item, some rest) =>
                  have := rest.2
                  let (items, ending, left) := readItems false rest.1
                  (item :: items, ending, left.map (·.within (by omega)))
      else ([], .broken (.both .expectedCommaInList), none)
termination_by (s.length, 1)

/-- Read the members of an object, its opening brace already read. All but the first member follow
a comma. -/
def readMembers (first : Bool) (s : List UInt8) :
    List (Except Fault String × Raw) × Ending × Option (Rest s) :=
  match h : dropBlanks s with
  | [] => ([], .broken (.both .endInObject), none)
  | b :: r =>
      have hr : r.length < s.length := length_lt_of_dropBlanks h
      if b = 0x7D then ([], .closed, some ⟨r, hr⟩)
      else if first then
        if b = 0x22 then
          let (members, ending, left) := readMember r
          (members, ending, left.map (·.within (Nat.le_of_lt hr)))
        else ([], .broken (.both .keyNotString), none)
      else if b = 0x2C then
        match h' : dropBlanks r with
        | [] => ([], .broken ⟨.endInValue, .endInObject⟩, none)
        | c :: r' =>
            have hr' : r'.length < r.length := length_lt_of_dropBlanks h'
            if c = 0x22 then
              let (members, ending, left) := readMember r'
              (members, ending, left.map (·.within (by omega)))
            else if c = 0x7D then ([], .broken ⟨.trailingComma, .keyNotString⟩, none)
            else ([], .broken (.both .keyNotString), none)
      else ([], .broken (.both .expectedCommaInObject), none)
termination_by (s.length, 1)

/-- Read a member and those after it, the opening quote of its name already read. -/
def readMember (s : List UInt8) :
    List (Except Fault String × Raw) × Ending × Option (Rest s) :=
  match stringToken s with
  | .error fault => ([], .broken fault, none)
  | .ok (name, rest) =>
      have hname := rest.2
      match h : dropBlanks rest.1 with
      | [] => ([(name, .broken (.both .endInObject))], .closed, none)
      | b :: r =>
          have hr : r.length < rest.1.length := length_lt_of_dropBlanks h
          if b = 0x3A then
            match readValue r with
            | (value, none) => ([(name, value)], .closed, none)
            | (value, some left) =>
                have := left.2
                let (members, ending, left') := readMembers false left.1
                ((name, value) :: members, ending, left'.map (·.within (by omega)))
          else ([(name, .broken (.both .expectedColon))], .closed, none)
termination_by (s.length, 2)

end

/-- A whole text: its value and the bytes behind it. -/
structure Document where
  value : Raw
  /-- Whether anything but blanks follows the value. -/
  trailing : Bool

/-- Read a whole text. -/
def Document.read (bytes : List UInt8) : Document :=
  match readValue bytes with
  | (value, none) => ⟨value, false⟩
  | (value, some rest) => ⟨value, !(dropBlanks rest.1).isEmpty⟩

/-- A text may hold nothing behind its value. -/
def Document.checkEnd (document : Document) : Except Fault Unit :=
  if document.trailing then .error .trailingCharacters else .ok ()

/-- The value that bytes spell. -/
def ofBytes (bytes : List UInt8) : Except Fault Json := do
  let document := Document.read bytes
  let value ← document.value.value 0
  document.checkEnd
  return value

/-- The value that a text spells. -/
def ofText (text : List Char) : Except Fault Json := ofBytes (Utf8.encode text)

end Rollup.Json
