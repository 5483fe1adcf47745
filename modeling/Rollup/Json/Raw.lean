import Rollup.Json.Basic
import Rollup.Text.Utf8

/-! # JSON text as a tree

Reading a text never fails: a text that is no JSON becomes a tree that breaks off where the fault
is. So a reader of requests meets the faults of the text and the faults of its content in the order
in which they stand. A value that nobody wants is held to less than one that is wanted: its strings
need not make sense, its numbers may be of any size and its lists of any depth. Where the two differ
a fault is a pair.
-/

namespace Rollup.Json

/-- What is wrong with a JSON text. -/
inductive Fault where
  | endInValue
  | endInObject
  | endInList
  | endInString
  | expectedValue
  | expectedIdent
  | expectedColon
  | expectedCommaInObject
  | expectedCommaInList
  | keyNotString
  | trailingComma
  | trailingCharacters
  | invalidNumber
  | numberOutOfRange
  | invalidEscape
  | cutSurrogatePair
  | loneSurrogate
  | invalidCodePoint
  | controlCharacter
  | tooDeep
  deriving DecidableEq, Repr

def Fault.message : Fault → String
  | .endInValue => "EOF while parsing a value"
  | .endInObject => "EOF while parsing an object"
  | .endInList => "EOF while parsing a list"
  | .endInString => "EOF while parsing a string"
  | .expectedValue => "expected value"
  | .expectedIdent => "expected ident"
  | .expectedColon => "expected `:`"
  | .expectedCommaInObject => "expected `,` or `\x7d`"
  | .expectedCommaInList => "expected `,` or `]`"
  | .keyNotString => "key must be a string"
  | .trailingComma => "trailing comma"
  | .trailingCharacters => "trailing characters"
  | .invalidNumber => "invalid number"
  | .numberOutOfRange => "number out of range"
  | .invalidEscape => "invalid escape"
  | .cutSurrogatePair => "unexpected end of hex escape"
  | .loneSurrogate => "lone leading surrogate in hex escape"
  | .invalidCodePoint => "invalid unicode code point"
  | .controlCharacter => "control character (\\u0000-\\u001F) found while parsing a string"
  | .tooDeep => "recursion limit exceeded"

/-- A fault that breaks the text off, for a reader who wants the value and for one who skips it. -/
structure Break where
  wanted : Fault
  skipped : Fault
  deriving DecidableEq, Repr

/-- A fault that is the same for both. -/
def Break.both (fault : Fault) : Break := ⟨fault, fault⟩

/-- How a list of items ends. -/
inductive Ending where
  | closed
  | broken (fault : Break)
  deriving DecidableEq, Repr

/-- A JSON text as a tree. Scalars carry what a reader who wants them finds. -/
inductive Raw where
  | null
  | bool (value : Bool)
  | number (value : Except Fault Number)
  | string (value : Except Fault String)
  | array (items : List Raw) (ending : Ending)
  | object (members : List (Except Fault String × Raw)) (ending : Ending)
  | broken (fault : Break)

/-- The most containers that may be open at once in a value that is wanted. -/
def maxDepth : Nat := 127

namespace Raw

/-- A reader who wants the items of a list also meets its end. -/
def checkEnd : Ending → Except Fault Unit
  | .closed => .ok ()
  | .broken fault => .error fault.wanted

mutual

/-- The value of a tree that has `depth` containers open around it. A repeated name keeps its last
value. -/
def value (depth : Nat) : Raw → Except Fault Json
  | .null => .ok .null
  | .bool b => .ok (.bool b)
  | .number n => n.map .number
  | .string s => s.map .string
  | .array items ending =>
      if maxDepth ≤ depth then .error .tooDeep
      else do
        let items ← values (depth + 1) items
        checkEnd ending
        return .array items
  | .object members ending =>
      if maxDepth ≤ depth then .error .tooDeep
      else do
        let members ← memberValues (depth + 1) members
        checkEnd ending
        return .object (Entries.ofList members)
  | .broken fault => .error fault.wanted

def values (depth : Nat) : List Raw → Except Fault (List Json)
  | [] => .ok []
  | item :: items => do
      let head ← value depth item
      return head :: (← values depth items)

def memberValues (depth : Nat) : List (Except Fault String × Raw) → Except Fault (Entries Json)
  | [] => .ok []
  | (name, member) :: members => do
      let name ← name
      let head ← value depth member
      return (name, head) :: (← memberValues depth members)

end

mutual

/-- Pass over a value: only what breaks the text off is a fault. -/
def skip : Raw → Except Fault Unit
  | .array items ending => do
      skipAll items
      skipEnd ending
  | .object members ending => do
      skipMembers members
      skipEnd ending
  | .broken fault => .error fault.skipped
  | _ => .ok ()

def skipAll : List Raw → Except Fault Unit
  | [] => .ok ()
  | item :: items => do
      skip item
      skipAll items

def skipMembers : List (Except Fault String × Raw) → Except Fault Unit
  | [] => .ok ()
  | (_, member) :: members => do
      skip member
      skipMembers members

def skipEnd : Ending → Except Fault Unit
  | .closed => .ok ()
  | .broken fault => .error fault.skipped

end

end Raw

end Rollup.Json
