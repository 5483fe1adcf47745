import Rollup.Json.Raw

/-! # Quoted strings

A quoted string is read in two steps. The first finds its end and its escapes, which is all that
skipping a string asks for. The second joins surrogate pairs and makes sure that the bytes are text.
-/

namespace Rollup.Json

/-- A part of a string: a byte of its text or a 16-bit unit written in hexadecimal. -/
inductive Piece where
  | byte (b : UInt8)
  | unit (code : Nat)
  deriving DecidableEq, Repr

/-- Why a string does not come to its end. -/
inductive Cut where
  | endOfText
  | controlCharacter
  | unknownEscape
  | badHexadecimal
  deriving DecidableEq, Repr

def Cut.fault : Cut → Fault
  | .endOfText => .endInString
  | .controlCharacter => .controlCharacter
  | .unknownEscape => .invalidEscape
  | .badHexadecimal => .invalidEscape

/-- The fault at a cut right behind the first half of a surrogate pair, where only an escape of
four hexadecimal digits may follow. -/
def Cut.faultInPair : Cut → Fault
  | .endOfText => .endInString
  | .badHexadecimal => .invalidEscape
  | .controlCharacter => .cutSurrogatePair
  | .unknownEscape => .cutSurrogatePair

/-- The parts of a string, and what follows its closing quote or cuts it off. -/
structure Lexeme where
  pieces : List Piece
  rest : Except Cut (List UInt8)

def Lexeme.cons (piece : Piece) (lexeme : Lexeme) : Lexeme :=
  { lexeme with pieces := piece :: lexeme.pieces }

def hexValue? (b : UInt8) : Option Nat :=
  if 0x30 ≤ b ∧ b ≤ 0x39 then some (b.toNat - 0x30)
  else if 0x41 ≤ b ∧ b ≤ 0x46 then some (b.toNat - 0x41 + 10)
  else if 0x61 ≤ b ∧ b ≤ 0x66 then some (b.toNat - 0x61 + 10)
  else none

/-- The value of four hexadecimal digits. -/
def hexValue4? (a b c d : UInt8) : Option Nat := do
  let a ← hexValue? a
  let b ← hexValue? b
  let c ← hexValue? c
  let d ← hexValue? d
  return ((a * 16 + b) * 16 + c) * 16 + d

/-- The byte for which a letter behind a backslash stands. -/
def simpleEscape? (b : UInt8) : Option UInt8 :=
  if b = 0x22 ∨ b = 0x5C ∨ b = 0x2F then some b
  else if b = 0x62 then some 0x08
  else if b = 0x66 then some 0x0C
  else if b = 0x6E then some 0x0A
  else if b = 0x72 then some 0x0D
  else if b = 0x74 then some 0x09
  else none

/-- Find the end of a string whose opening quote has been read. -/
def lexQuoted : List UInt8 → Lexeme
  | [] => ⟨[], .error .endOfText⟩
  | b :: rest =>
      if b = 0x22 then ⟨[], .ok rest⟩
      else if b = 0x5C then
        match rest with
        | [] => ⟨[], .error .endOfText⟩
        | letter :: rest =>
            if letter = 0x75 then
              match rest with
              | h₁ :: h₂ :: h₃ :: h₄ :: rest =>
                  match hexValue4? h₁ h₂ h₃ h₄ with
                  | some code => (lexQuoted rest).cons (.unit code)
                  | none => ⟨[], .error .badHexadecimal⟩
              | _ => ⟨[], .error .endOfText⟩
            else match simpleEscape? letter with
              | some c => (lexQuoted rest).cons (.byte c)
              | none => ⟨[], .error .unknownEscape⟩
      else if b < 0x20 then ⟨[], .error .controlCharacter⟩
      else (lexQuoted rest).cons (.byte b)

/-- The first and the second half of a surrogate pair. -/
def isLeading (code : Nat) : Bool := 0xD800 ≤ code && code ≤ 0xDBFF

def isTrailing (code : Nat) : Bool := 0xDC00 ≤ code && code ≤ 0xDFFF

/-- The bytes that the parts of a string spell, `lead` being the first half of a pair just read.
`cut` is what cuts the string off, if anything does. -/
def spell (cut : Option Cut) : (lead : Option Nat) → List Piece → Except Fault (List UInt8)
  | none, [] => match cut with
    | none => .ok []
    | some c => .error c.fault
  | some _, [] => match cut with
    | none => .error .cutSurrogatePair
    | some c => .error c.faultInPair
  | none, .byte b :: rest => (b :: ·) <$> spell cut none rest
  | some _, .byte _ :: _ => .error .cutSurrogatePair
  | none, .unit code :: rest =>
      if isTrailing code then .error .loneSurrogate
      else if isLeading code then spell cut (some code) rest
      else (Utf8.encodeChar (Char.ofNat code) ++ ·) <$> spell cut none rest
  | some lead, .unit code :: rest =>
      if isTrailing code then
        let c := Char.ofNat (0x10000 + (lead - 0xD800) * 0x400 + (code - 0xDC00))
        (Utf8.encodeChar c ++ ·) <$> spell cut none rest
      else .error .loneSurrogate

/-- The text of a string that ends. -/
def textOfPieces (pieces : List Piece) : Except Fault String := do
  let bytes ← spell none none pieces
  match Utf8.decode bytes with
  | .ok text => return String.ofList text
  | .error _ => throw .invalidCodePoint

/-- The fault that breaks off a string which is cut. -/
def breakOfCut (pieces : List Piece) (cut : Cut) : Break :=
  match spell (some cut) none pieces with
  | .error fault => ⟨fault, cut.fault⟩
  | .ok _ => .both cut.fault

/-- A string takes at least its closing quote. -/
theorem lexQuoted_length {s rest : List UInt8} (h : (lexQuoted s).rest = .ok rest) :
    rest.length < s.length := by
  fun_induction lexQuoted s
  all_goals simp_all [Lexeme.cons]
  all_goals omega

end Rollup.Json
