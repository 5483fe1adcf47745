/-! # UTF-8

Reading goes byte by byte. It stops at the first byte that no well-formed text continues with, and
says where the ill-formed sequence starts and how many of its bytes were well-formed so far.
-/

namespace Rollup.Utf8

/-- Why bytes are no text. -/
inductive Fault where
  /-- The bytes from `start` begin a sequence that breaks off after `length` bytes. -/
  | invalid (start length : Nat)
  /-- The bytes end within the sequence that begins at `start`. -/
  | incomplete (start : Nat)
  deriving DecidableEq, Repr

def Fault.message : Fault → String
  | .invalid start length => s!"invalid utf-8 sequence of {length} bytes from index {start}"
  | .incomplete start => s!"incomplete utf-8 byte sequence from index {start}"

/-- A character whose first bytes have been read. -/
structure Partial where
  /-- Index of its first byte. -/
  start : Nat
  /-- Bytes read so far. -/
  seen : Nat
  /-- Bytes still owed. -/
  owed : Nat
  /-- Value of the bits read so far. -/
  value : Nat
  /-- Range of the next byte. -/
  low : Nat := 0x80
  high : Nat := 0xBF
  deriving DecidableEq, Repr

/-- The character that a first byte begins, unless it is a whole one or begins none. The ranges
keep out overlong forms, surrogates and values above the last code point. -/
def Partial.ofFirst? (start b : Nat) : Option Partial :=
  if 0xC2 ≤ b ∧ b ≤ 0xDF then some { start, seen := 1, owed := 1, value := b % 0x20 }
  else if b = 0xE0 then some { start, seen := 1, owed := 2, value := 0, low := 0xA0 }
  else if b = 0xED then some { start, seen := 1, owed := 2, value := 0xD, high := 0x9F }
  else if 0xE1 ≤ b ∧ b ≤ 0xEF then some { start, seen := 1, owed := 2, value := b % 0x10 }
  else if b = 0xF0 then some { start, seen := 1, owed := 3, value := 0, low := 0x90 }
  else if 0xF1 ≤ b ∧ b ≤ 0xF3 then some { start, seen := 1, owed := 3, value := b % 0x08 }
  else if b = 0xF4 then some { start, seen := 1, owed := 3, value := 4, high := 0x8F }
  else none

/-- Read bytes from an index on, perhaps within a character. -/
def decodeFrom : Nat → Option Partial → List UInt8 → Except Fault (List Char)
  | _, none, [] => .ok []
  | _, some p, [] => .error (.incomplete p.start)
  | index, none, b :: rest =>
      if b < 0x80 then (Char.ofNat b.toNat :: ·) <$> decodeFrom (index + 1) none rest
      else match Partial.ofFirst? index b.toNat with
        | none => .error (.invalid index 1)
        | some p => decodeFrom (index + 1) (some p) rest
  | index, some p, b :: rest =>
      if p.low ≤ b.toNat ∧ b.toNat ≤ p.high then
        let value := p.value * 0x40 + b.toNat % 0x40
        if p.owed = 1 then (Char.ofNat value :: ·) <$> decodeFrom (index + 1) none rest
        else decodeFrom (index + 1)
          (some { start := p.start, seen := p.seen + 1, owed := p.owed - 1, value }) rest
      else .error (.invalid p.start p.seen)

/-- The text that bytes spell. -/
def decode (bytes : List UInt8) : Except Fault (List Char) := decodeFrom 0 none bytes

/-- The bytes of one character. -/
def encodeChar (c : Char) : List UInt8 :=
  let n := c.toNat
  let tail (shift : Nat) : UInt8 := (0x80 + n / shift % 0x40).toUInt8
  if n < 0x80 then [n.toUInt8]
  else if n < 0x800 then [(0xC0 + n / 0x40).toUInt8, tail 1]
  else if n < 0x10000 then [(0xE0 + n / 0x1000).toUInt8, tail 0x40, tail 1]
  else [(0xF0 + n / 0x40000).toUInt8, tail 0x1000, tail 0x40, tail 1]

/-- The bytes that spell a text. -/
def encode (text : List Char) : List UInt8 := text.flatMap encodeChar

end Rollup.Utf8
