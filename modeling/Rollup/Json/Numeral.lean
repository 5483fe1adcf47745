import Rollup.Json.Raw

/-! # Numerals

A numeral without fraction and exponent that fits in 64 bits is an integer. Any other is a
floating-point number: the digits that fit in 64 bits are taken as one integer, which is rounded and
then scaled by a power of ten.
-/

namespace Rollup.Json

def isDigitByte (b : UInt8) : Bool := 0x30 ≤ b && b ≤ 0x39

def digitValue (b : UInt8) : Nat := b.toNat - 0x30

/-- The written parts of a numeral, digits as bytes. -/
structure Numeral where
  negative : Bool
  whole : List UInt8
  fraction : Option (List UInt8)
  /-- Whether the exponent is negative, and its digits. -/
  exponent : Option (Bool × List UInt8)
  deriving DecidableEq, Repr

namespace Numeral

/-- Append digits to a number as long as the result fits in 64 bits. Also gives how many digits
are left over. -/
def accumulate : Nat → List UInt8 → Nat × Nat
  | n, [] => (n, 0)
  | n, d :: ds =>
      let next := 10 * n + digitValue d
      if next < Word64.count then accumulate next ds else (n, ds.length + 1)

def powerOfTen (exponent : Nat) : Float := Float.ofScientific 1 false exponent

/-- Divide by a power of ten, at most by `1e308` at a time. -/
def scaleDown (x : Float) (places : Nat) : Float :=
  if places ≤ 308 then x / powerOfTen places
  else if x == 0.0 then x
  else scaleDown (x / powerOfTen 308) (places - 308)
termination_by places
decreasing_by omega

/-- An integer times a power of ten, unless that is too large. -/
def scaled (n : Nat) (exponent : Int) : Except Fault Float :=
  let x := Binary64.ofInt n
  if exponent < 0 then .ok (scaleDown x (-exponent).toNat)
  else if n = 0 then .ok x
  else if 308 < exponent then .error .numberOutOfRange
  else
    let y := x * powerOfTen exponent.toNat
    if y.isInf then .error .numberOutOfRange else .ok y

def exponentValue : Option (Bool × List UInt8) → Int
  | none => 0
  | some (negative, digits) =>
      let n : Nat := digits.foldl (fun n d => 10 * n + digitValue d) 0
      if negative then -(n : Int) else n

/-- The number that a numeral stands for. There is no integer `-0`. -/
def number (numeral : Numeral) : Except Fault Number :=
  let (whole, dropped) := accumulate 0 numeral.whole
  let isInteger := numeral.fraction.isNone && numeral.exponent.isNone && dropped = 0
  if isInteger && !numeral.negative then .ok (.int whole)
  else if isInteger && whole ≠ 0 && Word64.Holds (-(whole : Int)) then .ok (.int (-(whole : Int)))
  else do
    let fraction := numeral.fraction.getD []
    let (significand, unused) := accumulate whole fraction
    let places : Int := (dropped : Int) - ((fraction.length - unused : Nat) : Int)
    let x ← scaled significand (places + exponentValue numeral.exponent)
    return .float (if numeral.negative then -x else x)

/-- What comes of a fault within a numeral: at the end of the text a reader who wants the value
finds it missing. -/
def breakAt : List UInt8 → Break
  | [] => ⟨.endInValue, .invalidNumber⟩
  | _ :: _ => .both .invalidNumber

/-- One digit or more, and the rest. -/
def lexDigits (s : List UInt8) : Except Break (List UInt8 × List UInt8) :=
  if (s.takeWhile isDigitByte).isEmpty then .error (breakAt s)
  else .ok (s.takeWhile isDigitByte, s.dropWhile isDigitByte)

/-- Whether an exponent starts with a minus sign, and what follows its sign. -/
def splitSign : List UInt8 → Bool × List UInt8
  | [] => (false, [])
  | b :: rest => if b = 0x2D then (true, rest) else if b = 0x2B then (false, rest) else (false, b :: rest)

/-- An exponent, if one follows, and the rest. -/
def lexExponent : List UInt8 → Except Break (Option (Bool × List UInt8) × List UInt8)
  | [] => .ok (none, [])
  | b :: rest =>
      if b = 0x65 ∨ b = 0x45 then
        match lexDigits (splitSign rest).2 with
        | .ok (digits, after) => .ok (some ((splitSign rest).1, digits), after)
        | .error e => .error e
      else .ok (none, b :: rest)

/-- A fraction, if one follows, and the rest. -/
def lexFraction : List UInt8 → Except Break (Option (List UInt8) × List UInt8)
  | [] => .ok (none, [])
  | b :: rest =>
      if b = 0x2E then
        match lexDigits rest with
        | .ok (digits, after) => .ok (some digits, after)
        | .error e => .error e
      else .ok (none, b :: rest)

/-- The digits before the point and the rest. A zero stands alone. -/
def lexWhole : List UInt8 → Except Break (List UInt8 × List UInt8)
  | [] => .error (breakAt [])
  | b :: rest =>
      if b = 0x30 then
        if (rest.takeWhile isDigitByte).isEmpty then .ok ([b], rest) else .error (.both .invalidNumber)
      else lexDigits (b :: rest)

/-- A numeral at the front of a text, its minus sign already read, and the rest. -/
def lex (negative : Bool) (s : List UInt8) : Except Break (Numeral × List UInt8) :=
  match lexWhole s with
  | .error e => .error e
  | .ok (whole, s₁) => match lexFraction s₁ with
    | .error e => .error e
    | .ok (fraction, s₂) => match lexExponent s₂ with
      | .error e => .error e
      | .ok (exponent, s₃) => .ok ({ negative, whole, fraction, exponent }, s₃)

theorem lexDigits_length {s ds rest : List UInt8} (h : lexDigits s = .ok (ds, rest)) :
    rest.length < s.length := by
  unfold lexDigits at h
  split at h
  · cases h
  · rename_i hne
    simp only [Except.ok.injEq, Prod.mk.injEq] at h
    obtain ⟨-, rfl⟩ := h
    have hsplit := congrArg List.length (List.takeWhile_append_dropWhile (p := isDigitByte) (l := s))
    rw [List.length_append] at hsplit
    have hpos : 0 < (s.takeWhile isDigitByte).length := by
      cases htake : s.takeWhile isDigitByte with
      | nil => simp [htake] at hne
      | cons => simp
    omega

theorem splitSign_length (s : List UInt8) : (splitSign s).2.length ≤ s.length := by
  unfold splitSign
  repeat' split
  all_goals simp

theorem lexExponent_length {s rest : List UInt8} {e : Option (Bool × List UInt8)}
    (h : lexExponent s = .ok (e, rest)) : rest.length ≤ s.length := by
  unfold lexExponent at h
  split at h
  · simp_all
  · split at h
    · rename_i after _
      split at h
      · rename_i hd
        simp only [Except.ok.injEq, Prod.mk.injEq] at h
        have hlt := lexDigits_length hd
        have hle := splitSign_length after
        simp only [← h.2, List.length_cons]
        omega
      · cases h
    · simp only [Except.ok.injEq, Prod.mk.injEq] at h
      simp [← h.2]

theorem lexFraction_length {s rest : List UInt8} {f : Option (List UInt8)}
    (h : lexFraction s = .ok (f, rest)) : rest.length ≤ s.length := by
  unfold lexFraction at h
  split at h
  · simp_all
  · split at h
    · split at h
      · rename_i hd
        simp only [Except.ok.injEq, Prod.mk.injEq] at h
        have hlt := lexDigits_length hd
        simp only [← h.2, List.length_cons]
        omega
      · cases h
    · simp only [Except.ok.injEq, Prod.mk.injEq] at h
      simp [← h.2]

theorem lexWhole_length {s ds rest : List UInt8} (h : lexWhole s = .ok (ds, rest)) :
    rest.length < s.length := by
  unfold lexWhole at h
  split at h
  · cases h
  · split at h
    · split at h
      · simp only [Except.ok.injEq, Prod.mk.injEq] at h
        simp [← h.2]
      · cases h
    · exact lexDigits_length h

/-- A numeral takes at least one byte. -/
theorem lex_length {negative : Bool} {s rest : List UInt8} {n : Numeral}
    (h : lex negative s = .ok (n, rest)) : rest.length < s.length := by
  unfold lex at h
  split at h
  · cases h
  · rename_i hw
    split at h
    · cases h
    · rename_i hf
      split at h
      · cases h
      · rename_i he
        simp only [Except.ok.injEq, Prod.mk.injEq] at h
        have h₁ := lexWhole_length hw
        have h₂ := lexFraction_length hf
        have h₃ := lexExponent_length he
        simp only [← h.2]
        omega

end Numeral

end Rollup.Json
