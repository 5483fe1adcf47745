import Rollup.Proofs.Success
import Rollup.Text.Utf8

/-! # Bytes that spell a text

A text is spelled in one way only: bytes that can be read are those that are written for the text.
-/

namespace Rollup.Utf8

/-- Bytes with which all ways to go on from a partial character write that character. -/
inductive Partial.Begins : Partial → List UInt8 → Prop where
  | last {p : Partial} {bytes : List UInt8} : p.owed = 1 →
      (∀ b : UInt8, p.low ≤ b.toNat → b.toNat ≤ p.high →
        encodeChar (Char.ofNat (p.value * 0x40 + b.toNat % 0x40)) = bytes ++ [b]) → Begins p bytes
  | more {p : Partial} {bytes : List UInt8} : p.owed ≠ 1 →
      (∀ b : UInt8, p.low ≤ b.toNat → b.toNat ≤ p.high →
        Begins { start := p.start, seen := p.seen + 1, owed := p.owed - 1,
                 value := p.value * 0x40 + b.toNat % 0x40 } (bytes ++ [b])) → Begins p bytes

/-! ## Characters by their width -/

section Width

variable {n : Nat}

theorem toUInt8_eq {b : UInt8} (h : n = b.toNat) : n.toUInt8 = b := by
  rw [h, Nat.toUInt8_eq, UInt8.ofNat_toNat]

theorem toNat_ofNat (h : n < 0xD800 ∨ 0xDFFF < n ∧ n < 0x110000) : (Char.ofNat n).toNat = n := by
  rw [Char.toNat_ofNat, if_pos h]

theorem encodeChar_one {b : UInt8} (h : b < 0x80) : encodeChar (Char.ofNat b.toNat) = [b] := by
  have small : b.toNat < 0x80 := h
  simp only [encodeChar, toNat_ofNat (n := b.toNat) (by omega), if_pos small, toUInt8_eq rfl]

theorem encodeChar_two {b c : UInt8} (lead : 0xC2 ≤ b.toNat ∧ b.toNat ≤ 0xDF)
    (tail : 0x80 ≤ c.toNat ∧ c.toNat ≤ 0xBF) (value : n = b.toNat % 0x20 * 0x40 + c.toNat % 0x40) :
    encodeChar (Char.ofNat n) = [b, c] := by
  simp only [encodeChar, toNat_ofNat (n := n) (by omega), if_neg (show ¬ n < 0x80 by omega),
    if_pos (show n < 0x800 by omega)]
  congr
  · exact toUInt8_eq (by omega)
  · exact toUInt8_eq (by omega)

theorem encodeChar_three {b c d : UInt8} (lead : 0xE0 ≤ b.toNat ∧ b.toNat ≤ 0xEF)
    (second : 0x80 ≤ c.toNat ∧ c.toNat ≤ 0xBF) (third : 0x80 ≤ d.toNat ∧ d.toNat ≤ 0xBF)
    (shortest : b.toNat = 0xE0 → 0xA0 ≤ c.toNat) (scalar : b.toNat = 0xED → c.toNat ≤ 0x9F)
    (value : n = (b.toNat % 0x10 * 0x40 + c.toNat % 0x40) * 0x40 + d.toNat % 0x40) :
    encodeChar (Char.ofNat n) = [b, c, d] := by
  have wide : 0x800 ≤ n := by omega
  have narrow : n < 0x10000 := by omega
  have valid : n < 0xD800 ∨ 0xDFFF < n ∧ n < 0x110000 := by omega
  simp only [encodeChar, toNat_ofNat valid, if_neg (show ¬ n < 0x80 by omega),
    if_neg (Nat.not_lt.mpr wide), if_pos narrow]
  congr
  · exact toUInt8_eq (by omega)
  · exact toUInt8_eq (by omega)
  · exact toUInt8_eq (by omega)

theorem encodeChar_four {b c d e : UInt8} (lead : 0xF0 ≤ b.toNat ∧ b.toNat ≤ 0xF4)
    (second : 0x80 ≤ c.toNat ∧ c.toNat ≤ 0xBF) (third : 0x80 ≤ d.toNat ∧ d.toNat ≤ 0xBF)
    (fourth : 0x80 ≤ e.toNat ∧ e.toNat ≤ 0xBF) (shortest : b.toNat = 0xF0 → 0x90 ≤ c.toNat)
    (scalar : b.toNat = 0xF4 → c.toNat ≤ 0x8F)
    (value : n = ((b.toNat % 0x08 * 0x40 + c.toNat % 0x40) * 0x40 + d.toNat % 0x40) * 0x40
      + e.toNat % 0x40) :
    encodeChar (Char.ofNat n) = [b, c, d, e] := by
  have wide : 0x10000 ≤ n := by omega
  have valid : n < 0x110000 := by omega
  simp only [encodeChar, toNat_ofNat (n := n) (by omega), if_neg (show ¬ n < 0x80 by omega),
    if_neg (show ¬ n < 0x800 by omega), if_neg (Nat.not_lt.mpr wide)]
  congr
  · exact toUInt8_eq (by omega)
  · exact toUInt8_eq (by omega)
  · exact toUInt8_eq (by omega)
  · exact toUInt8_eq (by omega)

end Width

/-- What a first byte begins can be spelled only as it is read. -/
theorem begins_of_ofFirst? {index : Nat} {b : UInt8} {p : Partial}
    (h : Partial.ofFirst? index b.toNat = some p) : p.Begins [b] := by
  have three {low high value : Nat} (lead : 0xE0 ≤ b.toNat ∧ b.toNat ≤ 0xEF) (least : 0x80 ≤ low)
      (most : high ≤ 0xBF) (shortest : b.toNat = 0xE0 → 0xA0 ≤ low)
      (scalar : b.toNat = 0xED → high ≤ 0x9F) (same : value = b.toNat % 0x10) :
      Partial.Begins { start := index, seen := 1, owed := 2, value, low, high } [b] :=
    .more (by simp) fun c hlow hhigh => .last rfl fun d hlow' hhigh' => by
      dsimp only at hlow hhigh hlow' hhigh' ⊢
      exact encodeChar_three lead ⟨by omega, by omega⟩ ⟨hlow', hhigh'⟩ (by omega) (by omega)
        (by rw [same])
  have four {low high value : Nat} (lead : 0xF0 ≤ b.toNat ∧ b.toNat ≤ 0xF4) (least : 0x80 ≤ low)
      (most : high ≤ 0xBF) (shortest : b.toNat = 0xF0 → 0x90 ≤ low)
      (scalar : b.toNat = 0xF4 → high ≤ 0x8F) (same : value = b.toNat % 0x08) :
      Partial.Begins { start := index, seen := 1, owed := 3, value, low, high } [b] :=
    .more (by simp) fun c hlow hhigh => .more (by simp) fun d hlow' hhigh' =>
      .last rfl fun e hlow'' hhigh'' => by
        dsimp only at hlow hhigh hlow' hhigh' hlow'' hhigh'' ⊢
        exact encodeChar_four lead ⟨by omega, by omega⟩ ⟨hlow', hhigh'⟩ ⟨hlow'', hhigh''⟩ (by omega)
          (by omega) (by rw [same])
  unfold Partial.ofFirst? at h
  split at h
  · cases h
    exact .last rfl fun c hlow hhigh => encodeChar_two ‹_› ⟨hlow, hhigh⟩ rfl
  split at h
  · cases h
    exact three (by omega) (by omega) (by omega) (by omega) (by omega) (by omega)
  split at h
  · cases h
    exact three (by omega) (by omega) (by omega) (by omega) (by omega) (by omega)
  split at h
  · cases h
    exact three (by omega) (by omega) (by omega) (by omega) (by omega) rfl
  split at h
  · cases h
    exact four (by omega) (by omega) (by omega) (by omega) (by omega) (by omega)
  split at h
  · cases h
    exact four (by omega) (by omega) (by omega) (by omega) (by omega) rfl
  split at h
  · cases h
    exact four (by omega) (by omega) (by omega) (by omega) (by omega) (by omega)
  · cases h

/-- Bytes that are read, perhaps from within a character on, are those of the text. -/
theorem encode_of_decodeFrom {index : Nat} (state : Option Partial) {bytes : List UInt8}
    (before : List UInt8) {text : List Char} (begun : state.elim (before = []) (·.Begins before))
    (h : decodeFrom index state bytes = .ok text) : encode text = before ++ bytes := by
  induction bytes generalizing index state before text with
  | nil =>
      cases state with
      | none =>
          cases h
          rw [show before = [] from begun]
          rfl
      | some p => cases h
  | cons b rest ih =>
      cases state with
      | none =>
          rw [show before = [] from begun, List.nil_append]
          rw [decodeFrom] at h
          split at h
          · obtain ⟨others, read, rfl⟩ := map_eq_ok.mp h
            rw [encode, List.flatMap_cons, encodeChar_one ‹_›]
            exact congrArg (b :: ·) (ih none [] rfl read)
          · split at h
            · cases h
            · exact ih (some _) [b] (begins_of_ofFirst? ‹_›) h
      | some p =>
          rw [decodeFrom] at h
          split at h
          case isFalse => cases h
          case isTrue bounds =>
            cases begun with
            | last one completes =>
                rw [if_pos one] at h
                obtain ⟨others, read, rfl⟩ := map_eq_ok.mp h
                rw [encode, List.flatMap_cons, completes b bounds.1 bounds.2, List.append_assoc]
                exact congrArg (before ++ b :: ·) (ih none [] rfl read)
            | more several begins =>
                rw [if_neg several] at h
                have step := ih (some _) (before ++ [b])
                  (begins b bounds.1 bounds.2) h
                rwa [List.append_assoc] at step

theorem encode_decode {bytes : List UInt8} {text : List Char} (h : decode bytes = .ok text) :
    encode text = bytes :=
  encode_of_decodeFrom none [] rfl h

end Rollup.Utf8
