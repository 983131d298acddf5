import Mathlib.Data.List.Basic
import Mathlib.Tactic.Common

/-!
# Characters in a byte string

The first character of a byte string, as a decoder that never fails reads it: a byte that begins no character stands
for the replacement character and is skipped alone.
-/

namespace Utf8

/-- U+FFFD. -/
def replacement : Char := Char.ofNat 0xFFFD

/-- The first character and the number of its bytes. -/
def decodeRune (bytes : List UInt8) : Char × Nat :=
  match (bytes.take 4).toByteArray.utf8DecodeChar? 0 with
  | some c => (c, c.utf8Size)
  | none => (replacement, 1)

example : decodeRune [0xC3, 0xA9, 0x41] = ('é', 2) ∧ decodeRune [0xC3, 0x41] = (replacement, 1) := by decide +kernel

theorem decodeRune_encodeChar (c : Char) (rest : List UInt8) :
    decodeRune (String.utf8EncodeChar c ++ rest) = (c, c.utf8Size) := by
  have hlen : (String.utf8EncodeChar c).length ≤ 4 := by
    rw [String.length_utf8EncodeChar]
    exact c.utf8Size_le_four
  unfold decodeRune
  rw [List.take_append, List.take_of_length_le hlen, List.toByteArray_append,
    ByteArray.utf8DecodeChar?_utf8EncodeChar_append]

theorem encodeChar_of_lt {c : Char} (h : c.toNat < 0x80) : String.utf8EncodeChar c = [UInt8.ofNat c.toNat] := by
  have hval : c.val.toNat ≤ 127 := Nat.le_of_lt_succ h
  simp only [String.utf8EncodeChar]
  rw [if_pos hval]
  rfl

/-- Every byte of a character that is not ASCII has its high bit set. -/
theorem le_of_mem_encodeChar {c : Char} (h : 0x80 ≤ c.toNat) : ∀ b ∈ String.utf8EncodeChar c, 0x80 ≤ b := by
  have hval : ¬ c.val.toNat ≤ 127 := by
    have : c.val.toNat = c.toNat := rfl
    omega
  -- a byte of the encoding is a remainder and a mark above it
  have hbyte : ∀ n, 0x80 ≤ n → n < 0x100 → (0x80 : UInt8) ≤ UInt8.ofNat n := by
    intro n hlow hhigh
    rw [UInt8.le_iff_toNat_le, UInt8.toNat_ofNat_of_lt' hhigh]
    exact hlow
  simp only [String.utf8EncodeChar]
  rw [if_neg hval]
  split
  · simp only [List.forall_mem_cons]
    exact ⟨hbyte _ (by omega) (by omega), hbyte _ (by omega) (by omega), by simp⟩
  · split
    · simp only [List.forall_mem_cons]
      exact ⟨hbyte _ (by omega) (by omega), hbyte _ (by omega) (by omega), hbyte _ (by omega) (by omega), by simp⟩
    · simp only [List.forall_mem_cons]
      exact ⟨hbyte _ (by omega) (by omega), hbyte _ (by omega) (by omega), hbyte _ (by omega) (by omega),
        hbyte _ (by omega) (by omega), by simp⟩

end Utf8
