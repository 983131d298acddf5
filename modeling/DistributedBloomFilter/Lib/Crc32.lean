import Mathlib.Data.Nat.Bitwise
import Mathlib.Logic.Function.Iterate

/-!
# CRC-32

The reflected CRC-32 with polynomial `0xEDB88320`, register and result inverted, one bit at a time, and what it
detects: two messages of one length that differ only inside four consecutive bytes have different checksums
(`eq_of_checksum_eq`).  The register is linear in exclusive or and one bit of the division is injective, so the later
bytes cannot undo a difference; up to four bytes enter the register side by side (`foldl_update`), so they cannot undo
their own.
-/

namespace Crc32

/-- One bit of the division. -/
def shift (r : UInt32) : UInt32 := if r &&& 1 = 1 then (r >>> 1) ^^^ 0xEDB88320 else r >>> 1

/-- One byte of the message. -/
def update (r : UInt32) (b : UInt8) : UInt32 :=
  shift (shift (shift (shift (shift (shift (shift (shift (r ^^^ b.toUInt32))))))))

def checksum (data : List UInt8) : UInt32 := data.foldl update 0xFFFFFFFF ^^^ 0xFFFFFFFF

example : checksum "123456789".toUTF8.toList = 0xCBF43926 := by decide +kernel

/-! ### One bit: linear and injective -/

private theorem and_one_eq_one_iff (r : UInt32) : r &&& 1 = 1 ↔ r.toNat % 2 = 1 := by
  rw [← UInt32.toNat_inj, UInt32.toNat_and, UInt32.toNat_one, Nat.and_one_is_mod]

private theorem toNat_shiftRight_one (r : UInt32) : (r >>> 1).toNat = r.toNat / 2 := by
  rw [UInt32.toNat_shiftRight]; rfl

private theorem shift_of_even {r : UInt32} (h : r.toNat % 2 = 0) : shift r = r >>> 1 := by
  rw [shift, if_neg (by rw [and_one_eq_one_iff]; omega)]

private theorem shift_of_odd {r : UInt32} (h : r.toNat % 2 = 1) : shift r = (r >>> 1) ^^^ 0xEDB88320 := by
  rw [shift, if_pos ((and_one_eq_one_iff r).2 h)]

theorem shift_xor (a b : UInt32) : shift (a ^^^ b) = shift a ^^^ shift b := by
  have hbit : (a ^^^ b).toNat % 2 = (a.toNat + b.toNat) % 2 := by rw [UInt32.toNat_xor, Nat.xor_mod_two_eq]
  have hright : (a ^^^ b) >>> 1 = (a >>> 1) ^^^ (b >>> 1) := UInt32.shiftRight_xor
  rcases Nat.mod_two_eq_zero_or_one a.toNat with ha | ha <;>
    rcases Nat.mod_two_eq_zero_or_one b.toNat with hb | hb
  · rw [shift_of_even ha, shift_of_even hb, shift_of_even (by omega), hright]
  · rw [shift_of_even ha, shift_of_odd hb, shift_of_odd (by omega), hright, UInt32.xor_assoc]
  · rw [shift_of_odd ha, shift_of_even hb, shift_of_odd (by omega), hright]
    ac_rfl
  · -- the polynomial enters twice
    rw [shift_of_odd ha, shift_of_odd hb, shift_of_even (by omega), hright, UInt32.xor_assoc (a >>> 1),
      UInt32.xor_comm (b >>> 1), ← UInt32.xor_assoc 0xEDB88320 0xEDB88320, UInt32.xor_self, UInt32.zero_xor]

private theorem eq_zero_of_shift_eq_zero {r : UInt32} (h : shift r = 0) : r = 0 := by
  have hlt := r.toNat_lt
  rcases Nat.mod_two_eq_zero_or_one r.toNat with hr | hr
  · rw [shift_of_even hr] at h
    have hhalf := congrArg UInt32.toNat h
    rw [toNat_shiftRight_one] at hhalf
    apply UInt32.toNat_inj.1
    show r.toNat = 0
    have h0 : (0 : UInt32).toNat = 0 := rfl
    omega
  · -- the polynomial has the highest bit, which the shifted register has not
    rw [shift_of_odd hr, UInt32.xor_eq_zero_iff] at h
    have hhalf := congrArg UInt32.toNat h
    rw [toNat_shiftRight_one] at hhalf
    have hpoly : (0xEDB88320 : UInt32).toNat = 3988292384 := rfl
    omega

theorem shift_injective : Function.Injective shift := by
  intro a b h
  have hxor : shift (a ^^^ b) = 0 := by rw [shift_xor, h, UInt32.xor_self]
  exact UInt32.xor_eq_zero_iff.1 (eq_zero_of_shift_eq_zero hxor)

private theorem iterate_shift_xor (n : Nat) (a b : UInt32) : shift^[n] (a ^^^ b) = shift^[n] a ^^^ shift^[n] b := by
  induction n generalizing a b with
  | zero => rfl
  | succ n ih => rw [Function.iterate_succ_apply, shift_xor, ih]; rfl

/-- A register whose low bits are clear only moves down. -/
private theorem iterate_shift_ofNat {n x : Nat} (h : 2 ^ n * x < 2 ^ 32) :
    shift^[n] (UInt32.ofNat (2 ^ n * x)) = UInt32.ofNat x := by
  induction n with
  | zero => simp
  | succ n ih =>
    have hdouble : 2 ^ (n + 1) * x = 2 * (2 ^ n * x) := by rw [Nat.pow_succ]; ac_rfl
    have hlt : 2 ^ n * x < 2 ^ 32 := by omega
    have hhalf : shift (UInt32.ofNat (2 ^ (n + 1) * x)) = UInt32.ofNat (2 ^ n * x) := by
      have heven : (UInt32.ofNat (2 ^ (n + 1) * x)).toNat = 2 * (2 ^ n * x) := by
        rw [UInt32.toNat_ofNat_of_lt' h, hdouble]
      rw [shift_of_even (by omega)]
      apply UInt32.toNat_inj.1
      rw [toNat_shiftRight_one, heven, UInt32.toNat_ofNat_of_lt' hlt]
      omega
    rw [Function.iterate_succ_apply, hhalf]
    exact ih hlt

/-! ### Bytes -/

/-- Later bytes do not undo a difference in the register. -/
private theorem foldl_update_injective (l : List UInt8) : Function.Injective fun r => l.foldl update r := by
  induction l with
  | nil => exact Function.injective_id
  | cons b l ih =>
    intro r r' h
    exact (UInt32.xor_left_inj _).1 (shift_injective.iterate 8 (ih h))

/-- The bytes as one number, the first byte lowest. -/
private def pack : List UInt8 → Nat
  | [] => 0
  | b :: l => 2 ^ 8 * pack l + b.toNat

private theorem pack_lt (l : List UInt8) : pack l < 2 ^ (8 * l.length) := by
  induction l with
  | nil => exact Nat.one_pos
  | cons b l ih =>
    have hb := b.toNat_lt
    rw [List.length_cons, Nat.mul_succ, Nat.pow_add, pack]
    omega

private theorem pack_injective {a b : List UInt8} (hlen : a.length = b.length) (h : pack a = pack b) : a = b := by
  induction a generalizing b with
  | nil => exact (List.length_eq_zero_iff.1 hlen.symm).symm
  | cons x a ih =>
    obtain ⟨y, b, rfl⟩ := List.exists_cons_of_length_eq_add_one hlen.symm
    have hx := x.toNat_lt
    have hy := y.toNat_lt
    simp only [pack] at h
    rw [ih (Nat.succ.inj hlen) (by omega), UInt8.toNat_inj.1 (by omega : x.toNat = y.toNat)]

private theorem xor_add {a b : Nat} (hb : b < 2 ^ 8) : b ^^^ 2 ^ 8 * a = 2 ^ 8 * a + b := by
  apply Nat.eq_of_testBit_eq
  intro i
  rw [Nat.testBit_xor, Nat.testBit_two_pow_mul, Nat.testBit_two_pow_mul_add a hb]
  by_cases hi : i < 8
  · simp [hi, Nat.not_le.2 hi]
  · have hhigh : b.testBit i = false :=
      Nat.testBit_lt_two_pow (Nat.lt_of_lt_of_le hb (Nat.pow_le_pow_right (by omega) (Nat.not_lt.1 hi)))
    simp [hi, hhigh, Nat.not_lt.1 hi]

/-- Up to four bytes enter the register side by side: the bits of a later byte wait above those of an earlier one. -/
private theorem foldl_update {l : List UInt8} (h : l.length ≤ 4) (r : UInt32) :
    l.foldl update r = shift^[8 * l.length] (r ^^^ UInt32.ofNat (pack l)) := by
  induction l generalizing r with
  | nil => simp [pack]
  | cons b l ih =>
    have hlen : l.length + 1 ≤ 4 := h
    have hlt : 2 ^ 8 * pack l < 2 ^ 32 := by
      have hpack := pack_lt l
      have hpow : 2 ^ (8 * l.length) ≤ 2 ^ 24 := Nat.pow_le_pow_right (by omega) (by omega)
      omega
    have hb : b.toUInt32 ^^^ UInt32.ofNat (2 ^ 8 * pack l) = UInt32.ofNat (pack (b :: l)) := by
      apply UInt32.toNat_inj.1
      have hlt' := pack_lt (b :: l)
      have hpow : 2 ^ (8 * (b :: l).length) ≤ 2 ^ 32 :=
        Nat.pow_le_pow_right (by omega) (by rw [List.length_cons]; omega)
      rw [UInt32.toNat_xor, UInt8.toNat_toUInt32, UInt32.toNat_ofNat_of_lt' hlt, xor_add b.toNat_lt,
        UInt32.toNat_ofNat_of_lt' (by show pack (b :: l) < 2 ^ 32; omega)]
      rfl
    calc (b :: l).foldl update r
        = shift^[8 * l.length] (shift^[8] (r ^^^ b.toUInt32) ^^^ UInt32.ofNat (pack l)) := ih (by omega) _
      _ = shift^[8 * l.length] (shift^[8] (r ^^^ b.toUInt32) ^^^ shift^[8] (UInt32.ofNat (2 ^ 8 * pack l))) := by
        rw [iterate_shift_ofNat hlt]
      _ = shift^[8 * l.length] (shift^[8] (r ^^^ (b.toUInt32 ^^^ UInt32.ofNat (2 ^ 8 * pack l)))) := by
        rw [← iterate_shift_xor, UInt32.xor_assoc]
      _ = shift^[8 * (b :: l).length] (r ^^^ UInt32.ofNat (pack (b :: l))) := by
        rw [hb, ← Function.iterate_add_apply, List.length_cons, Nat.mul_succ]

/-- A change inside four consecutive bytes of a message changes its checksum. -/
theorem eq_of_checksum_eq {before a b after : List UInt8} (hlen : a.length = b.length) (hfour : a.length ≤ 4)
    (h : checksum (before ++ a ++ after) = checksum (before ++ b ++ after)) : a = b := by
  have hfold : (before ++ a ++ after).foldl update 0xFFFFFFFF = (before ++ b ++ after).foldl update 0xFFFFFFFF :=
    (UInt32.xor_left_inj _).1 h
  simp only [List.foldl_append] at hfold
  have hreg := foldl_update_injective after hfold
  have hfour' : b.length ≤ 4 := hlen ▸ hfour
  rw [foldl_update hfour (before.foldl update _), foldl_update hfour' (before.foldl update _), hlen] at hreg
  have hpack : UInt32.ofNat (pack a) = UInt32.ofNat (pack b) :=
    (UInt32.xor_right_inj _).1 (shift_injective.iterate _ hreg)
  have hpow : 2 ^ (8 * a.length) ≤ 2 ^ 32 := Nat.pow_le_pow_right (by omega) (by omega)
  have ha := pack_lt a
  have hb := pack_lt b
  rw [← hlen] at hb
  refine pack_injective hlen ?_
  have hnat := congrArg UInt32.toNat hpack
  rwa [UInt32.toNat_ofNat_of_lt' (Nat.lt_of_lt_of_le ha hpow),
    UInt32.toNat_ofNat_of_lt' (Nat.lt_of_lt_of_le hb hpow)] at hnat

end Crc32
