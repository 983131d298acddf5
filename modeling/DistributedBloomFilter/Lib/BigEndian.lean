import Mathlib.Algebra.Group.Nat.Defs
import Mathlib.Tactic.Common

/-!
# Big-endian 32-bit words

The four-byte big-endian form of a 32-bit word at the head of a byte string, and the two laws a framed format
needs of it: a word is read back from any string it was put in front of (`uint32_putUint32`), and the first four
bytes of a string are the word read from them (`putUint32_uint32`).
-/

namespace BigEndian

/-- The four bytes of `v`, most significant first. -/
def putUint32 (v : UInt32) : List UInt8 :=
  [UInt8.ofNat (v.toNat / 2 ^ 24), UInt8.ofNat (v.toNat / 2 ^ 16), UInt8.ofNat (v.toNat / 2 ^ 8),
    UInt8.ofNat v.toNat]

/-- The word in the first four bytes; a string shorter than that holds no word and reads as `0`. -/
def uint32 : List UInt8 → UInt32
  | a :: b :: c :: d :: _ =>
    UInt32.ofNat (a.toNat * 2 ^ 24 + b.toNat * 2 ^ 16 + c.toNat * 2 ^ 8 + d.toNat)
  | _ => 0

@[simp] theorem length_putUint32 (v : UInt32) : (putUint32 v).length = 4 := rfl

theorem uint32_putUint32 (v : UInt32) (rest : List UInt8) : uint32 (putUint32 v ++ rest) = v := by
  have hv := v.toNat_lt
  show UInt32.ofNat _ = v
  apply UInt32.toNat_inj.1
  simp only [UInt32.toNat_ofNat', UInt8.toNat_ofNat']
  omega

theorem putUint32_injective : Function.Injective putUint32 := by
  intro v w h
  rw [← uint32_putUint32 v [], h, uint32_putUint32]

/-- Only the first four bytes are read. -/
theorem uint32_take (l : List UInt8) {n : Nat} (h : 4 ≤ n) : uint32 (l.take n) = uint32 l := by
  obtain ⟨k, rfl⟩ := Nat.exists_eq_add_of_le' h
  rcases l with _ | ⟨a, _ | ⟨b, _ | ⟨c, _ | ⟨d, rest⟩⟩⟩⟩ <;> rfl

theorem toNat_uint32_cons (a b c d : UInt8) (rest : List UInt8) :
    (uint32 (a :: b :: c :: d :: rest)).toNat =
      a.toNat * 2 ^ 24 + b.toNat * 2 ^ 16 + c.toNat * 2 ^ 8 + d.toNat := by
  have ha := a.toNat_lt
  have hb := b.toNat_lt
  have hc := c.toNat_lt
  have hd := d.toNat_lt
  show (UInt32.ofNat _).toNat = _
  rw [UInt32.toNat_ofNat']
  omega

theorem putUint32_uint32 {l : List UInt8} (h : 4 ≤ l.length) : putUint32 (uint32 l) = l.take 4 := by
  rcases l with _ | ⟨a, _ | ⟨b, _ | ⟨c, _ | ⟨d, rest⟩⟩⟩⟩
  iterate 4 · simp at h
  have ha := a.toNat_lt
  have hb := b.toNat_lt
  have hc := c.toNat_lt
  have hd := d.toNat_lt
  unfold putUint32
  rw [toNat_uint32_cons]
  simp only [List.take_succ_cons, List.take_zero, List.cons.injEq, and_true]
  refine ⟨?_, ?_, ?_, ?_⟩ <;> apply UInt8.toNat_inj.1 <;> rw [UInt8.toNat_ofNat'] <;> omega

end BigEndian
