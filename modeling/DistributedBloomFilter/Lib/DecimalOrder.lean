import DistributedBloomFilter.Lib.Decimal

/-!
# Decimal numbers in the order of texts

Two numbers in texts that go on after them with the same character, one that is no digit, are compared by their
leading digits.  Where these agree, the shorter number comes first if the character is below the digits and the longer
one if it is above them (`toDigits_lt_iff`).  So the order of the texts is that of the numbers as long as these have
equally many digits, and in general it is not.
-/

namespace Decimal

/-- The number of decimal digits. -/
def numDigits (n : Nat) : Nat := (Nat.toDigits 10 n).length

/-- The number that the first `k` digits of `n` make; `n` itself if it has no more digits. -/
def leading (n k : Nat) : Nat := n / 10 ^ (numDigits n - k)

/-- `a` comes before `b` in texts that go on with a character below (`low`) or above the digits. -/
def TextLt (low : Bool) (a b : Nat) : Prop :=
  leading a (numDigits b) < leading b (numDigits a) ∨
    leading a (numDigits b) = leading b (numDigits a) ∧
      if low then numDigits a < numDigits b else numDigits b < numDigits a

/-- `TextLt` for printed numbers, with a sign, that go on with a character below the digits. -/
def PrintLt (i j : Int) : Prop :=
  if i < 0 then 0 ≤ j ∨ TextLt true i.natAbs j.natAbs else 0 ≤ j ∧ TextLt true i.natAbs j.natAbs

instance (low : Bool) (a b : Nat) : Decidable (TextLt low a b) := inferInstanceAs (Decidable (_ ∨ _ ∧ ite _ _ _))

instance (i j : Int) : Decidable (PrintLt i j) := inferInstanceAs (Decidable (ite _ _ _))

/-! ### Strings of digits -/

theorem ofDigitChars_cons_zero (c : Char) (cs : List Char) :
    Nat.ofDigitChars 10 (c :: cs) 0 = 10 ^ cs.length * (c.toNat - 48) + Nat.ofDigitChars 10 cs 0 := by
  rw [Nat.ofDigitChars_cons, Nat.ofDigitChars_eq_ofDigitChars_zero, Nat.mul_zero, Nat.zero_add]
  rfl

theorem ofDigitChars_lt {cs : List Char} (h : ∀ c ∈ cs, c.isDigit = true) :
    Nat.ofDigitChars 10 cs 0 < 10 ^ cs.length := by
  induction cs with
  | nil => exact Nat.one_pos
  | cons c cs ih =>
    obtain ⟨hc, hcs⟩ := List.forall_mem_cons.1 h
    have hdigit : c.toNat - 48 ≤ 9 := by have := toNat_of_isDigit hc; omega
    have hmul := Nat.mul_le_mul_left (10 ^ cs.length) hdigit
    have hrest := ih hcs
    rw [ofDigitChars_cons_zero, List.length_cons, Nat.pow_succ]
    omega

/-- The first digit decides, and then the rest. -/
private theorem mul_add_lt_iff {B a b x y : Nat} (hx : x < B) (hy : y < B) :
    (B * a + x < B * b + y ↔ a < b ∨ a = b ∧ x < y) ∧ (B * a + x = B * b + y ↔ a = b ∧ x = y) := by
  rcases Nat.lt_trichotomy a b with h | rfl | h
  · have := Nat.mul_le_mul_left B h
    rw [Nat.mul_succ] at this
    omega
  · omega
  · have := Nat.mul_le_mul_left B h
    rw [Nat.mul_succ] at this
    omega

theorem lt_iff_toNat_lt {c d : Char} : c < d ↔ c.toNat < d.toNat := UInt32.lt_iff_toNat_lt

/-- Equally many digits are ordered as the numbers they make. -/
theorem append_lt_append_iff {xs ys : List Char} (hx : ∀ c ∈ xs, c.isDigit = true) (hy : ∀ c ∈ ys, c.isDigit = true)
    (hlen : xs.length = ys.length) (u v : List Char) :
    xs ++ u < ys ++ v ↔
      Nat.ofDigitChars 10 xs 0 < Nat.ofDigitChars 10 ys 0 ∨
        Nat.ofDigitChars 10 xs 0 = Nat.ofDigitChars 10 ys 0 ∧ u < v := by
  induction xs generalizing ys with
  | nil =>
    obtain rfl := List.length_eq_zero_iff.1 hlen.symm
    simp
  | cons c xs ih =>
    obtain ⟨d, ys, rfl⟩ := List.exists_cons_of_length_eq_add_one hlen.symm
    obtain ⟨hc, hx⟩ := List.forall_mem_cons.1 hx
    obtain ⟨hd, hy⟩ := List.forall_mem_cons.1 hy
    have hlen' : xs.length = ys.length := Nat.succ.inj hlen
    have hxlt := ofDigitChars_lt hx
    have hylt := ofDigitChars_lt hy
    rw [← hlen'] at hylt
    obtain ⟨hlt, heq⟩ := mul_add_lt_iff (a := c.toNat - 48) (b := d.toNat - 48) hxlt hylt
    have hcd : c = d ↔ c.toNat - 48 = d.toNat - 48 := by
      have := toNat_of_isDigit hc
      have := toNat_of_isDigit hd
      rw [← Char.toNat_inj]
      omega
    have hcd' : c < d ↔ c.toNat - 48 < d.toNat - 48 := by
      have := toNat_of_isDigit hc
      rw [lt_iff_toNat_lt]
      omega
    rw [List.cons_append, List.cons_append, List.cons_lt_cons_iff, ih hx hy hlen', ofDigitChars_cons_zero,
      ofDigitChars_cons_zero, ← hlen', hlt, heq, hcd, hcd', and_or_left, or_assoc, and_assoc]

/-! ### Numbers -/

theorem ofDigitChars_take (n k : Nat) : Nat.ofDigitChars 10 ((Nat.toDigits 10 n).take k) 0 = leading n k := by
  have hdrop : ∀ c ∈ (Nat.toDigits 10 n).drop k, c.isDigit = true :=
    fun c hc => isDigit_toDigits n c (List.mem_of_mem_drop hc)
  have hlt := ofDigitChars_lt hdrop
  have hval : Nat.ofDigitChars 10 ((Nat.toDigits 10 n).take k ++ (Nat.toDigits 10 n).drop k) 0 = n := by
    rw [List.take_append_drop, Nat.ofDigitChars_ten_toDigits]
  rw [Nat.ofDigitChars_append, Nat.ofDigitChars_eq_ofDigitChars_zero] at hval
  rw [List.length_drop] at hval hlt
  rw [leading, numDigits]
  generalize 10 ^ ((Nat.toDigits 10 n).length - k) = B at hval hlt ⊢
  have hdiv := Nat.mul_add_div (Nat.zero_lt_of_lt hlt) (Nat.ofDigitChars 10 ((Nat.toDigits 10 n).take k) 0)
    (Nat.ofDigitChars 10 ((Nat.toDigits 10 n).drop k) 0)
  rw [hval, Nat.div_eq_of_lt hlt, Nat.add_zero] at hdiv
  exact hdiv.symm

theorem leading_of_le {n k : Nat} (h : numDigits n ≤ k) : leading n k = n := by
  rw [leading, Nat.sub_eq_zero_of_le h, Nat.pow_zero, Nat.div_one]

/-- The leading digits, as many as both numbers have, decide, and then what comes after them. -/
theorem toDigits_append_lt_iff (a b : Nat) (u v : List Char) :
    Nat.toDigits 10 a ++ u < Nat.toDigits 10 b ++ v ↔
      leading a (numDigits b) < leading b (numDigits a) ∨
        leading a (numDigits b) = leading b (numDigits a) ∧
          (Nat.toDigits 10 a).drop (numDigits b) ++ u < (Nat.toDigits 10 b).drop (numDigits a) ++ v := by
  have hx : ∀ c ∈ (Nat.toDigits 10 a).take (numDigits b), c.isDigit = true :=
    fun c hc => isDigit_toDigits a c (List.mem_of_mem_take hc)
  have hy : ∀ c ∈ (Nat.toDigits 10 b).take (numDigits a), c.isDigit = true :=
    fun c hc => isDigit_toDigits b c (List.mem_of_mem_take hc)
  have hlen : ((Nat.toDigits 10 a).take (numDigits b)).length = ((Nat.toDigits 10 b).take (numDigits a)).length := by
    rw [List.length_take, List.length_take, Nat.min_comm]
    rfl
  have h := append_lt_append_iff hx hy hlen ((Nat.toDigits 10 a).drop (numDigits b) ++ u)
    ((Nat.toDigits 10 b).drop (numDigits a) ++ v)
  rwa [← List.append_assoc, ← List.append_assoc, List.take_append_drop, List.take_append_drop, ofDigitChars_take,
    ofDigitChars_take] at h

section Mark

variable {c : Char} (hc : c.isDigit = false)
include hc

theorem mark_lt_iff {d : Char} (hd : d.isDigit = true) : c < d ↔ c < '0' := by
  have hd' := toNat_of_isDigit hd
  have hc' : ¬ (48 ≤ c.toNat ∧ c.toNat ≤ 57) := fun h => by
    have : c.isDigit = true := by
      simpa [Char.isDigit, UInt32.le_iff_toNat_le] using h
    simp [this] at hc
  rw [lt_iff_toNat_lt, lt_iff_toNat_lt, show '0'.toNat = 48 from rfl]
  omega

theorem lt_mark_iff {d : Char} (hd : d.isDigit = true) : d < c ↔ ¬ c < '0' := by
  have hne : c ≠ d := fun h => by rw [h, hd] at hc; cases hc
  have hne' : c.toNat ≠ d.toNat := fun h => hne (Char.toNat_inj.1 h)
  rw [← mark_lt_iff hc hd, lt_iff_toNat_lt, lt_iff_toNat_lt]
  omega

/-- What is left of the longer number starts with a digit, where the other text goes on with the mark. -/
theorem mark_lt_drop_iff {b n : Nat} (hn : n < numDigits b) (u v : List Char) :
    (c :: u < (Nat.toDigits 10 b).drop n ++ v ↔ c < '0') ∧
    ((Nat.toDigits 10 b).drop n ++ v < c :: u ↔ ¬ c < '0') := by
  rw [List.drop_eq_getElem_cons hn, List.cons_append, List.cons_lt_cons_iff, List.cons_lt_cons_iff]
  have hd := isDigit_toDigits b _ (List.getElem_mem hn)
  generalize (Nat.toDigits 10 b)[n] = d at hd ⊢
  have hne : c ≠ d := fun h => by rw [h, hd] at hc; cases hc
  rw [mark_lt_iff hc hd, lt_mark_iff hc hd]
  simp [hne, hne.symm]

/-- The order of the texts of two numbers before the same mark. -/
theorem toDigits_lt_iff (a b : Nat) (u v : List Char) :
    Nat.toDigits 10 a ++ c :: u < Nat.toDigits 10 b ++ c :: v ↔ TextLt (c < '0') a b ∨ a = b ∧ u < v := by
  have hdrop : ∀ {n k : Nat}, numDigits n ≤ k → (Nat.toDigits 10 n).drop k = [] := List.drop_eq_nil_of_le
  rw [toDigits_append_lt_iff, TextLt]
  rcases Nat.lt_trichotomy (numDigits a) (numDigits b) with hlt | heq | hgt
  · have hab : a ≠ b := fun h => by rw [h] at hlt; exact Nat.lt_irrefl _ hlt
    rw [hdrop hlt.le, List.nil_append, (mark_lt_drop_iff hc hlt u _).1]
    simp [hab, hlt, Nat.not_lt_of_lt hlt]
  · rw [hdrop heq.le, hdrop heq.ge, leading_of_le heq.le, leading_of_le heq.ge, List.nil_append, List.nil_append,
      List.cons_lt_cons_iff]
    simp [heq]
  · have hab : a ≠ b := fun h => by rw [h] at hgt; exact Nat.lt_irrefl _ hgt
    rw [hdrop hgt.le, List.nil_append, (mark_lt_drop_iff hc hgt v _).2]
    simp [hab, hgt, Nat.not_lt_of_lt hgt]

/-- The order of two printed numbers before the same mark below the digits. -/
theorem print_lt_iff (hlow : c < '0') (i j : Int) (u v : List Char) :
    print i ++ c :: u < print j ++ c :: v ↔ PrintLt i j ∨ i = j ∧ u < v := by
  have hdigits := toDigits_lt_iff hc i.natAbs j.natAbs u v
  rw [decide_eq_true hlow] at hdigits
  -- the minus sign is below every digit
  have hminus : '-'.isDigit = false := rfl
  have hsign : ∀ (n : Nat) (xs w : List Char),
      ('-' :: xs < Nat.toDigits 10 n ++ w) ∧ ¬ Nat.toDigits 10 n ++ w < '-' :: xs := by
    intro n xs w
    obtain ⟨hlt, hgt⟩ := mark_lt_drop_iff hminus (Nat.length_toDigits_pos (b := 10) (n := n)) xs w
    rw [List.drop_zero] at hlt hgt
    exact ⟨hlt.2 (by decide), fun h => hgt.1 h (by decide)⟩
  unfold print PrintLt
  by_cases hi : i < 0 <;> by_cases hj : j < 0
  · have hij : i = j ↔ i.natAbs = j.natAbs := by omega
    rw [if_pos hi, if_pos hi, if_pos hj, List.cons_append, List.cons_append, List.cons_lt_cons_iff, hdigits, hij]
    simp [Int.not_le.2 hj]
  · rw [if_pos hi, if_pos hi, if_neg hj, List.cons_append]
    simp [hsign, Int.not_lt.1 hj]
  · have hij : i ≠ j := by omega
    rw [if_neg hi, if_neg hi, if_pos hj, List.cons_append]
    simp [hsign, Int.not_le.2 hj, hij]
  · have hij : i = j ↔ i.natAbs = j.natAbs := by omega
    rw [if_neg hi, if_neg hi, if_neg hj, hdigits, hij]
    simp [Int.not_lt.1 hj]

end Mark

/-! ### Growing numbers -/

theorem numDigits_le_numDigits {a b : Nat} (h : a ≤ b) : numDigits a ≤ numDigits b := by
  have hb := (Nat.length_toDigits_le_iff (b := 10) (n := b) (by decide) Nat.length_toDigits_pos).1 (Nat.le_refl _)
  exact (Nat.length_toDigits_le_iff (by decide) Nat.length_toDigits_pos).2 (Nat.lt_of_le_of_lt h hb)

/-- Before a mark above the digits, a number comes before a greater one if it is below the leading digits of that. -/
theorem textLt_false_iff {a b : Nat} (h : a ≤ b) : TextLt false a b ↔ a < leading b (numDigits a) := by
  have hlen := numDigits_le_numDigits h
  simp [TextLt, leading_of_le hlen, Nat.not_lt.2 hlen]

/-- Before a mark below the digits, a number comes before a greater one if it is not above the leading digits of
that. -/
theorem textLt_true_iff {a b : Nat} (h : a < b) : TextLt true a b ↔ a ≤ leading b (numDigits a) := by
  have hlen := numDigits_le_numDigits h.le
  rw [TextLt, leading_of_le hlen, if_pos rfl, Nat.le_iff_lt_or_eq]
  refine or_congr_right (and_iff_left_of_imp fun heq => ?_)
  rcases Nat.lt_or_eq_of_le hlen with hlt | hlen
  · exact hlt
  · rw [leading_of_le hlen.ge] at heq
    omega

end Decimal
