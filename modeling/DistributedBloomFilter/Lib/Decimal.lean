import Mathlib.Algebra.Group.Int.Defs
import Mathlib.Algebra.Group.Nat.Defs
import Mathlib.Data.List.TakeWhile
import Mathlib.Tactic.Common

/-!
# Decimal numbers in text

Printing an integer, and scanning one back from the start of a text: blanks are skipped, a sign is read, then the
digits, and a number outside of 64 bits is refused.  What was printed is scanned back (`scan_print`).
-/

namespace Decimal

/-- The blanks that a scan skips; a newline ends it. -/
def isSpace (c : Char) : Bool :=
  let n := c.toNat
  (0x09 ≤ n ∧ n ≤ 0x0d ∧ n ≠ 0x0a) ∨ n = 0x20 ∨ n = 0x85 ∨ n = 0xa0 ∨ n = 0x1680 ∨ (0x2000 ≤ n ∧ n ≤ 0x200a) ∨
    n = 0x2028 ∨ n = 0x2029 ∨ n = 0x202f ∨ n = 0x205f ∨ n = 0x3000

theorem toNat_of_isDigit {c : Char} (h : c.isDigit = true) : 48 ≤ c.toNat ∧ c.toNat ≤ 57 := by
  have hc : 48 ≤ c.val ∧ c.val ≤ 57 := by simpa [Char.isDigit] using h
  exact ⟨UInt32.le_iff_toNat_le.1 hc.1, UInt32.le_iff_toNat_le.1 hc.2⟩

theorem isSpace_of_isDigit {c : Char} (h : c.isDigit = true) : isSpace c = false := by
  have hc := toNat_of_isDigit h
  exact decide_eq_false (by omega)

/-- A number with its sign, where it is negative. -/
def print (i : Int) : List Char := if i < 0 then '-' :: Nat.toDigits 10 i.natAbs else Nat.toDigits 10 i.natAbs

/-- The sign in front of a number, and what follows it. -/
def scanSign : List Char → Bool × List Char
  | '-' :: cs => (true, cs)
  | '+' :: cs => (false, cs)
  | cs => (false, cs)

/-- A number at the start of a text, if there is one and it fits into 64 bits. -/
def scan (cs : List Char) : Option Int64 :=
  let (negative, rest) := scanSign (cs.dropWhile isSpace)
  let digits := rest.takeWhile Char.isDigit
  let n : Int := Nat.ofDigitChars 10 digits 0
  let i := if negative then -n else n
  if digits = [] then none
  else if -2 ^ 63 ≤ i ∧ i < 2 ^ 63 then some (Int64.ofInt i)
  else none

theorem isDigit_toDigits (n : Nat) : ∀ c ∈ Nat.toDigits 10 n, c.isDigit = true :=
  fun _ hc => Nat.isDigit_of_mem_toDigits (by decide) (by decide) hc

/-! ### With leading zeros -/

/-- A number in at least so many digits. -/
def pad (width n : Nat) : List Char := List.leftpad width '0' (Nat.toDigits 10 n)

theorem isDigit_pad (width n : Nat) : ∀ c ∈ pad width n, c.isDigit = true := by
  intro c hc
  rcases List.mem_append.1 hc with hc | hc
  · rw [List.eq_of_mem_replicate hc]; rfl
  · exact isDigit_toDigits n c hc

theorem length_pad {width n : Nat} (hwidth : 0 < width) (hn : n < 10 ^ width) : (pad width n).length = width := by
  have := (Nat.length_toDigits_le_iff (b := 10) (by decide) hwidth).2 hn
  rw [pad, List.length_leftpad]
  omega

theorem ofDigitChars_pad (width n : Nat) : Nat.ofDigitChars 10 (pad width n) 0 = n := by
  rw [pad, List.leftpad, Nat.ofDigitChars_append, Nat.ofDigitChars_replicate_zero, Nat.mul_zero,
    Nat.ofDigitChars_ten_toDigits]

/-! ### Printed and scanned -/

/-- Only digits and the minus sign are printed. -/
theorem not_mem_print {c : Char} (hc : c.isDigit = false) (hminus : c ≠ '-') (i : Int) : c ∉ print i := by
  have hdigits : c ∉ Nat.toDigits 10 i.natAbs := fun h => by simp [isDigit_toDigits _ c h] at hc
  unfold print
  split
  · exact List.not_mem_cons_of_ne_of_not_mem hminus hdigits
  · exact hdigits

theorem print_ne_nil (i : Int) : print i ≠ [] := by
  unfold print
  split
  · exact List.cons_ne_nil _ _
  · exact Nat.toDigits_ne_nil

private theorem scanSign_toDigits (n : Nat) : scanSign (Nat.toDigits 10 n) = (false, Nat.toDigits 10 n) := by
  have hdigit := isDigit_toDigits n
  match h : Nat.toDigits 10 n, hdigit with
  | [], _ => rfl
  | c :: cs, hdigit =>
    have hc := hdigit c (List.mem_cons_self ..)
    unfold scanSign
    split
    · rename_i hcons
      rw [(List.cons.inj hcons).1] at hc
      cases hc
    · rename_i hcons
      rw [(List.cons.inj hcons).1] at hc
      cases hc
    · rfl

private theorem scanSign_print (i : Int) :
    scanSign ((print i).dropWhile isSpace) = (decide (i < 0), Nat.toDigits 10 i.natAbs) := by
  unfold print
  split
  · rename_i hi
    rw [List.dropWhile_cons_of_neg (by decide), decide_eq_true hi]
    rfl
  · rename_i hi
    have hspace : (Nat.toDigits 10 i.natAbs).dropWhile isSpace = Nat.toDigits 10 i.natAbs := by
      rw [List.dropWhile_eq_self_iff]
      intro hlen
      simp [isSpace_of_isDigit (isDigit_toDigits _ _ (List.getElem_mem hlen))]
    rw [hspace, scanSign_toDigits, decide_eq_false hi]

theorem scan_print (i : Int64) : scan (print i.toInt) = some i := by
  have hne : Nat.toDigits 10 i.toInt.natAbs ≠ [] := Nat.toDigits_ne_nil
  have hsign : (if i.toInt < 0 then -(i.toInt.natAbs : Int) else i.toInt.natAbs) = i.toInt := by
    split <;> omega
  have hlo := i.le_toInt
  have hhi := i.toInt_lt
  simp only [scan, scanSign_print, List.takeWhile_eq_self_iff.2 (isDigit_toDigits _), Nat.ofDigitChars_ten_toDigits,
    decide_eq_true_eq, hsign, if_neg hne]
  rw [if_pos ⟨hlo, hhi⟩, Int64.ofInt_toInt]

/-- A whole text as a number with an optional sign. -/
def parseInt64 (cs : List Char) : Option Int64 := if (scanSign cs).2.all Char.isDigit then scan cs else none

/-- A whole text as a number without a sign. -/
def parseUint64 (cs : List Char) : Option UInt64 :=
  if cs = [] ∨ cs.all Char.isDigit = false then none
  else if Nat.ofDigitChars 10 cs 0 < 2 ^ 64 then some (UInt64.ofNat (Nat.ofDigitChars 10 cs 0))
  else none

theorem parseInt64_print (i : Int64) : parseInt64 (print i.toInt) = some i := by
  have hdigits : (scanSign (print i.toInt)).2.all Char.isDigit = true := by
    rw [List.all_eq_true, print]
    split
    · exact isDigit_toDigits _
    · rw [scanSign_toDigits]
      exact isDigit_toDigits _
  rw [parseInt64, if_pos hdigits, scan_print]

theorem parseUint64_print (n : UInt64) : parseUint64 (print n.toNat) = some n := by
  have hprint : print n.toNat = Nat.toDigits 10 n.toNat := by simp [print]
  have hne : ¬ (Nat.toDigits 10 n.toNat = [] ∨ (Nat.toDigits 10 n.toNat).all Char.isDigit = false) := by
    simp only [List.all_eq_true.2 (isDigit_toDigits n.toNat), Nat.toDigits_ne_nil]
    simp
  rw [hprint, parseUint64, if_neg hne, Nat.ofDigitChars_ten_toDigits, if_pos n.toNat_lt, UInt64.ofNat_toNat]

/-- No number but zero begins with the digit zero. -/
theorem exists_toDigits_eq_cons {n : Nat} (hn : 0 < n) : ∃ c cs, Nat.toDigits 10 n = c :: cs ∧ c ≠ '0' := by
  induction n using Nat.strongRecOn with
  | ind n ih =>
    by_cases hlt : n < 10
    · have hdigit : ∀ d : Fin 10, 0 < d.val → d.val.digitChar ≠ '0' := by decide
      exact ⟨n.digitChar, [], Nat.toDigits_of_lt_base hlt, hdigit ⟨n, hlt⟩ hn⟩
    · obtain ⟨c, cs, hcs, hc⟩ := ih (n / 10) (by omega) (by omega)
      exact ⟨c, cs ++ [(n % 10).digitChar], by rw [Nat.toDigits_of_base_le (by decide) (by omega), hcs]; rfl, hc⟩

theorem print_toInt_inj {i j : Int64} (h : print i.toInt = print j.toInt) : i = j :=
  Option.some.inj (by rw [← scan_print i, h, scan_print])

/-- A text is read up to the first mark in one way. -/
theorem append_mark_inj {c : Char} {xs ys u v : List Char} (hx : c ∉ xs) (hy : c ∉ ys)
    (h : xs ++ c :: u = ys ++ c :: v) : xs = ys ∧ u = v := by
  rcases List.append_eq_append_iff.1 h with ⟨zs, rfl, hzs⟩ | ⟨zs, rfl, hzs⟩
  · cases zs with
    | nil => exact ⟨(List.append_nil xs).symm, (List.cons.inj hzs).2⟩
    | cons z zs => exact absurd (by simp [(List.cons.inj hzs).1]) hy
  · cases zs with
    | nil => exact ⟨List.append_nil ys, ((List.cons.inj hzs).2).symm⟩
    | cons z zs => exact absurd (by simp [(List.cons.inj hzs).1]) hx

end Decimal
