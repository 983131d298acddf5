import Mathlib.Data.List.Nodup
import Mathlib.Data.Nat.ModEq
import Mathlib.Data.Nat.Prime.Basic

/-!
# Arithmetic progressions modulo `m`

The residues of `a, a + d, a + 2 * d, …` modulo `m` come back after `m / gcd m d` steps and not before, so the first
`k` of them are different exactly when `k ≤ m / gcd m d` (`nodup_iff`).  That this holds for every step `d` below `m`
is the same as `k` being at most the smallest prime factor of `m` (`forall_le_iff`).
-/

namespace Progression

variable {m : Nat}

/-- Two terms have one residue exactly when the period divides their distance. -/
theorem mod_eq_mod_iff (hm : 0 < m) (a d : Nat) {i j : Nat} (hij : i ≤ j) :
    (a + i * d) % m = (a + j * d) % m ↔ m / m.gcd d ∣ j - i := by
  constructor
  · intro h
    have hmul : i * d ≡ j * d [MOD m] := Nat.ModEq.add_left_cancel' a h
    exact (Nat.modEq_iff_dvd' hij).1 (hmul.cancel_right_div_gcd hm)
  · rintro ⟨n, hn⟩
    obtain ⟨e, he⟩ := Nat.gcd_dvd_right m d
    have hperiod : m / m.gcd d * m.gcd d = m := Nat.div_mul_cancel (Nat.gcd_dvd_left m d)
    have hj : a + j * d = a + i * d + m * (n * e) := by
      have : j = i + m / m.gcd d * n := by omega
      calc a + j * d = a + (i + m / m.gcd d * n) * d := by rw [← this]
        _ = a + i * d + m / m.gcd d * n * d := by rw [Nat.add_mul, Nat.add_assoc]
        _ = a + i * d + m / m.gcd d * n * (m.gcd d * e) := by rw [← he]
        _ = a + i * d + m / m.gcd d * m.gcd d * (n * e) := by rw [Nat.mul_mul_mul_comm]
        _ = a + i * d + m * (n * e) := by rw [hperiod]
    rw [hj, Nat.add_mul_mod_self_left]

/-- The first `k` terms have different residues exactly when `k` is at most the period. -/
theorem nodup_iff (hm : 0 < m) (a d k : Nat) :
    ((List.range k).map fun i => (a + i * d) % m).Nodup ↔ k ≤ m / m.gcd d := by
  rw [List.nodup_map_iff_inj_on List.nodup_range]
  have hperiod : 0 < m / m.gcd d := Nat.div_pos (Nat.gcd_le_left d hm) (Nat.gcd_pos_of_pos_left d hm)
  constructor
  · intro hinj
    by_contra hlt
    -- the first term comes back at the period
    have h := hinj 0 (List.mem_range.2 (by omega)) (m / m.gcd d) (List.mem_range.2 (by omega))
      ((mod_eq_mod_iff hm a d (Nat.zero_le _)).2 (Nat.sub_zero _ ▸ Nat.dvd_refl _))
    omega
  · intro hle i hi j hj hij
    have hclose : ∀ {i j : Nat}, i ≤ j → j < k → (a + i * d) % m = (a + j * d) % m → i = j := by
      intro i j hle' hj h
      have := Nat.eq_zero_of_dvd_of_lt ((mod_eq_mod_iff hm a d hle').1 h) (by omega)
      omega
    rcases Nat.le_total i j with h | h
    · exact hclose h (List.mem_range.1 hj) hij
    · exact (hclose h (List.mem_range.1 hi) hij.symm).symm

/-- Every step gives a period of at least `k` exactly when `m` has no prime factor below `k`. -/
theorem forall_le_iff (hm : 2 ≤ m) (k : Nat) :
    (∀ d, 1 ≤ d → d < m → k ≤ m / m.gcd d) ↔ k ≤ m.minFac := by
  have hfac : m.minFac ∣ m := Nat.minFac_dvd m
  have htwo : 2 ≤ m.minFac := (Nat.minFac_prime (by omega)).two_le
  constructor
  · intro h
    have hdvd : m / m.minFac ∣ m := Nat.div_dvd_of_dvd hfac
    have hk := h (m / m.minFac) (Nat.div_pos (Nat.minFac_le (by omega)) (by omega))
      (Nat.div_lt_self (by omega) htwo)
    rwa [Nat.gcd_eq_right hdvd, Nat.div_div_self hfac (by omega)] at hk
  · intro hk d hd hlt
    refine hk.trans (Nat.minFac_le_of_dvd ?_ (Nat.div_dvd_of_dvd (Nat.gcd_dvd_left m d)))
    have hpos : 0 < m.gcd d := Nat.gcd_pos_of_pos_left d (by omega)
    have hle : m.gcd d ≤ d := Nat.gcd_le_right m hd
    rw [Nat.le_div_iff_mul_le hpos]
    obtain ⟨q, hq⟩ := Nat.gcd_dvd_left m d
    -- the gcd is a proper divisor, so the cofactor is not one
    have hq2 : 2 ≤ q := by
      by_contra hq1
      have : m ≤ m.gcd d * 1 := by
        calc m = m.gcd d * q := hq
          _ ≤ m.gcd d * 1 := Nat.mul_le_mul_left _ (by omega)
      omega
    calc 2 * m.gcd d ≤ q * m.gcd d := Nat.mul_le_mul_right _ hq2
      _ = m := by rw [Nat.mul_comm, ← hq]

end Progression
