import Mathlib.Tactic.Common

/-!
# Attempts that are repeated

An operation is attempted up to `n` times, and `again i` says that the attempt `i` is to be followed by another one.
`made again a n` is the number of attempts that are made when the first of them has the number `a`, and `lt_made_iff`
says which ones they are: those before which every attempt was to be repeated.
-/

namespace Retry

variable (again : Nat → Prop) [DecidablePred again]

def made : Nat → Nat → Nat
  | _, 0 => 0
  | a, n + 1 => if again a then made (a + 1) n + 1 else 1

variable {again}

theorem lt_made_iff {a n i : Nat} : i < made again a n ↔ i < n ∧ ∀ j < i, again (a + j) := by
  induction n generalizing a i with
  | zero => simp [made]
  | succ n ih =>
    rw [made]
    split
    · rename_i hagain
      cases i with
      | zero => simp
      | succ i =>
        rw [Nat.add_lt_add_iff_right, ih, Nat.add_lt_add_iff_right]
        refine and_congr_right fun _ => ⟨fun h j hj => ?_, fun h j hj => ?_⟩
        · cases j with
          | zero => exact hagain
          | succ j =>
            have hnext := h j (by omega)
            rwa [Nat.add_assoc, Nat.add_comm 1] at hnext
        · have hnext := h (j + 1) (by omega)
          rwa [Nat.add_comm j, ← Nat.add_assoc] at hnext
    · rename_i hstop
      refine ⟨fun h => ?_, fun h => ?_⟩
      · obtain rfl : i = 0 := by omega
        exact ⟨Nat.succ_pos n, fun j hj => absurd hj (Nat.not_lt_zero j)⟩
      · by_contra hi
        exact hstop (h.2 0 (by omega))

end Retry
