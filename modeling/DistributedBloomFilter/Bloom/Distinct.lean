import DistributedBloomFilter.Bloom.Hash
import DistributedBloomFilter.Lib.Murmur3
import DistributedBloomFilter.Lib.Progression

/-!
# Which items get different counters

The indices of an item are an arithmetic progression modulo `m`.  Its step is some number below `m`, and the comment
in `DoubleHash` that it is coprime to `m` is not true of every `m`: the first index comes back after `m / gcd m step`
steps, and the `k` indices are different exactly when `k` is no more than that.  The arithmetic of the machine is
exact as long as there are no more than `2 ^ 31` hash functions.
-/

namespace DistributedBloomFilter

variable (sum32 : Bytes → UInt32) (item : Bytes) {m k : Nat}

/-! ### The machine arithmetic is exact -/

/-- Up to `2 ^ 32` hash functions the sums of `getHashIndices` stay below `2 ^ 64`. -/
theorem getHashIndices_exact (hk : k ≤ 2 ^ 32) :
    getHashIndices sum32 item m k =
      (List.range k).map fun i => ((sum32 item).toNat + i * (1 + (sum32 item).toNat % (m - 1))) % m := by
  refine List.map_congr_left fun i hi => ?_
  have hi' : i < k := List.mem_range.1 hi
  have hh1 := (sum32 item).toNat_lt
  have hh2 := Nat.mod_le (sum32 item).toNat (m - 1)
  have hmul : i * (1 + (sum32 item).toNat % (m - 1)) ≤ (2 ^ 32 - 1) * 2 ^ 32 :=
    Nat.mul_le_mul (by omega) (by omega)
  have hlt : (sum32 item).toNat + i * (1 + (sum32 item).toNat % (m - 1)) < 2 ^ 64 := by omega
  rw [Nat.mod_eq_of_lt hlt]

theorem doubleHash_lt {h1 h2 : Nat} (h : doubleHash sum32 item m = .ok (h1, h2)) : h1 < 2 ^ 32 ∧ h2 < 2 ^ 32 := by
  unfold doubleHash at h
  dsimp only at h
  split_ifs at h
  obtain ⟨rfl, rfl⟩ := Prod.mk.inj (Except.ok.inj h)
  exact ⟨UInt32.toNat_lt _, UInt32.toNat_lt _⟩

/-- Up to `2 ^ 31` hash functions the sums of `ComputeIndices` stay below `2 ^ 63`. -/
theorem computeIndices_exact {h1 h2 : Nat} (h : doubleHash sum32 item m = .ok (h1, h2)) (hk : k ≤ 2 ^ 31) :
    computeIndices sum32 item m k =
      .ok (((List.range k).map fun i => (h1 + i * h2) % m).map (Nat.cast : Nat → Int)) := by
  obtain ⟨hh1, hh2⟩ := doubleHash_lt sum32 item h
  rw [computeIndices, h, List.map_map]
  refine congrArg Except.ok (List.map_congr_left fun i hi => ?_)
  have hi' : i < k := List.mem_range.1 hi
  have hmul : i * h2 ≤ (2 ^ 31 - 1) * (2 ^ 32 - 1) := Nat.mul_le_mul (by omega) (by omega)
  have hcast : (h1 : Int) + i * h2 = ((h1 + i * h2 : Nat) : Int) := by push_cast; rfl
  show (((h1 : Int) + i * h2).bmod (2 ^ 64)).tmod m = (((h1 + i * h2) % m : Nat) : Int)
  rw [hcast, Int.bmod_eq_of_le (by omega) (by omega), Int.ofNat_tmod]

/-! ### Different indices -/

theorem nodup_getHashIndices_iff (hm : 2 ≤ m) (hk : k ≤ 2 ^ 32) :
    (getHashIndices sum32 item m k).Nodup ↔ k ≤ m / m.gcd (1 + (sum32 item).toNat % (m - 1)) := by
  rw [getHashIndices_exact sum32 item hk]
  exact Progression.nodup_iff (by omega) _ _ k

theorem nodup_computeIndices_iff (hm : 2 ≤ m) (hk : k ≤ 2 ^ 31) {h1 h2 : Nat}
    (h : doubleHash sum32 item m = .ok (h1, h2)) :
    ∃ indices, computeIndices sum32 item m k = .ok indices ∧ (indices.Nodup ↔ k ≤ m / m.gcd h2) := by
  refine ⟨_, computeIndices_exact sum32 item h hk, ?_⟩
  have hinj : Function.Injective (Nat.cast : Nat → Int) := fun a b hab => Int.ofNat_inj.1 hab
  rw [List.nodup_map_iff hinj]
  exact Progression.nodup_iff (by omega) _ _ k

/-- With more than `2 ^ 32` hash functions the sum wraps around: the step of the largest hash is `2 ^ 32`, and its
first index comes back after `2 ^ 32` steps. -/
theorem not_nodup_getHashIndices (hk : 2 ^ 32 < k) (hkm : k ≤ m) (hmax : (sum32 item).toNat = 2 ^ 32 - 1) :
    ¬ (getHashIndices sum32 item m k).Nodup := by
  unfold getHashIndices
  rw [List.nodup_map_iff_inj_on List.nodup_range]
  intro hinj
  have hstep : 1 + (sum32 item).toNat % (m - 1) = 2 ^ 32 := by
    rw [Nat.mod_eq_of_lt (by omega)]
    omega
  have hwrap : (2 ^ 32 - 1 + 0 * 2 ^ 32) % 2 ^ 64 = (2 ^ 32 - 1 + 2 ^ 32 * 2 ^ 32) % 2 ^ 64 := by decide
  have h := hinj 0 (List.mem_range.2 (by omega)) (2 ^ 32) (List.mem_range.2 hk) (by rw [hstep, hmax, hwrap])
  exact absurd h (by decide)

/-- The indices of an item are different exactly when the number of hash functions is at most the number of counters
divided by what it has in common with the step.  This is so for `getHashIndices` up to `2 ^ 32` hash functions, beyond
which an item with the largest hash repeats an index in any case, and for `ComputeIndices` up to `2 ^ 31`. -/
theorem nodup_indices_iff (hm : 2 ≤ m) :
    (k ≤ 2 ^ 32 → ((getHashIndices sum32 item m k).Nodup ↔
      k ≤ m / m.gcd (1 + (sum32 item).toNat % (m - 1)))) ∧
    (2 ^ 32 < k → k ≤ m → (sum32 item).toNat = 2 ^ 32 - 1 → ¬ (getHashIndices sum32 item m k).Nodup) ∧
    (k ≤ 2 ^ 31 → ∀ h1 h2, doubleHash sum32 item m = .ok (h1, h2) →
      ∃ indices, computeIndices sum32 item m k = .ok indices ∧ (indices.Nodup ↔ k ≤ m / m.gcd h2)) :=
  ⟨nodup_getHashIndices_iff sum32 item hm, not_nodup_getHashIndices sum32 item,
    fun hk _ _ h => nodup_computeIndices_iff sum32 item hm hk h⟩

/-- With a prime number of counters every step is coprime to it. -/
theorem nodup_indices_seven : (getHashIndices Murmur3.sum32 [105] 7 7).Nodup :=
  ((nodup_indices_iff Murmur3.sum32 [105] (by decide)).1 (by decide)).2 (by decide +kernel)

/-- Among four counters the step of `i` is two, and its third index is its first, in both functions. -/
theorem not_nodup_indices_four :
    getHashIndices Murmur3.sum32 [105] 4 3 = [3, 1, 3] ∧
      computeIndices Murmur3.sum32 [105] 4 3 = .ok [3, 1, 3] := by
  decide +kernel

/-- Whatever the hash, all indices are different exactly when there are no more hash functions than the smallest prime
factor of the number of counters. -/
theorem forall_nodup_iff_le_minFac (hm : 2 ≤ m) (hmax : m ≤ 2 ^ 32) (hk : k ≤ 2 ^ 32) :
    (∀ sum32, (getHashIndices sum32 item m k).Nodup) ↔ k ≤ m.minFac := by
  rw [← Progression.forall_le_iff hm k]
  constructor
  · intro h d hd hlt
    -- a hash whose step is `d`
    have hhash : (UInt32.ofNat (d - 1)).toNat % (m - 1) = d - 1 := by
      rw [UInt32.toNat_ofNat', Nat.mod_eq_of_lt (show d - 1 < 2 ^ 32 by omega), Nat.mod_eq_of_lt (by omega)]
    have hnodup := (nodup_getHashIndices_iff (fun _ => UInt32.ofNat (d - 1)) item hm hk).1 (h _)
    rwa [hhash, Nat.add_sub_cancel' hd] at hnodup
  · intro h sum32
    refine (nodup_getHashIndices_iff sum32 item hm hk).2 (h _ (by omega) ?_)
    have := Nat.mod_lt (sum32 item).toNat (show 0 < m - 1 by omega)
    omega

end DistributedBloomFilter
