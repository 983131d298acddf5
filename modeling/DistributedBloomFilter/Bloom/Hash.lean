import DistributedBloomFilter.Basic

/-!
# Hash indices

`getHashIndices` of `pkg/bloom/hash.go`: the `k` counters of an item by double hashing.  The 32-bit hash of the item
is a parameter `sum32`, so that nothing rests on which function `murmur3.Sum32` is.  For `m < 2` the program stops
with a division by zero (`m - 1` and `m` are divisors); here `%` by `0` is the identity, so the results speak about
the program for `2 ≤ m` only.  `ComputeIndices` is the other way of the same file to get indices; it hashes the item
twice and counts in `int`.
-/

namespace DistributedBloomFilter

def getHashIndices (sum32 : Bytes → UInt32) (item : Bytes) (m k : Nat) : List Nat :=
  let h1 := (sum32 item).toNat
  let h2 := 1 + h1 % (m - 1)
  -- the sum and the product are those of `uint64`
  (List.range k).map fun i => (h1 + i * h2) % 2 ^ 64 % m

theorem length_getHashIndices (sum32 : Bytes → UInt32) (item : Bytes) (m k : Nat) :
    (getHashIndices sum32 item m k).length = k := by
  simp [getHashIndices]

theorem lt_of_mem_getHashIndices {sum32 : Bytes → UInt32} {item : Bytes} {m k i : Nat} (hm : 2 ≤ m)
    (hi : i ∈ getHashIndices sum32 item m k) : i < m := by
  simp only [getHashIndices, List.mem_map] at hi
  obtain ⟨_, _, rfl⟩ := hi
  exact Nat.mod_lt _ (by omega)

theorem exists_mem_getHashIndices (sum32 : Bytes → UInt32) (item : Bytes) (m : Nat) {k : Nat} (hk : 1 ≤ k) :
    ∃ i, i ∈ getHashIndices sum32 item m k := by
  apply List.exists_mem_of_length_pos
  rw [length_getHashIndices]
  exact hk

/-! ### `ComputeIndices` -/

def divideError : Failure := .panic "runtime error: integer divide by zero"

/-- `DoubleHash`.  The conversions of `m` and `m - 1` to `uint32` wrap, and a divisor that becomes zero is a panic. -/
def doubleHash (sum32 : Bytes → UInt32) (item : Bytes) (m : Nat) : Except Failure (Nat × Nat) :=
  let h1 := sum32 item
  let h2 := sum32 (item ++ [0xDE, 0xAD, 0xBE, 0xEF])
  if UInt32.ofNat m - 1 = 0 then .error divideError
  else if UInt32.ofNat m = 0 then .error divideError
  else .ok ((h1 % UInt32.ofNat m).toNat, (1 + h2 % (UInt32.ofNat m - 1)).toNat)

/-- `ComputeIndices`; the sum and the product are those of `int`, and the remainder has the sign of the sum. -/
def computeIndices (sum32 : Bytes → UInt32) (item : Bytes) (m k : Nat) : Except Failure (List Int) :=
  (doubleHash sum32 item m).map fun h =>
    (List.range k).map fun i : Nat => (((h.1 : Int) + i * h.2).bmod (2 ^ 64)).tmod m

end DistributedBloomFilter
