import DistributedBloomFilter.Bloom.Checked
import DistributedBloomFilter.Bloom.Distinct
import DistributedBloomFilter.Lib.Slices

/-!
# Indices in the machine's integers, and slices from the pool

`getHashIndices` and `getHashIndicesPooled` of `pkg/bloom/hash.go` with `int` and `uint64` of 64 bits.  The second one
takes its slice from a pool, where it may have any capacity and any contents.  With two counters or more and up to
`2 ^ 31` hash functions both return the numbers `(h + i * (1 + h mod (m - 1))) mod m`, without any overflow
(`indices_exact`).
-/

namespace DistributedBloomFilter

namespace Machine

section Operations

variable (sum32 : Bytes → UInt32)

/-- `h2`. -/
def stepOf (h1 : UInt64) (m : Int64) : Except Failure UInt64 := (Checked.mod h1 (m - 1).toUInt64).map (1 + ·)

/-- `int((h1 + uint64(i)*h2) % uint64(m))`. -/
def indexAt (h1 h2 : UInt64) (m : Int64) (i : Nat) : Except Failure Int64 :=
  (Checked.mod (h1 + UInt64.ofNat i * h2) m.toUInt64).map UInt64.toInt64

def getHashIndices (item : Bytes) (m k : Int64) : Except Failure (List Int64) :=
  if k < 0 then .error (.panic "runtime error: makeslice: len out of range")
  else do
    let h1 := (sum32 item).toUInt64
    let h2 ← stepOf h1 m
    (List.range k.toNatClampNeg).mapM (indexAt h1 h2 m)

end Operations

end Machine

/-- The memory of index slices, and those that are in `indexPool`. -/
structure IndexPool where
  arrays : List (List Int64)
  slices : List Slice
deriving DecidableEq, Repr

namespace IndexPool

def read (p : IndexPool) (s : Slice) : List Int64 := (SliceOps.arrays Int64).read p.arrays s

/-- `cap`. -/
def capacity (p : IndexPool) (s : Slice) : Nat := (p.arrays.getD s.addr []).length

/-- `make`, with the length and the capacity. -/
def make (p : IndexPool) (len capacity : Nat) : IndexPool × Slice :=
  ({ p with arrays := p.arrays ++ [List.replicate capacity 0] }, { addr := p.arrays.length, len := len })

/-- `indexPool.Get()`: one of the slices in the pool, or a new one.  The pool may drop what is in it, so `pick` can be
anything. -/
def get (p : IndexPool) (pick : Option Nat) : IndexPool × Slice :=
  match pick with
  | none => p.make 0 MaxHashFunctions
  | some i =>
    match p.slices[i]? with
    | none => p.make 0 MaxHashFunctions
    | some s => ({ p with slices := p.slices.eraseIdx i }, s)

/-- The slice with the length `k`, in a new array if its own is too short. -/
def resize (p : IndexPool) (s : Slice) (k : Int64) : Except Failure (IndexPool × Slice) :=
  if (p.capacity s : Int) < k.toInt then .ok (p.make k.toNatClampNeg k.toNatClampNeg)
  else if k < 0 then .error (.panic "runtime error: slice bounds out of range")
  else .ok (p, { s with len := k.toNatClampNeg })

def store (p : IndexPool) (s : Slice) (i : Nat) (x : Int64) : IndexPool :=
  { p with arrays := Slice.store p.arrays s i x }

def getHashIndicesPooled (sum32 : Bytes → UInt32) (p : IndexPool) (pick : Option Nat) (item : Bytes) (m k : Int64) :
    Except Failure (IndexPool × Slice) := do
  let (p, s) ← (p.get pick).1.resize (p.get pick).2 k
  let h1 := (sum32 item).toUInt64
  let h2 ← Machine.stepOf h1 m
  let p ← (List.range k.toNatClampNeg).foldlM (fun p i => (Machine.indexAt h1 h2 m i).map (p.store s i)) p
  .ok (p, s)

def putHashIndices (p : IndexPool) (s : Slice) : IndexPool := { p with slices := { s with len := 0 } :: p.slices }

end IndexPool

/-! ### The arithmetic -/

namespace Machine

variable {m : Int64}

theorem toNat_toUInt64 (h : 0 ≤ m.toInt) : (m.toUInt64.toNat : Int) = m.toInt := by
  have hle : 0 ≤ m := Int64.le_iff_toInt_le.2 h
  rw [Int64.toNat_toUInt64_of_le hle]
  exact Int.toNat_of_nonneg h

theorem toInt_toInt64 {u : UInt64} (h : u.toNat < 2 ^ 63) : u.toInt64.toInt = u.toNat := by
  show u.toBitVec.toInt = u.toBitVec.toNat
  rw [BitVec.toInt_eq_toNat_of_lt]
  show 2 * u.toNat < 2 ^ 64
  omega

theorem toInt_sub_one (h : 2 ≤ m.toInt) : (m - 1).toInt = m.toInt - 1 := by
  have hhi := m.toInt_lt
  rw [Int64.toInt_sub, show (1 : Int64).toInt = 1 from rfl, Int.bmod_eq_of_le (by omega) (by omega)]

/-- With two counters or more the step is the one of the numbers. -/
theorem stepOf_eq (hm : 2 ≤ m.toInt) {h1 : UInt64} (hh1 : h1.toNat < 2 ^ 32) :
    ∃ h2, stepOf h1 m = .ok h2 ∧ h2.toNat = 1 + h1.toNat % (m.toInt.toNat - 1) := by
  have hpred : (m - 1).toUInt64.toNat = m.toInt.toNat - 1 := by
    have hcast := toNat_toUInt64 (by rw [toInt_sub_one hm]; omega : 0 ≤ (m - 1).toInt)
    rw [toInt_sub_one hm] at hcast
    omega
  refine ⟨1 + h1 % (m - 1).toUInt64, ?_, ?_⟩
  · rw [stepOf, Checked.mod_of_pos (by rw [hpred]; omega)]
    rfl
  · have hle := Nat.mod_le h1.toNat (m.toInt.toNat - 1)
    rw [UInt64.toNat_add, UInt64.toNat_mod, hpred]
    exact Nat.mod_eq_of_lt (by show 1 + _ < _; omega)

/-- An index is a number below `m`, and so it is not negative as an `int`. -/
theorem indexAt_eq (hm : 2 ≤ m.toInt) (h1 h2 : UInt64) (i : Nat) :
    ∃ x, indexAt h1 h2 m i = .ok x ∧
      x.toInt = (((h1.toNat + i * h2.toNat) % 2 ^ 64 % m.toInt.toNat : Nat) : Int) := by
  have hhi := m.toInt_lt
  have hmod : m.toUInt64.toNat = m.toInt.toNat := by
    have hcast := toNat_toUInt64 (by omega : 0 ≤ m.toInt)
    omega
  have hval : ((h1 + UInt64.ofNat i * h2) % m.toUInt64).toNat =
      (h1.toNat + i * h2.toNat) % 2 ^ 64 % m.toInt.toNat := by
    rw [UInt64.toNat_mod, hmod, UInt64.toNat_add, UInt64.toNat_mul, UInt64.toNat_ofNat', Nat.mod_mul_mod,
      Nat.add_mod_mod]
  have hlt := Nat.mod_lt ((h1.toNat + i * h2.toNat) % 2 ^ 64) (by omega : 0 < m.toInt.toNat)
  refine ⟨((h1 + UInt64.ofNat i * h2) % m.toUInt64).toInt64, ?_, ?_⟩
  · rw [indexAt, Checked.mod_of_pos (by rw [hmod]; omega)]
    rfl
  · rw [toInt_toInt64 (by rw [hval]; omega), hval]

end Machine

/-! ### The two functions -/

section Indices

variable (sum32 : Bytes → UInt32) (item : Bytes) {m k : Int64}

/-- The indices are computed one by one, and each of them is the one of the numbers. -/
theorem Machine.exists_indexAt (hm : 2 ≤ m.toInt) :
    ∃ h2, Machine.stepOf (sum32 item).toUInt64 m = .ok h2 ∧
      ∃ f : Nat → Int64, (∀ i, Machine.indexAt (sum32 item).toUInt64 h2 m i = .ok (f i)) ∧
        ∀ n, ((List.range n).map f).map Int64.toInt =
          (DistributedBloomFilter.getHashIndices sum32 item m.toInt.toNat n).map (Nat.cast : Nat → Int) := by
  have hh1 : (sum32 item).toUInt64.toNat = (sum32 item).toNat := UInt32.toNat_toUInt64 _
  obtain ⟨h2, hstep, hval⟩ := stepOf_eq hm (by rw [hh1]; exact (sum32 item).toNat_lt)
  choose f hf hint using fun i => indexAt_eq hm (sum32 item).toUInt64 h2 i
  refine ⟨h2, hstep, f, hf, fun n => ?_⟩
  rw [List.map_map, DistributedBloomFilter.getHashIndices, List.map_map]
  refine List.map_congr_left fun i _ => ?_
  show (f i).toInt = _
  rw [hint, hval, hh1]
  rfl

theorem Machine.getHashIndices_eq (hk : 0 ≤ k.toInt) {h2 : UInt64}
    (hstep : stepOf (sum32 item).toUInt64 m = .ok h2) {f : Nat → Int64}
    (hf : ∀ i, indexAt (sum32 item).toUInt64 h2 m i = .ok (f i)) :
    getHashIndices sum32 item m k = .ok ((List.range k.toNatClampNeg).map f) := by
  have hneg : ¬ k < 0 := fun h => absurd (Int64.lt_iff_toInt_lt.1 h) (Int.not_lt.2 hk)
  have hfun : indexAt (sum32 item).toUInt64 h2 m = fun i => .ok (f i) := funext hf
  rw [getHashIndices, if_neg hneg]
  show (stepOf (sum32 item).toUInt64 m >>= _) = _
  rw [hstep, Checked.ok_bind, hfun]
  exact List.mapM_pure

namespace IndexPool

/-- A slice that is made is there, with its length. -/
private theorem valid_make (p : IndexPool) (n : Nat) : (p.make n n).2.Valid (p.make n n).1.arrays := by
  refine ⟨?_, ?_⟩
  · show p.arrays.length < (p.arrays ++ _).length
    rw [List.length_append]
    exact Nat.lt_succ_self _
  · show n ≤ ((p.arrays ++ [List.replicate n 0]).getD p.arrays.length []).length
    rw [Slice.getD_concat_length, List.length_replicate]

/-- Whatever slice it was, it is there afterwards and has the length `k`; only without any element need it not be. -/
theorem resize_spec (p : IndexPool) (s : Slice) (hk : 0 ≤ k.toInt) :
    ∃ p' s', p.resize s k = .ok (p', s') ∧ s'.len = k.toNatClampNeg ∧ (0 < s'.len → s'.Valid p'.arrays) := by
  have hlen : (k.toNatClampNeg : Int) = k.toInt := Int.toNat_of_nonneg hk
  unfold resize
  split
  · exact ⟨_, _, rfl, rfl, fun _ => valid_make p _⟩
  · rename_i hroom
    have hneg : ¬ k < 0 := fun h => absurd (Int64.lt_iff_toInt_lt.1 h) (Int.not_lt.2 hk)
    rw [if_neg hneg]
    refine ⟨p, { s with len := k.toNatClampNeg }, rfl, rfl, fun hpos => ?_⟩
    have hcap : k.toNatClampNeg ≤ (p.arrays.getD s.addr []).length := by
      unfold capacity at hroom
      omega
    -- an array with an element in it is in the memory
    refine ⟨?_, hcap⟩
    by_contra haddr
    rw [List.getD_eq_default _ _ (Nat.not_lt.1 haddr)] at hcap
    exact absurd hpos (Nat.not_lt.2 hcap)

private theorem foldlM_store {f : Nat → Int64} {g : Nat → Except Failure Int64}
    (hg : ∀ i, g i = .ok (f i)) (s : Slice) (is : List Nat) (p : IndexPool) :
    is.foldlM (fun p i => (g i).map (p.store s i)) p =
      .ok { p with arrays := is.foldl (fun mem i => Slice.store mem s i (f i)) p.arrays } := by
  induction is generalizing p with
  | nil => rfl
  | cons i is ih =>
    rw [List.foldlM_cons, hg]
    exact ih (p.store s i (f i))

/-- Every element of the slice is overwritten, wherever the slice comes from. -/
theorem getHashIndicesPooled_eq (hk : 0 ≤ k.toInt) {h2 : UInt64}
    (hstep : Machine.stepOf (sum32 item).toUInt64 m = .ok h2) {f : Nat → Int64}
    (hf : ∀ i, Machine.indexAt (sum32 item).toUInt64 h2 m i = .ok (f i)) (p : IndexPool) (pick : Option Nat) :
    ∃ p' s, getHashIndicesPooled sum32 p pick item m k = .ok (p', s) ∧
      p'.read s = (List.range k.toNatClampNeg).map f := by
  obtain ⟨p₁, s, hresize, hlen, hvalid⟩ := resize_spec (p.get pick).1 (p.get pick).2 hk
  refine ⟨{ p₁ with arrays := (List.range k.toNatClampNeg).foldl (fun mem i => Slice.store mem s i (f i)) p₁.arrays },
    s, ?_, ?_⟩
  · rw [getHashIndicesPooled, hresize, Checked.ok_bind]
    dsimp only
    rw [hstep, Checked.ok_bind, foldlM_store hf, Checked.ok_bind]
  · rw [← hlen]
    rcases Nat.eq_zero_or_pos s.len with hzero | hpos
    · show List.take s.len _ = _
      rw [hzero]
      rfl
    · exact Slice.read_storeAll (hvalid hpos) f

end IndexPool

/-- For two counters or more and up to `2 ^ 31` hash functions, `getHashIndices` returns the numbers
`(h + i * (1 + h mod (m - 1))) mod m` of the integers, all of them between zero and `m`, and `getHashIndicesPooled`
returns the same, whatever the memory is, whatever slices have been returned to the pool and whichever of them it
gets. -/
theorem indices_exact (hm : 2 ≤ m.toInt) (hk : 0 ≤ k.toInt) (hmax : k.toInt ≤ 2 ^ 31) :
    ∃ indices, Machine.getHashIndices sum32 item m k = .ok indices ∧
      indices.map Int64.toInt = (List.range k.toNatClampNeg).map (fun i : Nat =>
        (((sum32 item).toNat : Int) + i * (1 + ((sum32 item).toNat : Int) % (m.toInt - 1))) % m.toInt) ∧
      (∀ x ∈ indices, 0 ≤ x.toInt ∧ x.toInt < m.toInt) ∧
      ∀ (arrays : List (List Int64)) (returned : List Slice) (pick : Option Nat), ∃ p s,
        IndexPool.getHashIndicesPooled sum32 (returned.foldl IndexPool.putHashIndices ⟨arrays, []⟩) pick item m k =
          .ok (p, s) ∧ p.read s = indices := by
  obtain ⟨h2, hstep, f, hf, hnat⟩ := Machine.exists_indexAt sum32 item hm
  have hlen : (k.toNatClampNeg : Int) = k.toInt := Int.toNat_of_nonneg hk
  have hcast : (m.toInt.toNat : Int) = m.toInt := Int.toNat_of_nonneg (by omega)
  have hpred : ((m.toInt.toNat - 1 : Nat) : Int) = m.toInt - 1 := by omega
  have hvalues := hnat k.toNatClampNeg
  refine ⟨_, Machine.getHashIndices_eq sum32 item hk hstep hf, ?_, fun x hx => ?_, fun arrays returned pick =>
    IndexPool.getHashIndicesPooled_eq sum32 item hk hstep hf _ pick⟩
  · rw [hvalues, getHashIndices_exact sum32 item (by omega), List.map_map]
    refine List.map_congr_left fun i _ => ?_
    show (((_ + i * (1 + _ % (m.toInt.toNat - 1))) % m.toInt.toNat : Nat) : Int) = _
    rw [Int.natCast_emod, Int.natCast_add, Int.natCast_mul, Int.natCast_add, Int.natCast_emod, hcast, hpred]
    rfl
  · have hx' : x.toInt ∈ (getHashIndices sum32 item m.toInt.toNat k.toNatClampNeg).map (Nat.cast : Nat → Int) := by
      rw [← hvalues]
      exact List.mem_map_of_mem hx
    obtain ⟨n, hn, hxn⟩ := List.mem_map.1 hx'
    have hlt := lt_of_mem_getHashIndices (by omega : 2 ≤ m.toInt.toNat) hn
    omega

end Indices

/-- Seven counters and three hash functions, with a longer slice in the pool that is full of minus one. -/
theorem indices_exact_seven :
    (IndexPool.getHashIndicesPooled Murmur3.sum32 (IndexPool.putHashIndices ⟨[[-1, -1, -1, -1]], []⟩ ⟨0, 4⟩) (some 0)
        [105] 7 3).map (fun r => r.1.read r.2) = Machine.getHashIndices Murmur3.sum32 [105] 7 3 := by
  obtain ⟨indices, heq, -, -, hpooled⟩ :=
    indices_exact Murmur3.sum32 [105] (by decide : 2 ≤ (7 : Int64).toInt)
      (by decide : 0 ≤ (3 : Int64).toInt) (by decide)
  obtain ⟨p, s, hget, hread⟩ := hpooled [[-1, -1, -1, -1]] [⟨0, 4⟩] (some 0)
  have hput : [(⟨0, 4⟩ : Slice)].foldl IndexPool.putHashIndices ⟨[[-1, -1, -1, -1]], []⟩ =
      IndexPool.putHashIndices ⟨[[-1, -1, -1, -1]], []⟩ ⟨0, 4⟩ := rfl
  rw [← hput, hget, heq, ← hread]
  rfl

end DistributedBloomFilter
