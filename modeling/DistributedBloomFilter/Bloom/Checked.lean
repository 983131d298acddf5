import DistributedBloomFilter.Bloom.Outstanding
import DistributedBloomFilter.Bloom.Serialize

/-!
# The panics of a filter

The operations of `pkg/bloom/counting.go` with the two panics of the runtime they can meet: the remainder by zero in
`getHashIndices`, and an index that is out of range.  With two counters or more no operation panics, and what it
computes is what the total definitions of `Bloom.Hash` and `Bloom.Counting` compute.  With fewer, `getHashIndices`
divides by zero, by `m - 1` when there is one counter and by `m` when there is none, and every operation on an item
panics.  `Deserialize` accepts both shapes.
-/

namespace DistributedBloomFilter

/-- The call returns; it does not panic. -/
def Completes {α : Type} (r : Except Failure α) : Prop := ∃ a, r = .ok a

namespace Checked

/-- `x % y` of `uint64`. -/
def mod (x y : UInt64) : Except Failure UInt64 := if y = 0 then .error divideError else .ok (x % y)

/-- `c[idx]`, read or written. -/
def index (c : List UInt8) (idx : Nat) : Except Failure UInt8 :=
  if idx < c.length then .ok (c.getD idx 0)
  else .error (.panic ("runtime error: index out of range [" ++ toString idx ++ "] with length " ++
    toString c.length))

section Operations

variable (sum32 : Bytes → UInt32)

def getHashIndices (item : Bytes) (m k : Nat) : Except Failure (List Nat) := do
  let h1 := (sum32 item).toUInt64
  -- without counters `uint64(m-1)` is the largest `uint64`
  let r ← mod h1 (UInt64.ofNat m - 1)
  let h2 := 1 + r
  (List.range k).mapM fun i => (mod (h1 + UInt64.ofNat i * h2) (UInt64.ofNat m)).map UInt64.toNat

def addLoop : List UInt8 → List Nat → Except Failure (List UInt8 × Option String)
  | c, [] => .ok (c, none)
  | c, idx :: rest => do
    let v ← index c idx
    if v ≥ 255 then .ok (c, some ErrCounterOverflow) else addLoop (c.set idx (v + 1)) rest

def removeLoop : List UInt8 → List Nat → Except Failure (List UInt8)
  | c, [] => .ok c
  | c, idx :: rest => do
    let v ← index c idx
    if v > 0 then removeLoop (c.set idx (v - 1)) rest else removeLoop c rest

def overflowLoop (c : List UInt8) : List Nat → Except Failure Bool
  | [] => .ok false
  | idx :: rest => do
    let v ← index c idx
    if v ≥ 255 then .ok true else overflowLoop c rest

def incrementLoop : List UInt8 → List Nat → Except Failure (List UInt8)
  | c, [] => .ok c
  | c, idx :: rest => do
    let v ← index c idx
    incrementLoop (c.set idx (v + 1)) rest

def containsLoop (c : List UInt8) : List Nat → Except Failure Bool
  | [] => .ok true
  | idx :: rest => do
    let v ← index c idx
    if v = 0 then .ok false else containsLoop c rest

def countLoop (c : List UInt8) : UInt8 → List Nat → Except Failure UInt8
  | minCount, [] => .ok minCount
  | minCount, idx :: rest => do
    let v ← index c idx
    countLoop c (if v < minCount then v else minCount) rest

def add (f : CountingBloomFilter) (item : Bytes) : Except Failure (List UInt8 × Option String) := do
  let indices ← getHashIndices sum32 item f.m f.k
  addLoop f.counters indices

def remove (f : CountingBloomFilter) (item : Bytes) : Except Failure (List UInt8) := do
  let indices ← getHashIndices sum32 item f.m f.k
  removeLoop f.counters indices

def contains (f : CountingBloomFilter) (item : Bytes) : Except Failure Bool := do
  let indices ← getHashIndices sum32 item f.m f.k
  containsLoop f.counters indices

def count (f : CountingBloomFilter) (item : Bytes) : Except Failure UInt8 := do
  let indices ← getHashIndices sum32 item f.m f.k
  countLoop f.counters 255 indices

def batchAddStep (m k : Nat) (b : BatchState) (item : Bytes) : Except Failure BatchState := do
  let indices ← getHashIndices sum32 item m k
  let hasOverflow ← overflowLoop b.counters indices
  if hasOverflow then
    .ok { b with errors := b.errors ++ [ErrCounterOverflow], failureCount := b.failureCount + 1 }
  else
    let c ← incrementLoop b.counters indices
    .ok { b with counters := c, successCount := b.successCount + 1, errors := b.errors ++ [""] }

def batchAdd (f : CountingBloomFilter) (items : List Bytes) : Except Failure BatchState :=
  items.foldlM (batchAddStep sum32 f.m f.k) ⟨f.counters, 0, 0, []⟩

def batchRemoveStep (m k : Nat) (r : List UInt8 × Nat) (item : Bytes) : Except Failure (List UInt8 × Nat) := do
  let indices ← getHashIndices sum32 item m k
  let c ← removeLoop r.1 indices
  .ok (c, r.2 + 1)

def batchRemove (f : CountingBloomFilter) (items : List Bytes) : Except Failure (List UInt8 × Nat) :=
  items.foldlM (batchRemoveStep sum32 f.m f.k) (f.counters, 0)

def batchContains (f : CountingBloomFilter) (items : List Bytes) : Except Failure (List Bool) :=
  items.mapM (contains sum32 f)

end Operations

theorem ok_bind {α β : Type} (a : α) (f : α → Except Failure β) : (Except.ok a >>= f) = f a := rfl

theorem error_bind {α β : Type} (e : Failure) (f : α → Except Failure β) : (Except.error e >>= f) = .error e := rfl

/-! ### The loops, with every index in range -/

section Loops

variable {c : List UInt8} {ix : List Nat}

theorem index_of_lt {idx : Nat} (h : idx < c.length) : index c idx = .ok (c.getD idx 0) := if_pos h

private theorem forall_lt_set {i : Nat} {v : UInt8} (h : ∀ j ∈ i :: ix, j < c.length) :
    ∀ j ∈ ix, j < (c.set i v).length := by
  intro j hj
  rw [List.length_set]
  exact h j (List.mem_cons_of_mem _ hj)

theorem addLoop_eq (h : ∀ i ∈ ix, i < c.length) : addLoop c ix = .ok (DistributedBloomFilter.addLoop c ix) := by
  induction ix generalizing c with
  | nil => rfl
  | cons i ix ih =>
    rw [addLoop, index_of_lt (h i List.mem_cons_self), ok_bind, DistributedBloomFilter.addLoop]
    split
    · rfl
    · exact ih (forall_lt_set h)

theorem removeLoop_eq (h : ∀ i ∈ ix, i < c.length) :
    removeLoop c ix = .ok (DistributedBloomFilter.removeLoop c ix) := by
  induction ix generalizing c with
  | nil => rfl
  | cons i ix ih =>
    rw [removeLoop, index_of_lt (h i List.mem_cons_self), ok_bind, DistributedBloomFilter.removeLoop]
    split
    · exact ih (forall_lt_set h)
    · exact ih fun j hj => h j (List.mem_cons_of_mem _ hj)

theorem overflowLoop_eq (h : ∀ i ∈ ix, i < c.length) :
    overflowLoop c ix = .ok (DistributedBloomFilter.overflowLoop c ix) := by
  induction ix with
  | nil => rfl
  | cons i ix ih =>
    rw [overflowLoop, index_of_lt (h i List.mem_cons_self), ok_bind, DistributedBloomFilter.overflowLoop]
    split
    · rfl
    · exact ih fun j hj => h j (List.mem_cons_of_mem _ hj)

theorem incrementLoop_eq (h : ∀ i ∈ ix, i < c.length) :
    incrementLoop c ix = .ok (DistributedBloomFilter.incrementLoop c ix) := by
  induction ix generalizing c with
  | nil => rfl
  | cons i ix ih =>
    rw [incrementLoop, index_of_lt (h i List.mem_cons_self), ok_bind, DistributedBloomFilter.incrementLoop]
    exact ih (forall_lt_set h)

theorem containsLoop_eq (h : ∀ i ∈ ix, i < c.length) :
    containsLoop c ix = .ok (DistributedBloomFilter.containsLoop c ix) := by
  induction ix with
  | nil => rfl
  | cons i ix ih =>
    rw [containsLoop, index_of_lt (h i List.mem_cons_self), ok_bind, DistributedBloomFilter.containsLoop]
    split
    · rfl
    · exact ih fun j hj => h j (List.mem_cons_of_mem _ hj)

theorem countLoop_eq (h : ∀ i ∈ ix, i < c.length) (minCount : UInt8) :
    countLoop c minCount ix = .ok (DistributedBloomFilter.countLoop c minCount ix) := by
  induction ix generalizing minCount with
  | nil => rfl
  | cons i ix ih =>
    rw [countLoop, index_of_lt (h i List.mem_cons_self), ok_bind, DistributedBloomFilter.countLoop]
    exact ih (fun j hj => h j (List.mem_cons_of_mem _ hj)) _

end Loops

/-! ### The indices -/

section Indices

variable (sum32 : Bytes → UInt32) (item : Bytes) {m : Nat} (k : Nat)

theorem mod_of_pos {x y : UInt64} (h : 0 < y.toNat) : mod x y = .ok (x % y) := by
  refine if_neg fun hy => ?_
  rw [hy] at h
  exact absurd h (by decide)

/-- With two counters or more the divisors are not zero, and the arithmetic of `uint64` is that of the numbers modulo
`2 ^ 64`. -/
theorem getHashIndices_eq (hm : 2 ≤ m) (hmax : m < 2 ^ 64) :
    getHashIndices sum32 item m k = .ok (DistributedBloomFilter.getHashIndices sum32 item m k) := by
  have hmod : (UInt64.ofNat m).toNat = m := by
    rw [UInt64.toNat_ofNat']
    exact Nat.mod_eq_of_lt hmax
  have hpred : (UInt64.ofNat m - 1).toNat = m - 1 := by
    rw [UInt64.toNat_sub_of_le _ _ (by rw [UInt64.le_iff_toNat_le, hmod]; exact Nat.le_of_lt hm), hmod]
    rfl
  have hh1 : (sum32 item).toUInt64.toNat = (sum32 item).toNat := UInt32.toNat_toUInt64 _
  have hh2 : (1 + (sum32 item).toUInt64 % (UInt64.ofNat m - 1)).toNat = 1 + (sum32 item).toNat % (m - 1) := by
    have hlt := (sum32 item).toNat_lt
    have hle := Nat.mod_le (sum32 item).toNat (m - 1)
    rw [UInt64.toNat_add, UInt64.toNat_mod, hpred, hh1]
    exact Nat.mod_eq_of_lt (by show 1 + _ < _; omega)
  have hone : ∀ i : Nat,
      (mod ((sum32 item).toUInt64 + UInt64.ofNat i * (1 + (sum32 item).toUInt64 % (UInt64.ofNat m - 1)))
        (UInt64.ofNat m)).map UInt64.toNat =
      .ok (((sum32 item).toNat + i * (1 + (sum32 item).toNat % (m - 1))) % 2 ^ 64 % m) := by
    intro i
    rw [mod_of_pos (by rw [hmod]; omega)]
    show Except.ok _ = _
    rw [UInt64.toNat_mod, hmod, UInt64.toNat_add, UInt64.toNat_mul, hh1, hh2, UInt64.toNat_ofNat', Nat.mod_mul_mod,
      Nat.add_mod_mod]
  rw [getHashIndices, mod_of_pos (by rw [hpred]; omega), ok_bind]
  simp only [hone]
  exact List.mapM_pure

/-- With fewer than two counters there is a division by zero. -/
theorem getHashIndices_panic (hm : m < 2) (hk : 1 ≤ k) : getHashIndices sum32 item m k = .error divideError := by
  obtain ⟨k, rfl⟩ : ∃ n, k = n + 1 := ⟨k - 1, by omega⟩
  obtain rfl | rfl : m = 0 ∨ m = 1 := by omega
  · rw [getHashIndices, mod_of_pos (by decide), ok_bind, List.range_succ_eq_map, List.mapM_cons]
    rfl
  · rfl

end Indices

/-! ### The operations with two counters or more -/

section Usable

variable (sum32 : Bytes → UInt32) {f : CountingBloomFilter} (hm : 2 ≤ f.m) (hmax : f.m < 2 ^ 64)

include hm hmax

theorem add_eq (item : Bytes) : add sum32 f item = .ok ((f.add sum32 item).1.counters, (f.add sum32 item).2) := by
  rw [add, getHashIndices_eq sum32 item f.k hm hmax, ok_bind]
  exact addLoop_eq (CountingBloomFilter.lt_length_of_mem_indices sum32 hm item)

theorem remove_eq (item : Bytes) : remove sum32 f item = .ok (f.remove sum32 item).counters := by
  rw [remove, getHashIndices_eq sum32 item f.k hm hmax, ok_bind]
  exact removeLoop_eq (CountingBloomFilter.lt_length_of_mem_indices sum32 hm item)

theorem contains_eq (item : Bytes) : contains sum32 f item = .ok (f.contains sum32 item) := by
  rw [contains, getHashIndices_eq sum32 item f.k hm hmax, ok_bind]
  exact containsLoop_eq (CountingBloomFilter.lt_length_of_mem_indices sum32 hm item)

theorem count_eq (item : Bytes) : count sum32 f item = .ok (f.count sum32 item) := by
  rw [count, getHashIndices_eq sum32 item f.k hm hmax, ok_bind]
  exact countLoop_eq (CountingBloomFilter.lt_length_of_mem_indices sum32 hm item) 255

theorem batchContains_eq (items : List Bytes) : batchContains sum32 f items = .ok (f.batchContains sum32 items) := by
  have hcontains : contains sum32 f = fun item => pure (f.contains sum32 item) :=
    funext (contains_eq sum32 hm hmax)
  rw [batchContains, hcontains]
  exact List.mapM_pure

end Usable

/-- A fold that may panic computes, through `abs`, what a total fold computes, as long as its steps do. -/
theorem foldlM_eq {σ α β : Type} {step : β → α → Except Failure β} (next : σ → α → σ) (abs : σ → β) (P : σ → Prop)
    (hstep : ∀ s a, P s → step (abs s) a = .ok (abs (next s a)) ∧ P (next s a)) {s : σ} (hs : P s) (l : List α) :
    l.foldlM step (abs s) = .ok (abs (l.foldl next s)) := by
  induction l generalizing s with
  | nil => rfl
  | cons a l ih =>
    obtain ⟨heq, hnext⟩ := hstep s a hs
    rw [List.foldlM_cons, heq, ok_bind, List.foldl_cons]
    exact ih hnext

theorem batchAddStep_eq (sum32 : Bytes → UInt32) {m : Nat} (k : Nat) (hm : 2 ≤ m) (hmax : m < 2 ^ 64) {b : BatchState}
    (hlen : b.counters.length = m) (item : Bytes) :
    batchAddStep sum32 m k b item = .ok (CountingBloomFilter.batchAddStep sum32 m k b item) := by
  have hlt : ∀ i ∈ DistributedBloomFilter.getHashIndices sum32 item m k, i < b.counters.length :=
    fun i hi => hlen ▸ lt_of_mem_getHashIndices hm hi
  rw [batchAddStep, getHashIndices_eq sum32 item k hm hmax, ok_bind, overflowLoop_eq hlt, ok_bind,
    CountingBloomFilter.batchAddStep]
  split
  · rfl
  · rw [incrementLoop_eq hlt, ok_bind]

theorem batchAdd_eq (sum32 : Bytes → UInt32) {f : CountingBloomFilter} (hm : 2 ≤ f.m) (hmax : f.m < 2 ^ 64)
    (items : List Bytes) : batchAdd sum32 f items = .ok (f.batchAddState sum32 items) := by
  have hstep : ∀ (b : BatchState) (item : Bytes), b.counters.length = f.m →
      batchAddStep sum32 f.m f.k b item = .ok (CountingBloomFilter.batchAddStep sum32 f.m f.k b item) ∧
        (CountingBloomFilter.batchAddStep sum32 f.m f.k b item).counters.length = f.m := by
    intro b item hlen
    exact ⟨batchAddStep_eq sum32 f.k hm hmax hlen item,
      (CountingBloomFilter.length_batchAddStep sum32 f.m f.k b item).trans hlen⟩
  exact foldlM_eq (CountingBloomFilter.batchAddStep sum32 f.m f.k) (fun b => b) (fun b => b.counters.length = f.m)
    hstep f.length_counters items

theorem batchRemove_eq (sum32 : Bytes → UInt32) {f : CountingBloomFilter} (hm : 2 ≤ f.m) (hmax : f.m < 2 ^ 64)
    (items : List Bytes) : batchRemove sum32 f items =
      .ok ((f.batchRemove sum32 items).1.counters, (f.batchRemove sum32 items).2) := by
  have hstep : ∀ (r : CountingBloomFilter × Nat) (item : Bytes), r.1.m = f.m ∧ r.1.k = f.k →
      batchRemoveStep sum32 f.m f.k (r.1.counters, r.2) item =
        .ok ((r.1.remove sum32 item).counters, r.2 + 1) ∧
      (r.1.remove sum32 item).m = f.m ∧ (r.1.remove sum32 item).k = f.k := by
    rintro ⟨g, n⟩ item ⟨hgm, hgk⟩
    have hremove := remove_eq sum32 (f := g) (hgm ▸ hm) (hgm ▸ hmax) item
    rw [remove, hgm, hgk] at hremove
    refine ⟨?_, hgm, hgk⟩
    rw [getHashIndices_eq sum32 item f.k hm hmax, ok_bind] at hremove
    rw [batchRemoveStep, getHashIndices_eq sum32 item f.k hm hmax, ok_bind, hremove, ok_bind]
  have hstart : (f, 0).1.m = f.m ∧ (f, 0).1.k = f.k := ⟨rfl, rfl⟩
  exact foldlM_eq (fun (r : CountingBloomFilter × Nat) item => (r.1.remove sum32 item, r.2 + 1))
    (fun r => (r.1.counters, r.2)) (fun r => r.1.m = f.m ∧ r.1.k = f.k) hstep hstart items

/-! ### The operations with fewer counters -/

section Unusable

variable (sum32 : Bytes → UInt32) {f : CountingBloomFilter} (hm : f.m < 2) (hk : 1 ≤ f.k)

include hm hk

/-- Whatever an operation does with the indices of an item, it does not get that far. -/
theorem bind_panic {α : Type} (item : Bytes) (body : List Nat → Except Failure α) :
    (getHashIndices sum32 item f.m f.k >>= body) = .error divideError := by
  rw [getHashIndices_panic sum32 item f.k hm hk, error_bind]

theorem batchAdd_panic (item : Bytes) (items : List Bytes) :
    batchAdd sum32 f (item :: items) = .error divideError := by
  rw [batchAdd, List.foldlM_cons, batchAddStep, bind_panic sum32 hm hk, error_bind]

theorem batchRemove_panic (item : Bytes) (items : List Bytes) :
    batchRemove sum32 f (item :: items) = .error divideError := by
  rw [batchRemove, List.foldlM_cons, batchRemoveStep, bind_panic sum32 hm hk, error_bind]

theorem batchContains_panic (item : Bytes) (items : List Bytes) :
    batchContains sum32 f (item :: items) = .error divideError := by
  rw [batchContains, List.mapM_cons, contains, bind_panic sum32 hm hk, error_bind]

end Unusable

/-! ### A loaded filter -/

private theorem completes_iff {α : Type} {r : Except Failure α} {m : Nat} (hok : 2 ≤ m → Completes r)
    (hpanic : m < 2 → r = .error divideError) : Completes r ↔ 2 ≤ m := by
  refine ⟨fun ⟨a, ha⟩ => ?_, hok⟩
  by_contra hm
  rw [hpanic (Nat.lt_of_not_le hm)] at ha
  cases ha

private theorem completes_iff_of_items {α : Type} {op : List Bytes → Except Failure α} {m : Nat}
    (hok : 2 ≤ m → ∀ items, Completes (op items)) (hnil : Completes (op []))
    (hpanic : m < 2 → ∀ item items, op (item :: items) = .error divideError) (items : List Bytes) :
    Completes (op items) ↔ 2 ≤ m ∨ items = [] := by
  cases items with
  | nil => exact ⟨fun _ => .inr rfl, fun _ => hnil⟩
  | cons item items =>
    rw [or_iff_left (by simp)]
    exact completes_iff (fun hm => hok hm _) fun hm => hpanic hm item items

/-- A filter that `Deserialize` accepted completes its operations exactly when the stored number of counters, the
first four bytes, is at least two; below that only the operations on no items at all return. -/
theorem loaded_completes_iff (sum32 : Bytes → UInt32) {crc32 : Bytes → UInt32} {d : Bytes} {f : CountingBloomFilter}
    (hd : deserialize crc32 d = .ok f) (item : Bytes) (items : List Bytes) :
    (Completes (add sum32 f item) ↔ 2 ≤ (BigEndian.uint32 d).toNat) ∧
    (Completes (remove sum32 f item) ↔ 2 ≤ (BigEndian.uint32 d).toNat) ∧
    (Completes (contains sum32 f item) ↔ 2 ≤ (BigEndian.uint32 d).toNat) ∧
    (Completes (count sum32 f item) ↔ 2 ≤ (BigEndian.uint32 d).toNat) ∧
    (Completes (batchAdd sum32 f items) ↔ 2 ≤ (BigEndian.uint32 d).toNat ∨ items = []) ∧
    (Completes (batchRemove sum32 f items) ↔ 2 ≤ (BigEndian.uint32 d).toNat ∨ items = []) ∧
    (Completes (batchContains sum32 f items) ↔ 2 ≤ (BigEndian.uint32 d).toNat ∨ items = []) := by
  obtain ⟨hmax, hk, _⟩ := CountingBloomFilter.bounds_of_deserialize hd
  have hlt : f.m < 2 ^ 64 := by unfold MaxFilterSize at hmax; omega
  rw [← CountingBloomFilter.m_of_deserialize hd]
  refine ⟨?_, ?_, ?_, ?_, ?_, ?_, ?_⟩
  · exact completes_iff (fun hm => ⟨_, add_eq sum32 hm hlt item⟩) fun hm => bind_panic sum32 hm hk item _
  · exact completes_iff (fun hm => ⟨_, remove_eq sum32 hm hlt item⟩) fun hm => bind_panic sum32 hm hk item _
  · exact completes_iff (fun hm => ⟨_, contains_eq sum32 hm hlt item⟩) fun hm => bind_panic sum32 hm hk item _
  · exact completes_iff (fun hm => ⟨_, count_eq sum32 hm hlt item⟩) fun hm => bind_panic sum32 hm hk item _
  · exact completes_iff_of_items (fun hm items => ⟨_, batchAdd_eq sum32 hm hlt items⟩) ⟨_, rfl⟩
      (fun hm => batchAdd_panic sum32 hm hk) items
  · exact completes_iff_of_items (fun hm items => ⟨_, batchRemove_eq sum32 hm hlt items⟩) ⟨_, rfl⟩
      (fun hm => batchRemove_panic sum32 hm hk) items
  · exact completes_iff_of_items (fun hm items => ⟨_, batchContains_eq sum32 hm hlt items⟩) ⟨_, rfl⟩
      (fun hm => batchContains_panic sum32 hm hk) items

/-- The stored form of a filter of two counters. -/
theorem loaded_completes_two :
    Completes (add Murmur3.sum32 (newCountingBloomFilter 2 1) [97]) ∧
      Completes (batchRemove Murmur3.sum32 (newCountingBloomFilter 2 1) [[97], [98]]) := by
  have hd : deserialize Crc32.checksum ((newCountingBloomFilter 2 1).serialize Crc32.checksum) =
      .ok (newCountingBloomFilter 2 1) := by decide +kernel
  have h := loaded_completes_iff Murmur3.sum32 hd [97] [[97], [98]]
  exact ⟨h.1.2 (by decide +kernel), h.2.2.2.2.2.1.2 (.inl (by decide +kernel))⟩

/-- The stored forms of a filter of one counter and of a filter of none are accepted, and `Add` panics. -/
theorem loaded_panics :
    deserialize Crc32.checksum [0, 0, 0, 1, 0, 0, 0, 1, 0, 0x34, 0x4E, 0xF6, 0x4A] =
      .ok (newCountingBloomFilter 1 1) ∧
    add Murmur3.sum32 (newCountingBloomFilter 1 1) [97] = .error divideError ∧
    deserialize Crc32.checksum [0, 0, 0, 0, 0, 0, 0, 1, 0x12, 0x25, 0xEF, 0xFF] =
      .ok (newCountingBloomFilter 0 1) ∧
    add Murmur3.sum32 (newCountingBloomFilter 0 1) [97] = .error divideError := by
  decide +kernel

end Checked

end DistributedBloomFilter
