import DistributedBloomFilter.Bloom.Hash
import Mathlib.Data.List.GetD

/-!
# The counting Bloom filter

The operations of `pkg/bloom/counting.go` on the counter array, one loop at a time, and one lemma for each loop that
says what it does to every counter: `Add` counts the occurrences of an index one by one and stops in the middle when
it meets a full counter, `Remove` stops at zero, the second pass of `BatchAdd` adds without looking and so counts
modulo 256.
-/

namespace DistributedBloomFilter

def ErrCounterOverflow : String := "counter overflow: maximum value 255 reached"

/-! ### The loops over the indices of one item -/

/-- The value of the counter `j`. -/
def counterAt (c : List UInt8) (j : Nat) : Nat := (c.getD j 0).toNat

/-- The loop of `Add`: it returns at the first full counter and leaves the increments made so far. -/
def addLoop : List UInt8 → List Nat → List UInt8 × Option String
  | c, [] => (c, none)
  | c, idx :: rest =>
    if c.getD idx 0 ≥ 255 then (c, some ErrCounterOverflow)
    else addLoop (c.set idx (c.getD idx 0 + 1)) rest

/-- The loop of `Remove` and of `BatchRemove`. -/
def removeLoop : List UInt8 → List Nat → List UInt8
  | c, [] => c
  | c, idx :: rest =>
    if c.getD idx 0 > 0 then removeLoop (c.set idx (c.getD idx 0 - 1)) rest else removeLoop c rest

/-- The first pass of `BatchAdd` over an item: is one of its counters full? -/
def overflowLoop (c : List UInt8) : List Nat → Bool
  | [] => false
  | idx :: rest => if c.getD idx 0 ≥ 255 then true else overflowLoop c rest

/-- The second pass of `BatchAdd` over an item; the addition is that of `uint8`. -/
def incrementLoop : List UInt8 → List Nat → List UInt8
  | c, [] => c
  | c, idx :: rest => incrementLoop (c.set idx (c.getD idx 0 + 1)) rest

/-- The loop of `Contains` and of `BatchContains`. -/
def containsLoop (c : List UInt8) : List Nat → Bool
  | [] => true
  | idx :: rest => if c.getD idx 0 = 0 then false else containsLoop c rest

/-- The loop of `Count`. -/
def countLoop (c : List UInt8) : UInt8 → List Nat → UInt8
  | minCount, [] => minCount
  | minCount, idx :: rest => countLoop c (if c.getD idx 0 < minCount then c.getD idx 0 else minCount) rest

theorem counterAt_lt (c : List UInt8) (j : Nat) : counterAt c j < 256 := (c.getD j 0).toNat_lt

theorem counterAt_set {c : List UInt8} {i : Nat} (hi : i < c.length) (v : UInt8) (j : Nat) :
    counterAt (c.set i v) j = if i = j then v.toNat else counterAt c j := by
  unfold counterAt
  rw [List.getD_eq_getElem?_getD, List.getD_eq_getElem?_getD, List.getElem?_set, if_pos hi]
  split <;> rfl

/-- A counter array is determined by its length and its values. -/
theorem counters_eq_of_counterAt {c c' : List UInt8} (hlen : c.length = c'.length)
    (h : ∀ j, counterAt c j = counterAt c' j) :
    c = c' := by
  apply List.ext_getElem hlen
  intro j hj hj'
  have := UInt8.toNat_inj.1 (h j)
  rwa [List.getD_eq_getElem _ _ hj, List.getD_eq_getElem _ _ hj'] at this

theorem getD_ge_255_iff (c : List UInt8) (i : Nat) : c.getD i 0 ≥ 255 ↔ 255 ≤ counterAt c i :=
  UInt8.le_iff_toNat_le

theorem getD_pos_iff (c : List UInt8) (i : Nat) : c.getD i 0 > 0 ↔ 0 < counterAt c i :=
  UInt8.lt_iff_toNat_lt

private theorem count_cons_split (i : Nat) (ix : List Nat) (j : Nat) :
    (i :: ix).count j = [i].count j + ix.count j := by
  rw [← List.count_append]; rfl

theorem counterAt_increment {c : List UInt8} {i : Nat} (hi : i < c.length) (j : Nat) :
    counterAt (c.set i (c.getD i 0 + 1)) j = (counterAt c j + [i].count j) % 256 := by
  have hj := counterAt_lt c j
  rw [counterAt_set hi, UInt8.toNat_add, List.count_singleton]
  by_cases h : i = j
  · subst h; simp [counterAt]
  · simp [h, Nat.mod_eq_of_lt hj]

@[simp] theorem length_addLoop (c : List UInt8) (ix : List Nat) : (addLoop c ix).1.length = c.length := by
  induction ix generalizing c with
  | nil => rfl
  | cons i ix ih =>
    unfold addLoop
    split
    · rfl
    · rw [ih, List.length_set]

@[simp] theorem length_removeLoop (c : List UInt8) (ix : List Nat) : (removeLoop c ix).length = c.length := by
  induction ix generalizing c with
  | nil => rfl
  | cons i ix ih =>
    unfold removeLoop
    split
    · rw [ih, List.length_set]
    · exact ih c

@[simp] theorem length_incrementLoop (c : List UInt8) (ix : List Nat) :
    (incrementLoop c ix).length = c.length := by
  induction ix generalizing c with
  | nil => rfl
  | cons i ix ih => rw [incrementLoop, ih, List.length_set]

/-- What `Add` does to the counters: with no error every index is counted as often as it occurs, with an error only
some of the increments were made. -/
theorem addLoop_spec {c : List UInt8} {ix : List Nat} (h : ∀ i ∈ ix, i < c.length) :
    ((addLoop c ix).2 = none ∧ ∀ j, counterAt (addLoop c ix).1 j = counterAt c j + ix.count j) ∨
    ((addLoop c ix).2 = some ErrCounterOverflow ∧ ∀ j, counterAt c j ≤ counterAt (addLoop c ix).1 j) := by
  induction ix generalizing c with
  | nil => left; simp [addLoop]
  | cons i ix ih =>
    have hi : i < c.length := h i (List.mem_cons_self ..)
    unfold addLoop
    split
    · right; simp
    · rename_i hfull
      rw [getD_ge_255_iff] at hfull
      -- below 255 the increment does not wrap
      have hinc : ∀ j, counterAt (c.set i (c.getD i 0 + 1)) j = counterAt c j + [i].count j := by
        intro j
        rw [counterAt_increment hi, Nat.mod_eq_of_lt]
        have hj := counterAt_lt c j
        by_cases hij : i = j
        · subst hij; simp; omega
        · simpa [hij] using hj
      have hlt : ∀ j ∈ ix, j < (c.set i (c.getD i 0 + 1)).length := by
        intro j hj
        rw [List.length_set]; exact h j (List.mem_cons_of_mem _ hj)
      rcases ih hlt with ⟨hok, hc⟩ | ⟨herr, hc⟩
      · left
        refine ⟨hok, fun j => ?_⟩
        have hij : (i :: ix).count j = [i].count j + ix.count j := count_cons_split i ix j
        rw [hc, hinc, hij, Nat.add_assoc]
      · right
        refine ⟨herr, fun j => ?_⟩
        have := hc j
        rw [hinc] at this
        omega

theorem counterAt_le_addLoop {c : List UInt8} {ix : List Nat} (h : ∀ i ∈ ix, i < c.length) (j : Nat) :
    counterAt c j ≤ counterAt (addLoop c ix).1 j := by
  rcases addLoop_spec h with ⟨_, hc⟩ | ⟨_, hc⟩
  · rw [hc]; exact Nat.le_add_right _ _
  · exact hc j

/-- `Add` changes nothing when the first counter it looks at is full. -/
theorem addLoop_full {c : List UInt8} {i : Nat} (hfull : 255 ≤ counterAt c i) (ix : List Nat) :
    addLoop c (i :: ix) = (c, some ErrCounterOverflow) :=
  if_pos ((getD_ge_255_iff c i).2 hfull)

/-- Otherwise it has raised that counter, whatever it returns. -/
theorem lt_addLoop_head {c : List UInt8} {i : Nat} {ix : List Nat} (h : ∀ j ∈ i :: ix, j < c.length)
    (hroom : counterAt c i < 255) : counterAt c i < counterAt (addLoop c (i :: ix)).1 i := by
  have hi : i < c.length := h i (List.mem_cons_self ..)
  have hrest : ∀ j ∈ ix, j < (c.set i (c.getD i 0 + 1)).length := by
    intro j hj
    rw [List.length_set]; exact h j (List.mem_cons_of_mem _ hj)
  have hinc : counterAt (c.set i (c.getD i 0 + 1)) i = counterAt c i + 1 := by
    rw [counterAt_increment hi, List.count_singleton_self, Nat.mod_eq_of_lt (by omega)]
  have hle := counterAt_le_addLoop hrest i
  rw [addLoop, if_neg (by rw [getD_ge_255_iff]; omega)]
  omega

/-- `Add` succeeds exactly when every counter has room for all the occurrences of its index. -/
theorem addLoop_ok_iff {c : List UInt8} {ix : List Nat} (h : ∀ i ∈ ix, i < c.length) :
    (addLoop c ix).2 = none ↔ ∀ j, counterAt c j + ix.count j ≤ 255 := by
  constructor
  · intro hok j
    rcases addLoop_spec h with ⟨_, hc⟩ | ⟨herr, _⟩
    · have := counterAt_lt (addLoop c ix).1 j
      rw [hc] at this
      omega
    · rw [hok] at herr; cases herr
  · intro hroom
    induction ix generalizing c with
    | nil => rfl
    | cons i ix ih =>
      have hi : i < c.length := h i (List.mem_cons_self ..)
      have hc := hroom i
      rw [List.count_cons_self] at hc
      have hfull : ¬ c.getD i 0 ≥ 255 := by rw [getD_ge_255_iff]; omega
      unfold addLoop
      rw [if_neg hfull]
      apply ih
      · intro j hj
        rw [List.length_set]; exact h j (List.mem_cons_of_mem _ hj)
      · intro j
        have hj := hroom j
        have hij : (i :: ix).count j = [i].count j + ix.count j := count_cons_split i ix j
        have := Nat.mod_le (counterAt c j + [i].count j) 256
        rw [counterAt_increment hi]
        omega

/-- `Remove` takes one off a counter for every occurrence of its index, and stops at zero. -/
theorem counterAt_removeLoop {c : List UInt8} {ix : List Nat} (h : ∀ i ∈ ix, i < c.length) (j : Nat) :
    counterAt (removeLoop c ix) j = counterAt c j - ix.count j := by
  induction ix generalizing c with
  | nil => simp [removeLoop]
  | cons i ix ih =>
    have hi : i < c.length := h i (List.mem_cons_self ..)
    have hix : ∀ j ∈ ix, j < c.length := fun j hj => h j (List.mem_cons_of_mem _ hj)
    unfold removeLoop
    split
    · rename_i hpos
      rw [getD_pos_iff] at hpos
      rw [ih (by simpa using hix), counterAt_set hi, UInt8.toNat_sub, List.count_cons]
      have hlt := counterAt_lt c i
      by_cases hij : i = j
      · subst hij
        have hsub : (2 ^ 8 - (1 : UInt8).toNat + (c.getD i 0).toNat) % 2 ^ 8 = counterAt c i - 1 := by
          show (255 + counterAt c i) % 256 = counterAt c i - 1
          omega
        rw [if_pos rfl, hsub, if_pos (beq_self_eq_true i)]
        omega
      · simp [hij]
    · rename_i hzero
      rw [getD_pos_iff] at hzero
      rw [ih hix, List.count_cons]
      by_cases hij : i = j
      · subst hij; simp; omega
      · simp [hij]

/-- The second pass of `BatchAdd` counts modulo 256. -/
theorem counterAt_incrementLoop {c : List UInt8} {ix : List Nat} (h : ∀ i ∈ ix, i < c.length) (j : Nat) :
    counterAt (incrementLoop c ix) j = (counterAt c j + ix.count j) % 256 := by
  induction ix generalizing c with
  | nil => simp [incrementLoop, Nat.mod_eq_of_lt (counterAt_lt c j)]
  | cons i ix ih =>
    have hi : i < c.length := h i (List.mem_cons_self ..)
    have hij : (i :: ix).count j = [i].count j + ix.count j := count_cons_split i ix j
    rw [incrementLoop, ih, counterAt_increment hi, hij, Nat.mod_add_mod, Nat.add_assoc]
    intro j hj
    rw [List.length_set]; exact h j (List.mem_cons_of_mem _ hj)

theorem overflowLoop_iff {c : List UInt8} {ix : List Nat} :
    overflowLoop c ix = true ↔ ∃ i ∈ ix, 255 ≤ counterAt c i := by
  induction ix with
  | nil => simp [overflowLoop]
  | cons i ix ih =>
    have hfull := getD_ge_255_iff c i
    unfold overflowLoop
    simp only [List.mem_cons, exists_eq_or_imp]
    split
    · rename_i h
      simp [hfull.1 h]
    · rename_i h
      rw [hfull] at h
      simp [h, ih]

theorem containsLoop_iff {c : List UInt8} {ix : List Nat} :
    containsLoop c ix = true ↔ ∀ i ∈ ix, 0 < counterAt c i := by
  induction ix with
  | nil => simp [containsLoop]
  | cons i ix ih =>
    have hzero : c.getD i 0 = 0 ↔ counterAt c i = 0 := UInt8.toNat_inj.symm
    unfold containsLoop
    rw [List.forall_mem_cons]
    split
    · rename_i h
      simp [hzero.1 h]
    · rename_i h
      rw [hzero] at h
      simp [Nat.pos_of_ne_zero h, ih]

theorem le_countLoop_iff {c : List UInt8} {ix : List Nat} {n : Nat} {minCount : UInt8} :
    n ≤ (countLoop c minCount ix).toNat ↔ n ≤ minCount.toNat ∧ ∀ i ∈ ix, n ≤ counterAt c i := by
  induction ix generalizing minCount with
  | nil => simp [countLoop]
  | cons i ix ih =>
    have hlt : c.getD i 0 < minCount ↔ counterAt c i < minCount.toNat := UInt8.lt_iff_toNat_lt
    rw [countLoop, ih, List.forall_mem_cons, ← and_assoc]
    refine and_congr_left fun _ => ?_
    split
    · rename_i h
      rw [hlt] at h
      show n ≤ counterAt c i ↔ _
      omega
    · rename_i h
      rw [hlt] at h
      omega

/-! ### The filter -/

/-- A filter of `m` counters and `k` hash functions.  Every filter of the program is made with `m` counters, by
`NewCountingBloomFilter` or by `Deserialize`, and no operation changes their number. -/
structure CountingBloomFilter where
  m : Nat
  k : Nat
  counters : List UInt8
  length_counters : counters.length = m
deriving DecidableEq, Repr

def newCountingBloomFilter (m k : Nat) : CountingBloomFilter where
  m := m
  k := k
  counters := List.replicate m 0
  length_counters := List.length_replicate

/-- What `BatchAdd` has computed so far. -/
structure BatchState where
  counters : List UInt8
  successCount : Nat
  failureCount : Nat
  errors : List String
deriving DecidableEq, Repr

namespace CountingBloomFilter

/-- Two filters of one shape are the same when all their counters have the same values. -/
theorem eq_of_counterAt {f g : CountingBloomFilter} (hm : f.m = g.m) (hk : f.k = g.k)
    (h : ∀ j, counterAt f.counters j = counterAt g.counters j) : f = g := by
  have hlen : f.counters.length = g.counters.length := by rw [f.length_counters, g.length_counters, hm]
  have hcounters : f.counters = g.counters := counters_eq_of_counterAt hlen h
  cases f
  cases g
  simp_all only

/-- The filter with other counters, as many as before. -/
def withCounters (f : CountingBloomFilter) (c : List UInt8) (h : c.length = f.counters.length) :
    CountingBloomFilter :=
  { f with counters := c, length_counters := h.trans f.length_counters }

variable (sum32 : Bytes → UInt32)

/-- The indices of an item in this filter. -/
def indices (f : CountingBloomFilter) (item : Bytes) : List Nat := getHashIndices sum32 item f.m f.k

def add (f : CountingBloomFilter) (item : Bytes) : CountingBloomFilter × Option String :=
  (f.withCounters (addLoop f.counters (f.indices sum32 item)).1 (length_addLoop ..),
    (addLoop f.counters (f.indices sum32 item)).2)

def remove (f : CountingBloomFilter) (item : Bytes) : CountingBloomFilter :=
  f.withCounters (removeLoop f.counters (f.indices sum32 item)) (length_removeLoop ..)

/-- One item of `BatchAdd`: both passes over its indices. -/
def batchAddStep (m k : Nat) (b : BatchState) (item : Bytes) : BatchState :=
  let indices := getHashIndices sum32 item m k
  if overflowLoop b.counters indices then
    { b with errors := b.errors ++ [ErrCounterOverflow], failureCount := b.failureCount + 1 }
  else
    { b with
      counters := incrementLoop b.counters indices
      successCount := b.successCount + 1
      errors := b.errors ++ [""] }

def batchAddState (f : CountingBloomFilter) (items : List Bytes) : BatchState :=
  items.foldl (batchAddStep sum32 f.m f.k) ⟨f.counters, 0, 0, []⟩

theorem length_batchAddStep (m k : Nat) (b : BatchState) (item : Bytes) :
    (batchAddStep sum32 m k b item).counters.length = b.counters.length := by
  unfold batchAddStep
  dsimp only
  split
  · rfl
  · exact length_incrementLoop ..

theorem length_batchAddState (f : CountingBloomFilter) (items : List Bytes) :
    (f.batchAddState sum32 items).counters.length = f.counters.length := by
  have aux : ∀ (items : List Bytes) (b : BatchState),
      (items.foldl (batchAddStep sum32 f.m f.k) b).counters.length = b.counters.length := by
    intro items
    induction items with
    | nil => intro b; rfl
    | cons item items ih =>
      intro b
      rw [List.foldl_cons, ih, length_batchAddStep]
  exact aux items _

/-- `BatchAdd` with its three results: `successCount`, `failureCount` and the error text of every item. -/
def batchAdd (f : CountingBloomFilter) (items : List Bytes) :
    CountingBloomFilter × Nat × Nat × List String :=
  let b := f.batchAddState sum32 items
  (f.withCounters b.counters (length_batchAddState ..), b.successCount, b.failureCount, b.errors)

/-- `BatchRemove` with its result `removedCount`. -/
def batchRemove (f : CountingBloomFilter) (items : List Bytes) : CountingBloomFilter × Nat :=
  items.foldl (fun r item => (r.1.remove sum32 item, r.2 + 1)) (f, 0)

def contains (f : CountingBloomFilter) (item : Bytes) : Bool := containsLoop f.counters (f.indices sum32 item)

def batchContains (f : CountingBloomFilter) (items : List Bytes) : List Bool := items.map (f.contains sum32)

def count (f : CountingBloomFilter) (item : Bytes) : UInt8 := countLoop f.counters 255 (f.indices sum32 item)

def reset (f : CountingBloomFilter) : CountingBloomFilter :=
  f.withCounters (f.counters.map fun _ => 0) (List.length_map _)

def size (f : CountingBloomFilter) : Nat := f.m

def hashCount (f : CountingBloomFilter) : Nat := f.k

end CountingBloomFilter

end DistributedBloomFilter
