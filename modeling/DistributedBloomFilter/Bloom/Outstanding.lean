import DistributedBloomFilter.Bloom.Counting
import DistributedBloomFilter.Lib.Load
import DistributedBloomFilter.Lib.Murmur3
import DistributedBloomFilter.Lib.Run

/-!
# A filter never under-counts

A filter together with the multiset of its outstanding items: every successful `Add` puts a copy of the item in, every
`Remove` takes one out.  The filter covers the multiset when every counter is at least the load the multiset puts on
it.  An `Add` that fails in the middle only raises counters, and a `Remove` takes at most the item's own load off, so
covering is kept as long as nothing is removed that is not outstanding.
-/

namespace DistributedBloomFilter

open Run (exec Admits)

namespace CountingBloomFilter

variable (sum32 : Bytes → UInt32)

theorem lt_length_of_mem_indices {f : CountingBloomFilter} (hm : 2 ≤ f.m) (item : Bytes) :
    ∀ i ∈ f.indices sum32 item, i < f.counters.length := by
  intro i hi
  rw [f.length_counters]
  exact lt_of_mem_getHashIndices hm hi

/-! ### When `Add` does all or nothing -/

/-- The first counter of the item is full, or all of them have room for all the occurrences of their indices. -/
def AddSettles (f : CountingBloomFilter) (item : Bytes) : Prop :=
  (∃ i ∈ (f.indices sum32 item).head?, 255 ≤ counterAt f.counters i) ∨
    ∀ i ∈ f.indices sum32 item, counterAt f.counters i + (f.indices sum32 item).count i ≤ 255

instance (f : CountingBloomFilter) (item : Bytes) : Decidable (f.AddSettles sum32 item) :=
  inferInstanceAs (Decidable (_ ∨ _))

variable {sum32} in
theorem add_of_head_full {f : CountingBloomFilter} {item : Bytes}
    (h : ∃ i ∈ (f.indices sum32 item).head?, 255 ≤ counterAt f.counters i) :
    f.add sum32 item = (f, some ErrCounterOverflow) := by
  obtain ⟨i, hi, hfull⟩ := h
  obtain ⟨rest, hix⟩ : ∃ rest, f.indices sum32 item = i :: rest := List.head?_eq_some_iff.1 hi
  have hadd : addLoop f.counters (f.indices sum32 item) = (f.counters, some ErrCounterOverflow) := by
    rw [hix]; exact addLoop_full hfull rest
  unfold add withCounters
  simp only [hadd]

variable {sum32} in
theorem add_of_room {f : CountingBloomFilter} (hm : 2 ≤ f.m) {item : Bytes}
    (hroom : ∀ i ∈ f.indices sum32 item, counterAt f.counters i + (f.indices sum32 item).count i ≤ 255) :
    (f.add sum32 item).2 = none ∧ ∀ j, counterAt (f.add sum32 item).1.counters j =
      counterAt f.counters j + (f.indices sum32 item).count j := by
  have hlt := lt_length_of_mem_indices sum32 hm item
  have hok : (f.add sum32 item).2 = none := by
    refine (addLoop_ok_iff hlt).2 fun j => ?_
    by_cases hj : j ∈ f.indices sum32 item
    · exact hroom j hj
    · rw [List.count_eq_zero_of_not_mem hj]
      exact Nat.le_of_lt_succ (counterAt_lt f.counters j)
  rcases addLoop_spec hlt with ⟨_, hc⟩ | ⟨herr, _⟩
  · exact ⟨hok, hc⟩
  · exact absurd (hok.symm.trans herr) (by simp)

/-- An `Add` that succeeds has found room. -/
theorem addSettles_of_add {f : CountingBloomFilter} (hm : 2 ≤ f.m) {item : Bytes}
    (hok : (f.add sum32 item).2 = none) : f.AddSettles sum32 item :=
  .inr fun i _ => (addLoop_ok_iff (lt_length_of_mem_indices sum32 hm item)).1 hok i

/-- Then a failed `Add` has changed nothing. -/
theorem AddSettles.add {f : CountingBloomFilter} {item : Bytes} (h : f.AddSettles sum32 item) (hm : 2 ≤ f.m)
    (hfail : (f.add sum32 item).2 ≠ none) : (f.add sum32 item).1 = f := by
  rcases h with hfull | hroom
  · rw [add_of_head_full hfull]
  · exact absurd (add_of_room hm hroom).1 hfail

variable {sum32} in
/-- `Add` that fails and changes nothing has found its first counter full. -/
theorem head_full_of_unchanged {f : CountingBloomFilter} (hm : 2 ≤ f.m) {x : Bytes}
    (hfail : (f.add sum32 x).2 ≠ none)
    (hsame : ∀ j, counterAt (f.add sum32 x).1.counters j = counterAt f.counters j) :
    ∃ i ∈ (f.indices sum32 x).head?, 255 ≤ counterAt f.counters i := by
  have hlt := lt_length_of_mem_indices sum32 hm x
  cases hix : f.indices sum32 x with
  | nil =>
    refine absurd ?_ hfail
    show (addLoop f.counters (f.indices sum32 x)).2 = none
    rw [hix]; rfl
  | cons i rest =>
    refine ⟨i, rfl, ?_⟩
    by_contra hroom
    have hi := hsame i
    have hlt' := lt_addLoop_head (hix ▸ hlt) (Nat.lt_of_not_le hroom)
    rw [← hix] at hlt'
    exact absurd hi (Nat.ne_of_gt hlt')

/-- A failed `Add` has changed no counter if and only if it found its first counter full.  So the promise that a
failed `Add` changes nothing is kept for an item exactly when that counter is full or all counters have room. -/
theorem failed_add_unchanged_iff {f : CountingBloomFilter} (hm : 2 ≤ f.m) (item : Bytes) :
    ((f.add sum32 item).2 = some ErrCounterOverflow → (f.add sum32 item).1.counters = f.counters) ↔
      f.AddSettles sum32 item := by
  have hlt := lt_length_of_mem_indices sum32 hm item
  constructor
  · intro h
    by_cases hok : (f.add sum32 item).2 = none
    · exact addSettles_of_add sum32 hm hok
    · have herr : (f.add sum32 item).2 = some ErrCounterOverflow := by
        rcases addLoop_spec hlt with ⟨hnone, _⟩ | ⟨herr, _⟩
        · exact absurd hnone hok
        · exact herr
      refine .inl (head_full_of_unchanged hm hok fun j => ?_)
      rw [h herr]
  · intro h herr
    rw [h.add sum32 hm (by rw [herr]; simp)]

/-- The indices of `a` are `[0, 1, 0]` among two counters: with the first one full, `Add` fails and changes
nothing. -/
theorem failed_add_unchanged_head_full :
    let f : CountingBloomFilter := { m := 2, k := 3, counters := [255, 7], length_counters := rfl }
    (f.add Murmur3.sum32 [97]).2 = some ErrCounterOverflow ∧ f.AddSettles Murmur3.sum32 [97] ∧
      (f.add Murmur3.sum32 [97]).1.counters = [255, 7] := by
  intro f
  have hfail : (f.add Murmur3.sum32 [97]).2 = some ErrCounterOverflow := by decide +kernel
  have hsettles : f.AddSettles Murmur3.sum32 [97] := by decide +kernel
  exact ⟨hfail, hsettles, (failed_add_unchanged_iff Murmur3.sum32 (by decide) [97]).2 hsettles hfail⟩

/-- With the second counter full, `Add` of `a` fails after it has raised the first one. -/
theorem not_failed_add_unchanged :
    let f : CountingBloomFilter := { m := 2, k := 3, counters := [7, 255], length_counters := rfl }
    (f.add Murmur3.sum32 [97]).2 = some ErrCounterOverflow ∧
      (f.add Murmur3.sum32 [97]).1.counters = [8, 255] ∧ f.counters = [7, 255] := by
  decide +kernel

/-! ### Covering a multiset -/

/-- Every counter is at least the load of `S`. -/
def Covers (f : CountingBloomFilter) (S : Multiset Bytes) : Prop :=
  ∀ j, Load.load (f.indices sum32) S j ≤ counterAt f.counters j

variable {sum32} {f : CountingBloomFilter} {S : Multiset Bytes}

theorem Covers.add (h : f.Covers sum32 S) (hm : 2 ≤ f.m) (x : Bytes) :
    (f.add sum32 x).1.Covers sum32 (if (f.add sum32 x).2 = none then x ::ₘ S else S) := by
  intro j
  have hj := h j
  show Load.load (f.indices sum32) (if (addLoop f.counters (f.indices sum32 x)).2 = none then x ::ₘ S else S) j ≤
    counterAt (addLoop f.counters (f.indices sum32 x)).1 j
  rcases addLoop_spec (lt_length_of_mem_indices sum32 hm x) with ⟨hok, hc⟩ | ⟨herr, hc⟩
  · rw [if_pos hok, Load.load_cons, hc]
    omega
  · rw [herr, if_neg (by simp)]
    exact hj.trans (hc j)

theorem Covers.remove (h : f.Covers sum32 S) (hm : 2 ≤ f.m) {x : Bytes} (hx : x ∈ S) :
    (f.remove sum32 x).Covers sum32 (S.erase x) := by
  intro j
  have hj := h j
  rw [Load.load_erase _ hx] at hj
  show Load.load (f.indices sum32) (S.erase x) j ≤ counterAt (removeLoop f.counters (f.indices sum32 x)) j
  rw [counterAt_removeLoop (lt_length_of_mem_indices sum32 hm x)]
  omega

theorem batchRemove_fst (f : CountingBloomFilter) (items : List Bytes) :
    (f.batchRemove sum32 items).1 = items.foldl (·.remove sum32 ·) f := by
  have aux : ∀ (items : List Bytes) (r : CountingBloomFilter × Nat),
      (items.foldl (fun r item => (r.1.remove sum32 item, r.2 + 1)) r).1 = items.foldl (·.remove sum32 ·) r.1 := by
    intro items
    induction items with
    | nil => intro r; rfl
    | cons item items ih => intro r; rw [List.foldl_cons, List.foldl_cons, ih]
  exact aux items (f, 0)

/-- What every `Remove` of an item that is in the multiset keeps, a `BatchRemove` keeps. -/
theorem batchRemove_keeps {P : CountingBloomFilter → Multiset Bytes → Prop}
    (hremove : ∀ f S x, P f S → x ∈ S → P (f.remove sum32 x) (S.erase x)) (h : P f S) {items : List Bytes}
    (hle : ↑items ≤ S) : P (f.batchRemove sum32 items).1 (S - ↑items) := by
  rw [batchRemove_fst]
  induction items generalizing f S with
  | nil => simpa using h
  | cons x items ih =>
    rw [← Multiset.cons_coe] at hle ⊢
    have hx : x ∈ S := Multiset.mem_of_le hle (Multiset.mem_cons_self x _)
    have hle' : ↑items ≤ S.erase x := by
      rw [← Multiset.erase_cons_head x (items : Multiset Bytes)]
      exact Multiset.erase_le_erase x hle
    rw [Multiset.sub_cons, List.foldl_cons]
    exact ih (hremove f S x h hx) hle'

theorem Covers.batchRemove (h : f.Covers sum32 S) (hm : 2 ≤ f.m) {items : List Bytes} (hle : ↑items ≤ S) :
    (f.batchRemove sum32 items).1.Covers sum32 (S - ↑items) := by
  have hremove : ∀ (f : CountingBloomFilter) (S : Multiset Bytes) (x : Bytes),
      2 ≤ f.m ∧ f.Covers sum32 S → x ∈ S → 2 ≤ (f.remove sum32 x).m ∧ (f.remove sum32 x).Covers sum32 (S.erase x) :=
    fun f S x hf hx => ⟨hf.1, hf.2.remove hf.1 hx⟩
  exact (batchRemove_keeps hremove ⟨hm, h⟩ hle).2

variable (sum32) in
theorem batchRemove_shape (f : CountingBloomFilter) (items : List Bytes) :
    (f.batchRemove sum32 items).1.m = f.m ∧ (f.batchRemove sum32 items).1.k = f.k := by
  rw [batchRemove_fst]
  induction items generalizing f with
  | nil => exact ⟨rfl, rfl⟩
  | cons x items ih => exact ih (f.remove sum32 x)

theorem counterAt_covers (h : f.Covers sum32 S) {x : Bytes} {i : Nat} (hi : i ∈ f.indices sum32 x) :
    S.count x ≤ counterAt f.counters i :=
  (Load.count_le_load _ hi S).trans (h i)

theorem Covers.contains (h : f.Covers sum32 S) {x : Bytes} (hx : 0 < S.count x) : f.contains sum32 x = true := by
  refine containsLoop_iff.2 fun i hi => ?_
  exact hx.trans_le (counterAt_covers h hi)

theorem Covers.count (h : f.Covers sum32 S) (hk : 1 ≤ f.k) (x : Bytes) :
    S.count x ≤ (f.count sum32 x).toNat := by
  refine le_countLoop_iff.2 ⟨?_, fun i hi => counterAt_covers h hi⟩
  -- there is an index, and its counter is a `uint8`
  obtain ⟨i, hi⟩ := exists_mem_getHashIndices sum32 x f.m hk
  have h1 := counterAt_covers h hi
  have h2 := counterAt_lt f.counters i
  show _ ≤ 255
  omega

end CountingBloomFilter

/-! ### Runs of filter operations -/

inductive FilterOp where
  | add (item : Bytes)
  | remove (item : Bytes)
  | batchRemove (items : List Bytes)
  | contains (item : Bytes)
  | count (item : Bytes)
  | reset
deriving DecidableEq, Repr

/-- A filter with its outstanding items: one copy for every successful `Add` since the last `Reset` that has not been
removed. -/
structure Tracked where
  filter : CountingBloomFilter
  outstanding : Multiset Bytes

namespace Tracked

variable (sum32 : Bytes → UInt32)

def step (t : Tracked) : FilterOp → Tracked
  | .add x => ⟨(t.filter.add sum32 x).1,
      if (t.filter.add sum32 x).2 = none then x ::ₘ t.outstanding else t.outstanding⟩
  | .remove x => ⟨t.filter.remove sum32 x, t.outstanding.erase x⟩
  | .batchRemove xs => ⟨(t.filter.batchRemove sum32 xs).1, t.outstanding - ↑xs⟩
  | .contains _ | .count _ => t
  | .reset => ⟨t.filter.reset, 0⟩

/-- Only items that are still outstanding are removed. -/
def Allowed (t : Tracked) : FilterOp → Prop
  | .remove x => x ∈ t.outstanding
  | .batchRemove xs => ↑xs ≤ t.outstanding
  | _ => True

instance : ∀ (t : Tracked) (op : FilterOp), Decidable (t.Allowed op)
  | _, .remove _ => inferInstanceAs (Decidable (_ ∈ _))
  | _, .batchRemove _ => inferInstanceAs (Decidable (_ ≤ _))
  | _, .add _ | _, .contains _ | _, .count _ | _, .reset => .isTrue trivial

/-- The empty filter and no outstanding item. -/
def start (m k : Nat) : Tracked := ⟨newCountingBloomFilter m k, 0⟩

/-- The filter has a usable shape and covers its outstanding items. -/
def Inv (t : Tracked) : Prop := 2 ≤ t.filter.m ∧ 1 ≤ t.filter.k ∧ t.filter.Covers sum32 t.outstanding

variable {sum32}

theorem inv_start {m k : Nat} (hm : 2 ≤ m) (hk : 1 ≤ k) : Inv sum32 (start m k) :=
  ⟨hm, hk, fun j => by simp [start]⟩

theorem inv_step (t : Tracked) (op : FilterOp) (h : Inv sum32 t) (hop : t.Allowed op) :
    Inv sum32 (t.step sum32 op) := by
  obtain ⟨hm, hk, hc⟩ := h
  cases op with
  | add x => exact ⟨hm, hk, hc.add hm x⟩
  | remove x => exact ⟨hm, hk, hc.remove hm hop⟩
  | batchRemove xs =>
    obtain ⟨em, ek⟩ := t.filter.batchRemove_shape sum32 xs
    exact ⟨em ▸ hm, ek ▸ hk, hc.batchRemove hm hop⟩
  | contains x => exact ⟨hm, hk, hc⟩
  | count x => exact ⟨hm, hk, hc⟩
  | reset => exact ⟨hm, hk, fun j => by simp [step]⟩

/-- After every run of operations, whatever hash the filter uses and whichever `Add`s failed, `Count` is at least the
number of outstanding copies of an item, and an item with an outstanding copy is reported as present. -/
theorem outstanding_le_count {m k : Nat} (hm : 2 ≤ m) (hk : 1 ≤ k) {ops : List FilterOp}
    (hops : Admits (step sum32) Allowed (start m k) ops) (x : Bytes) :
    (exec (step sum32) (start m k) ops).outstanding.count x ≤
      ((exec (step sum32) (start m k) ops).filter.count sum32 x).toNat ∧
    (0 < (exec (step sum32) (start m k) ops).outstanding.count x →
      (exec (step sum32) (start m k) ops).filter.contains sum32 x = true) := by
  obtain ⟨_, hk', hc⟩ := Run.invariant inv_step (inv_start hm hk) hops
  exact ⟨hc.count hk' x, hc.contains⟩

/-- Two items on two counters, one of them added twice and removed once. -/
theorem outstanding_le_count_murmur3 :
    (exec (step Murmur3.sum32) (start 2 3) [.add [97], .add [98], .add [97], .remove [97]]).outstanding.count [97] ≤
      ((exec (step Murmur3.sum32) (start 2 3)
        [.add [97], .add [98], .add [97], .remove [97]]).filter.count Murmur3.sum32 [97]).toNat ∧
    (0 < (exec (step Murmur3.sum32) (start 2 3)
        [.add [97], .add [98], .add [97], .remove [97]]).outstanding.count [97] →
      (exec (step Murmur3.sum32) (start 2 3)
        [.add [97], .add [98], .add [97], .remove [97]]).filter.contains Murmur3.sum32 [97] = true) :=
  outstanding_le_count (by decide) (by decide) (by decide +kernel) [97]

end Tracked

end DistributedBloomFilter
