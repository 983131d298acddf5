import DistributedBloomFilter.Bloom.Outstanding
import DistributedBloomFilter.Bloom.Serialize

/-!
# The counters depend on the outstanding items only

In a run in which every `Add` returns nil and nothing is removed that is not outstanding, neither the check for a full
counter nor the stop at zero ever takes effect: every counter is the load of the outstanding items.  So two such runs
with the same outstanding items end with the same filter, whatever they did on the way.
-/

namespace DistributedBloomFilter

open Run (exec Admits)

namespace CountingBloomFilter

variable (sum32 : Bytes → UInt32)

/-- Every counter is the load of `S`. -/
def Tallies (f : CountingBloomFilter) (S : Multiset Bytes) : Prop :=
  ∀ j, counterAt f.counters j = Load.load (f.indices sum32) S j

variable {sum32} {f : CountingBloomFilter} {S : Multiset Bytes}

theorem counterAt_replicate (m j : Nat) : counterAt (List.replicate m 0) j = 0 := by
  unfold counterAt
  rw [List.getD_eq_getElem?_getD, List.getElem?_replicate]
  split <;> rfl

theorem Tallies.add (h : f.Tallies sum32 S) (hm : 2 ≤ f.m) {x : Bytes} (hok : (f.add sum32 x).2 = none) :
    (f.add sum32 x).1.Tallies sum32 (x ::ₘ S) := by
  intro j
  show counterAt (addLoop f.counters (f.indices sum32 x)).1 j = Load.load (f.indices sum32) (x ::ₘ S) j
  rcases addLoop_spec (lt_length_of_mem_indices sum32 hm x) with ⟨_, hc⟩ | ⟨herr, _⟩
  · rw [hc, h j, Load.load_cons, Nat.add_comm]
  · exact absurd (hok.symm.trans herr) (by simp)

theorem Tallies.remove (h : f.Tallies sum32 S) (hm : 2 ≤ f.m) {x : Bytes} (hx : x ∈ S) :
    (f.remove sum32 x).Tallies sum32 (S.erase x) := by
  intro j
  show counterAt (removeLoop f.counters (f.indices sum32 x)) j = Load.load (f.indices sum32) (S.erase x) j
  rw [counterAt_removeLoop (lt_length_of_mem_indices sum32 hm x), h j, Load.load_erase _ hx, Nat.add_sub_cancel_left]

theorem Tallies.batchRemove (h : f.Tallies sum32 S) (hm : 2 ≤ f.m) {items : List Bytes} (hle : ↑items ≤ S) :
    (f.batchRemove sum32 items).1.Tallies sum32 (S - ↑items) := by
  have hremove : ∀ (f : CountingBloomFilter) (S : Multiset Bytes) (x : Bytes), 2 ≤ f.m ∧ f.Tallies sum32 S → x ∈ S →
      2 ≤ (f.remove sum32 x).m ∧ (f.remove sum32 x).Tallies sum32 (S.erase x) :=
    fun f S x hf hx => ⟨hf.1, hf.2.remove hf.1 hx⟩
  exact (batchRemove_keeps hremove ⟨hm, h⟩ hle).2

theorem tallies_new (m k : Nat) : (newCountingBloomFilter m k).Tallies sum32 0 :=
  fun j => counterAt_replicate m j

/-- The filter of a multiset is unique. -/
theorem Tallies.unique {g : CountingBloomFilter} (hf : f.Tallies sum32 S) (hg : g.Tallies sum32 S) (hm : f.m = g.m)
    (hk : f.k = g.k) : f = g := by
  have hindices : f.indices sum32 = g.indices sum32 := by unfold indices; rw [hm, hk]
  apply eq_of_counterAt hm hk
  intro j
  rw [hf j, hg j, hindices]

end CountingBloomFilter

namespace Tracked

variable (sum32 : Bytes → UInt32)

/-- Only outstanding items are removed, and every `Add` returns nil. -/
def Clean (t : Tracked) (op : FilterOp) : Prop :=
  t.Allowed op ∧ ∀ x, op = .add x → (t.filter.add sum32 x).2 = none

instance : ∀ (t : Tracked) (op : FilterOp), Decidable (t.Clean sum32 op)
  | t, .add x => decidable_of_iff ((t.filter.add sum32 x).2 = none)
      ⟨fun h => ⟨trivial, fun _ hx => FilterOp.add.inj hx ▸ h⟩, fun h => h.2 x rfl⟩
  | t, .remove x => decidable_of_iff (t.Allowed (.remove x)) ⟨fun h => ⟨h, nofun⟩, And.left⟩
  | t, .batchRemove xs => decidable_of_iff (t.Allowed (.batchRemove xs)) ⟨fun h => ⟨h, nofun⟩, And.left⟩
  | _, .contains _ | _, .count _ | _, .reset => .isTrue ⟨trivial, nofun⟩

/-- The filter keeps its shape and counts its outstanding items exactly. -/
def Exact (m k : Nat) (t : Tracked) : Prop :=
  t.filter.m = m ∧ t.filter.k = k ∧ t.filter.Tallies sum32 t.outstanding

variable {sum32} {m k : Nat}

theorem exact_step (hm : 2 ≤ m) (t : Tracked) (op : FilterOp) (h : t.Exact sum32 m k) (hop : t.Clean sum32 op) :
    (t.step sum32 op).Exact sum32 m k := by
  obtain ⟨rfl, rfl, ht⟩ := h
  cases op with
  | add x =>
    have hok := hop.2 x rfl
    refine ⟨rfl, rfl, ?_⟩
    show (t.filter.add sum32 x).1.Tallies sum32 (if _ then _ else _)
    rw [if_pos hok]
    exact ht.add hm hok
  | remove x => exact ⟨rfl, rfl, ht.remove hm hop.1⟩
  | batchRemove xs =>
    obtain ⟨em, ek⟩ := t.filter.batchRemove_shape sum32 xs
    exact ⟨em, ek, ht.batchRemove hm hop.1⟩
  | contains x => exact ⟨rfl, rfl, ht⟩
  | count x => exact ⟨rfl, rfl, ht⟩
  | reset =>
    refine ⟨rfl, rfl, fun j => ?_⟩
    show counterAt (t.filter.counters.map fun _ => 0) j = 0
    rw [List.map_const']
    exact CountingBloomFilter.counterAt_replicate _ j

theorem exact_exec (hm : 2 ≤ m) {ops : List FilterOp} (hops : Admits (step sum32) (Clean sum32) (start m k) ops) :
    (exec (step sum32) (start m k) ops).Exact sum32 m k :=
  Run.invariant (exact_step hm) ⟨rfl, rfl, CountingBloomFilter.tallies_new m k⟩ hops

/-- Two runs that end with the same outstanding items end with the same counters and the same serialized form, and a
run that ends with none ends with the empty filter. -/
theorem filter_eq_of_outstanding_eq (hm : 2 ≤ m) {ops ops' : List FilterOp}
    (hops : Admits (step sum32) (Clean sum32) (start m k) ops)
    (hops' : Admits (step sum32) (Clean sum32) (start m k) ops') :
    ((exec (step sum32) (start m k) ops).outstanding = (exec (step sum32) (start m k) ops').outstanding →
      (exec (step sum32) (start m k) ops).filter.counters = (exec (step sum32) (start m k) ops').filter.counters ∧
      ∀ crc32, (exec (step sum32) (start m k) ops).filter.serialize crc32 =
        (exec (step sum32) (start m k) ops').filter.serialize crc32) ∧
    ((exec (step sum32) (start m k) ops).outstanding = 0 →
      (exec (step sum32) (start m k) ops).filter = newCountingBloomFilter m k) := by
  obtain ⟨em, ek, ht⟩ := exact_exec hm hops
  obtain ⟨em', ek', ht'⟩ := exact_exec hm hops'
  constructor
  · intro heq
    rw [← heq] at ht'
    have hfilter := ht.unique ht' (em.trans em'.symm) (ek.trans ek'.symm)
    rw [hfilter]
    exact ⟨rfl, fun _ => rfl⟩
  · intro hzero
    rw [hzero] at ht
    exact ht.unique (CountingBloomFilter.tallies_new m k) em ek

/-- Two ways to one copy of `a` and one of `b`. -/
theorem filter_eq_of_outstanding_eq_murmur3 :
    (((exec (step Murmur3.sum32) (start 2 3) [.add [97], .add [98]]).outstanding =
        (exec (step Murmur3.sum32) (start 2 3) [.add [98], .add [98], .add [97], .batchRemove [[98]]]).outstanding →
      (exec (step Murmur3.sum32) (start 2 3) [.add [97], .add [98]]).filter.counters =
        (exec (step Murmur3.sum32) (start 2 3)
          [.add [98], .add [98], .add [97], .batchRemove [[98]]]).filter.counters ∧
      ∀ crc32, (exec (step Murmur3.sum32) (start 2 3) [.add [97], .add [98]]).filter.serialize crc32 =
        (exec (step Murmur3.sum32) (start 2 3)
          [.add [98], .add [98], .add [97], .batchRemove [[98]]]).filter.serialize crc32) ∧
    ((exec (step Murmur3.sum32) (start 2 3) [.add [97], .add [98]]).outstanding = 0 →
      (exec (step Murmur3.sum32) (start 2 3) [.add [97], .add [98]]).filter = newCountingBloomFilter 2 3)) ∧
    (exec (step Murmur3.sum32) (start 2 3) [.add [97], .add [98]]).outstanding =
      (exec (step Murmur3.sum32) (start 2 3) [.add [98], .add [98], .add [97], .batchRemove [[98]]]).outstanding :=
  ⟨filter_eq_of_outstanding_eq (by decide) (by decide +kernel) (by decide +kernel), by decide +kernel⟩

end Tracked

end DistributedBloomFilter
