import DistributedBloomFilter.Bloom.Cache
import DistributedBloomFilter.Lib.Recency

/-!
# The index cache is an exact LRU

A cache with its history: how many operations there have been, when each key was last put or got with success, and
what was last put under it.  The map and the list of keys are kept in step by the type `IndexCache`.  Every operation
leaves the list in the order of the last uses: what it takes out leaves the others in order, and what it uses goes to
the end, later than all others.  So the head of the list, which `Put` removes when the cache is full, is the key whose
last use is the oldest.
-/

namespace DistributedBloomFilter

open Recency (InOrder)

/-! ### The list operations -/

section

variable {κ : Type} [DecidableEq κ] {lru : List κ}

theorem removeFromLRU_sublist (lru : List κ) (key : κ) : (removeFromLRU lru key).Sublist lru := List.erase_sublist

theorem not_mem_removeFromLRU (h : lru.Nodup) (key : κ) : key ∉ removeFromLRU lru key :=
  fun hmem => ((h.mem_erase_iff).1 hmem).1 rfl

theorem length_moveToFront {key : κ} (h : key ∈ lru) : (moveToFront lru key).length = lru.length := by
  have hpos := List.length_pos_of_mem h
  rw [moveToFront, removeFromLRU, List.length_append, List.length_erase_of_mem h, List.length_singleton]
  omega

theorem removeFromLRU_of_not_mem {key : κ} (h : key ∉ lru) : removeFromLRU lru key = lru := List.erase_of_not_mem h

end

/-! ### What the operations do to the list -/

namespace IndexCache

variable (c : IndexCache) (now : Time) (key : Bytes)

theorem nodup_lru : c.lru.Nodup := c.lru_perm.nodup_iff.2 c.cache.keys_nodup

theorem mem_lru_iff : key ∈ c.lru ↔ key ∈ c.cache := c.lru_perm.mem_iff

theorem length_keys : c.cache.keys.length = c.lru.length := c.lru_perm.length_eq.symm

theorem lookup_eq_none_iff : c.cache.lookup key = none ↔ key ∉ c.lru := by
  rw [mem_lru_iff, AList.lookup_eq_none]

theorem lru_evictOldest : c.evictOldest.lru = c.lru.tail := by
  unfold evictOldest
  split
  · rename_i h
    rw [h]; rfl
  · rename_i h
    exact (congrArg List.tail h).symm

theorem capacity_evictOldest : c.evictOldest.capacity = c.capacity := by
  unfold evictOldest
  split
  · rfl
  · rfl

theorem mem_lru_of_lookup {entry : CacheEntry} (hl : c.cache.lookup key = some entry) : key ∈ c.lru := by
  by_contra hmem
  exact absurd (hl.symm.trans ((c.lookup_eq_none_iff key).2 hmem)) (by simp)

/-- A `Get` finds its key and moves it to the front, or it changes nothing. -/
theorem get_cases :
    (key ∈ c.lru ∧ (c.get now key).1.lru = moveToFront c.lru key ∧ (c.get now key).1.capacity = c.capacity ∧
      (c.get now key).2.isSome) ∨
    (key ∉ c.lru ∧ c.get now key = (c, none)) := by
  unfold get
  cases hl : c.cache.lookup key with
  | none => exact .inr ⟨(c.lookup_eq_none_iff key).1 hl, rfl⟩
  | some entry => exact .inl ⟨c.mem_lru_of_lookup key hl, rfl, rfl, rfl⟩

/-- The keys that a `Put` leaves in front of its own. -/
def kept : List Bytes :=
  if key ∈ c.lru then removeFromLRU c.lru key else if c.lru.length ≥ c.capacity then c.lru.tail else c.lru

theorem put_spec (indices : List Nat) :
    (c.put now key indices).lru = c.kept key ++ [key] ∧ (c.put now key indices).capacity = c.capacity := by
  unfold put kept
  split
  · rename_i entry hl
    rw [if_pos (c.mem_lru_of_lookup key hl)]
    exact ⟨rfl, rfl⟩
  · rename_i hl
    rw [if_neg ((c.lookup_eq_none_iff key).1 hl), ← length_keys]
    split
    · refine ⟨?_, c.capacity_evictOldest⟩
      show c.evictOldest.lru ++ [key] = _
      rw [lru_evictOldest]
    · exact ⟨rfl, rfl⟩

theorem kept_sublist : (c.kept key).Sublist c.lru := by
  unfold kept
  split
  · exact removeFromLRU_sublist c.lru key
  · split
    · exact List.tail_sublist _
    · exact List.Sublist.refl _

theorem not_mem_kept : key ∉ c.kept key := by
  unfold kept
  split
  · exact not_mem_removeFromLRU c.nodup_lru key
  · rename_i hmem
    split
    · exact fun h => hmem (List.mem_of_mem_tail h)
    · exact hmem

/-- A cache of some capacity has room for the key that is put. -/
theorem length_kept (hcap : 1 ≤ c.capacity) (hsize : c.lru.length ≤ c.capacity) :
    (c.kept key).length + 1 ≤ c.capacity := by
  unfold kept
  split
  · rename_i hmem
    have hlen := length_moveToFront hmem
    rw [moveToFront, List.length_append, List.length_singleton] at hlen
    omega
  · split
    · rw [List.length_tail]
      omega
    · omega

theorem remove_spec : (c.remove key).lru = removeFromLRU c.lru key ∧ (c.remove key).capacity = c.capacity := by
  unfold remove
  split
  · rename_i hl
    exact ⟨(removeFromLRU_of_not_mem ((c.lookup_eq_none_iff key).1 hl)).symm, rfl⟩
  · exact ⟨rfl, rfl⟩

end IndexCache

/-! ### The cache and its history -/

inductive CacheOp where
  | get (now : Time) (key : Bytes)
  | put (now : Time) (key : Bytes) (indices : List Nat)
  | remove (key : Bytes)
  | clear
deriving DecidableEq, Repr

structure CacheHistory where
  cache : IndexCache
  /-- the number of operations so far -/
  clock : Nat
  /-- the operation that last put the key or got it with success -/
  lastUsed : Bytes → Nat
  lastPut : Bytes → List Nat

namespace CacheHistory

def start (capacity : Nat) : CacheHistory :=
  { cache := newIndexCache capacity, clock := 0, lastUsed := fun _ => 0, lastPut := fun _ => [] }

def step (h : CacheHistory) : CacheOp → CacheHistory
  | .get now key =>
    { h with
      cache := (h.cache.get now key).1
      clock := h.clock + 1
      lastUsed := if (h.cache.get now key).2.isSome then Function.update h.lastUsed key h.clock else h.lastUsed }
  | .put now key indices =>
    { cache := h.cache.put now key indices
      clock := h.clock + 1
      lastUsed := Function.update h.lastUsed key h.clock
      lastPut := Function.update h.lastPut key indices }
  | .remove key => { h with cache := h.cache.remove key, clock := h.clock + 1 }
  | .clear => { h with cache := h.cache.clear, clock := h.clock + 1 }

structure Inv (capacity : Nat) (h : CacheHistory) : Prop where
  capacity_eq : h.cache.capacity = capacity
  size : h.cache.lru.length ≤ capacity
  inOrder : InOrder h.cache.lru h.lastUsed h.clock
  faithful : h.cache.Faithful h.lastPut

variable {capacity : Nat}

theorem inv_start (capacity : Nat) : Inv capacity (start capacity) :=
  ⟨rfl, Nat.zero_le _, InOrder.nil _ _, IndexCache.faithful_new capacity⟩

theorem inv_get {h : CacheHistory} (hinv : Inv capacity h) (now : Time) (key : Bytes) :
    Inv capacity (h.step (.get now key)) := by
  obtain ⟨hfaithful, _⟩ := hinv.faithful.get now key
  rcases h.cache.get_cases now key with ⟨hmem, hlru, hcap, hsome⟩ | ⟨_, hget⟩
  · refine ⟨hcap.trans hinv.capacity_eq, ?_, ?_, hfaithful⟩
    · show (h.cache.get now key).1.lru.length ≤ capacity
      rw [hlru, length_moveToFront hmem]
      exact hinv.size
    · show InOrder (h.cache.get now key).1.lru (if _ then _ else _) (h.clock + 1)
      rw [hlru, if_pos hsome]
      exact (hinv.inOrder.sublist (removeFromLRU_sublist _ key)).use (not_mem_removeFromLRU h.cache.nodup_lru key)
  · have hstep : h.step (.get now key) = { h with clock := h.clock + 1 } := by
      simp [step, hget]
    rw [hstep]
    exact ⟨hinv.capacity_eq, hinv.size, hinv.inOrder.tick, hinv.faithful⟩

theorem inv_put (hcap : 1 ≤ capacity) {h : CacheHistory} (hinv : Inv capacity h) (now : Time) (key : Bytes)
    (indices : List Nat) : Inv capacity (h.step (.put now key indices)) := by
  obtain ⟨hlru, hcapacity⟩ := h.cache.put_spec now key indices
  refine ⟨hcapacity.trans hinv.capacity_eq, ?_, ?_, hinv.faithful.put now key indices⟩
  · show (h.cache.put now key indices).lru.length ≤ capacity
    have hroom := h.cache.length_kept key (hinv.capacity_eq ▸ hcap) (hinv.capacity_eq ▸ hinv.size)
    rw [hlru, List.length_append, List.length_singleton]
    exact hinv.capacity_eq ▸ hroom
  · show InOrder (h.cache.put now key indices).lru _ _
    rw [hlru]
    exact (hinv.inOrder.sublist (h.cache.kept_sublist key)).use (h.cache.not_mem_kept key)

theorem inv_remove {h : CacheHistory} (hinv : Inv capacity h) (key : Bytes) :
    Inv capacity (h.step (.remove key)) := by
  obtain ⟨hlru, hcapacity⟩ := h.cache.remove_spec key
  have hsub := removeFromLRU_sublist h.cache.lru key
  refine ⟨hcapacity.trans hinv.capacity_eq, ?_, ?_, hinv.faithful.remove key⟩
  · show (h.cache.remove key).lru.length ≤ capacity
    rw [hlru]
    exact hsub.length_le.trans hinv.size
  · show InOrder (h.cache.remove key).lru _ _
    rw [hlru]
    exact (hinv.inOrder.sublist hsub).tick

theorem inv_step (hcap : 1 ≤ capacity) (h : CacheHistory) (op : CacheOp) (hinv : Inv capacity h) :
    Inv capacity (h.step op) := by
  cases op with
  | get now key => exact inv_get hinv now key
  | put now key indices => exact inv_put hcap hinv now key indices
  | remove key => exact inv_remove hinv key
  | clear => exact ⟨hinv.capacity_eq, Nat.zero_le _, InOrder.nil _ _, IndexCache.faithful_new _⟩

/-- What a `Get` returns is what was last put under the key. -/
theorem get_of_inv {h : CacheHistory} (hinv : Inv capacity h) (now : Time) (key : Bytes) :
    (h.cache.get now key).2 = if key ∈ h.cache.cache then some (h.lastPut key) else none := by
  obtain ⟨_, hix⟩ := hinv.faithful.get now key
  rcases h.cache.get_cases now key with ⟨hmem, _, _, hsome⟩ | ⟨hmem, hget⟩
  · obtain ⟨ix, hget⟩ := Option.isSome_iff_exists.1 hsome
    rw [if_pos ((h.cache.mem_lru_iff key).1 hmem), hget, hix ix hget]
  · rw [if_neg fun hkey => hmem ((h.cache.mem_lru_iff key).2 hkey), hget]

/-- A `Put` of a new key into a full cache takes out the key whose last use is the oldest, and no other. -/
theorem put_of_full (hcap : 1 ≤ capacity) {h : CacheHistory} (hinv : Inv capacity h) (now : Time) {key : Bytes}
    (indices : List Nat) (hnew : key ∉ h.cache.cache) (hfull : h.cache.cache.keys.length = capacity) :
    ∃ oldest ∈ h.cache.cache, (∀ k ∈ h.cache.cache, k ≠ oldest → h.lastUsed oldest < h.lastUsed k) ∧
      ∀ k, k ∈ (h.cache.put now key indices).cache ↔ k = key ∨ (k ∈ h.cache.cache ∧ k ≠ oldest) := by
  have hlen : h.cache.lru.length = capacity := h.cache.length_keys ▸ hfull
  have hnew' : key ∉ h.cache.lru := fun hmem => hnew ((h.cache.mem_lru_iff key).1 hmem)
  have hput := (h.cache.put_spec now key indices).1
  have hnodup := h.cache.nodup_lru
  have hinOrder := hinv.inOrder
  rw [IndexCache.kept, if_neg hnew', if_pos (by rw [hinv.capacity_eq]; omega)] at hput
  simp only [← IndexCache.mem_lru_iff]
  rw [hput]
  cases hlru : h.cache.lru with
  | nil => rw [hlru] at hlen; simp at hlen; omega
  | cons oldest rest =>
    rw [hlru] at hnodup hinOrder
    obtain ⟨holdest, _⟩ := List.nodup_cons.1 hnodup
    refine ⟨oldest, List.mem_cons_self, fun k hk hne => ?_, fun k => ?_⟩
    · exact hinOrder.head_lt ((List.mem_cons.1 hk).resolve_left hne)
    · rw [List.tail_cons, List.mem_append, List.mem_singleton, List.mem_cons, or_comm]
      refine or_congr_right ⟨fun hk => ⟨.inr hk, fun heq => holdest (heq ▸ hk)⟩, fun hk => ?_⟩
      exact hk.1.resolve_left hk.2

/-- After every sequence of operations the list holds the keys of the map, each of them once, in the order of their
last uses; no more keys are there than the capacity; `Get` returns what was last put; and what a `Put` takes out of a
full cache is the key whose last use is the oldest. -/
theorem exact_lru (hcap : 1 ≤ capacity) (ops : List CacheOp) :
    let h := Run.exec step (start capacity) ops
    (h.cache.lru.Nodup ∧ ∀ key, key ∈ h.cache.lru ↔ key ∈ h.cache.cache) ∧
    h.cache.cache.keys.length ≤ capacity ∧
    h.cache.lru.Pairwise (fun a b => h.lastUsed a < h.lastUsed b) ∧
    (∀ now key, (h.cache.get now key).2 = if key ∈ h.cache.cache then some (h.lastPut key) else none) ∧
    (∀ now key indices, key ∉ h.cache.cache → h.cache.cache.keys.length = capacity →
      ∃ oldest ∈ h.cache.cache, (∀ k ∈ h.cache.cache, k ≠ oldest → h.lastUsed oldest < h.lastUsed k) ∧
        ∀ k, k ∈ (h.cache.put now key indices).cache ↔ k = key ∨ (k ∈ h.cache.cache ∧ k ≠ oldest)) := by
  intro h
  have hinv : Inv capacity h := Run.keeps (inv_step hcap) (inv_start capacity) ops
  refine ⟨⟨h.cache.nodup_lru, h.cache.mem_lru_iff⟩, ?_, hinv.inOrder.sorted, get_of_inv hinv, ?_⟩
  · rw [h.cache.length_keys]
    exact hinv.size
  · exact fun now key indices => put_of_full hcap hinv now indices

/-- Two keys in a cache for two, the first of them used again: the second is the one that a third key removes. -/
theorem exact_lru_two :
    let h := Run.exec step (start 2) [.put 0 [97] [1], .put 1 [98] [2], .get 2 [97]]
    h.cache.lru = [[98], [97]] ∧ (h.cache.put 3 [99] [3]).lru = [[97], [99]] ∧
      (h.cache.get 3 [97]).2 = (if [97] ∈ h.cache.cache then some (h.lastPut [97]) else none) :=
  ⟨by decide +kernel, by decide +kernel, (exact_lru (by decide) _).2.2.2.1 3 [97]⟩

end CacheHistory

end DistributedBloomFilter
