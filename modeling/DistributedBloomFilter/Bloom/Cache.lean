import DistributedBloomFilter.Bloom.Outstanding
import DistributedBloomFilter.Bloom.Serialize
import Mathlib.Data.List.AList

/-!
# The filter with an index cache

`IndexCache` and `CountingBloomFilterWithCache` of `pkg/bloom/cache.go`.  The cache keeps the indices of the items
used last, oldest first in `lru`; only `Add` and `Contains` read it, and every other method is that of the plain
filter.  As long as each entry holds the indices of its own key (`Faithful`), a filter with a cache cannot be told
from one without.
-/

namespace DistributedBloomFilter

structure CacheEntry where
  indices : List Nat
  timestamp : Time
  hits : UInt64
deriving DecidableEq, Repr

/-! ### The list of keys, oldest first -/

section Lru

variable {κ β : Type} [DecidableEq κ] {lru : List κ} {s : AList fun _ : κ => β}

/-- `removeFromLRU`, on the list. -/
def removeFromLRU (lru : List κ) (key : κ) : List κ := lru.erase key

/-- The front is the end of the list. -/
def moveToFront (lru : List κ) (key : κ) : List κ := removeFromLRU lru key ++ [key]

theorem removeFromLRU_perm (h : lru.Perm s.keys) (key : κ) : (removeFromLRU lru key).Perm (s.erase key).keys := by
  rw [AList.keys_erase]
  exact h.erase key

theorem moveToFront_perm (h : lru.Perm s.keys) (key : κ) (v : β) :
    (moveToFront lru key).Perm (s.insert key v).keys := by
  rw [AList.keys_insert]
  exact List.perm_append_comm.trans ((h.erase key).cons key)

theorem append_perm (h : lru.Perm s.keys) {key : κ} (hnew : s.lookup key = none) (v : β) :
    (lru ++ [key]).Perm (s.insert key v).keys := by
  rw [AList.keys_insert, List.erase_of_not_mem (AList.lookup_eq_none.1 hnew)]
  exact List.perm_append_comm.trans (h.cons key)

theorem tail_perm {oldest : κ} (h : (oldest :: lru).Perm s.keys) : lru.Perm (s.erase oldest).keys := by
  have hperm := removeFromLRU_perm h oldest
  rwa [removeFromLRU, List.erase_cons_head] at hperm

end Lru

/-! ### The cache -/

/-- The keys in the `lru` list are those of the map, each of them once. -/
structure IndexCache where
  capacity : Nat
  cache : AList fun _ : Bytes => CacheEntry
  lru : List Bytes
  lru_perm : lru.Perm cache.keys

def newIndexCache (capacity : Nat) : IndexCache :=
  { capacity := capacity, cache := ∅, lru := [], lru_perm := .refl _ }

namespace IndexCache

/-- An entry that is there already is written again, and its key is the one used last. -/
def touch (c : IndexCache) (key : Bytes) (entry : CacheEntry) : IndexCache where
  capacity := c.capacity
  cache := c.cache.insert key entry
  lru := moveToFront c.lru key
  lru_perm := moveToFront_perm c.lru_perm key entry

def get (c : IndexCache) (now : Time) (key : Bytes) : IndexCache × Option (List Nat) :=
  match c.cache.lookup key with
  | none => (c, none)
  | some entry => (c.touch key { entry with hits := entry.hits + 1, timestamp := now }, some entry.indices)

def evictOldest (c : IndexCache) : IndexCache :=
  match h : c.lru with
  | [] => c
  | oldest :: rest =>
    { c with
      cache := c.cache.erase oldest
      lru := rest
      lru_perm := tail_perm (h ▸ c.lru_perm) }

theorem lookup_evictOldest {c : IndexCache} {key : Bytes} {entry : CacheEntry}
    (h : c.evictOldest.cache.lookup key = some entry) : c.cache.lookup key = some entry := by
  unfold evictOldest at h
  split at h
  · exact h
  · rename_i oldest rest _
    by_cases hkey : key = oldest
    · subst hkey
      exact absurd (h.symm.trans (AList.lookup_erase key c.cache)) (by simp)
    · rwa [AList.lookup_erase_ne hkey] at h

/-- The new entry of `Put`. -/
def insertNew (c : IndexCache) (key : Bytes) (entry : CacheEntry) (h : c.cache.lookup key = none) : IndexCache where
  capacity := c.capacity
  cache := c.cache.insert key entry
  lru := c.lru ++ [key]
  lru_perm := append_perm c.lru_perm h entry

theorem lookup_evictOldest_none {c : IndexCache} {key : Bytes} (h : c.cache.lookup key = none) :
    c.evictOldest.cache.lookup key = none := by
  cases hl : c.evictOldest.cache.lookup key with
  | none => rfl
  | some entry => exact absurd ((lookup_evictOldest hl).symm.trans h) (by simp)

def put (c : IndexCache) (now : Time) (key : Bytes) (indices : List Nat) : IndexCache :=
  match h : c.cache.lookup key with
  | some entry => c.touch key { indices := indices, timestamp := now, hits := entry.hits + 1 }
  | none =>
    if c.cache.keys.length ≥ c.capacity then
      c.evictOldest.insertNew key { indices := indices, timestamp := now, hits := 0 } (lookup_evictOldest_none h)
    else c.insertNew key { indices := indices, timestamp := now, hits := 0 } h

def remove (c : IndexCache) (key : Bytes) : IndexCache :=
  match c.cache.lookup key with
  | none => c
  | some _ =>
    { c with
      cache := c.cache.erase key
      lru := removeFromLRU c.lru key
      lru_perm := removeFromLRU_perm c.lru_perm key }

def clear (c : IndexCache) : IndexCache := newIndexCache c.capacity

/-! ### Every entry holds the indices of its key -/

/-- The indices of every entry are those `indices` computes from its key. -/
def Faithful (c : IndexCache) (indices : Bytes → List Nat) : Prop :=
  ∀ key entry, c.cache.lookup key = some entry → entry.indices = indices key

variable {c : IndexCache} {indices : Bytes → List Nat}

theorem faithful_new (capacity : Nat) : (newIndexCache capacity).Faithful indices :=
  fun key entry h => absurd ((AList.lookup_empty key).symm.trans h) (by simp)

private theorem faithful_insert {s : AList fun _ : Bytes => CacheEntry} {key : Bytes} {entry : CacheEntry}
    (h : ∀ k e, k ≠ key → s.lookup k = some e → e.indices = indices k) (hentry : entry.indices = indices key)
    (k : Bytes) (e : CacheEntry) (hk : (s.insert key entry).lookup k = some e) : e.indices = indices k := by
  by_cases hkey : k = key
  · subst hkey
    rw [AList.lookup_insert] at hk
    rw [← Option.some.inj hk, hentry]
  · rw [AList.lookup_insert_ne hkey] at hk
    exact h k e hkey hk

theorem Faithful.get (h : c.Faithful indices) (now : Time) (key : Bytes) :
    (c.get now key).1.Faithful indices ∧ ∀ ix ∈ (c.get now key).2, ix = indices key := by
  unfold IndexCache.get
  cases hl : c.cache.lookup key with
  | none => exact ⟨h, nofun⟩
  | some entry =>
    refine ⟨faithful_insert (fun k e _ => h k e) (h key entry hl), fun ix hix => ?_⟩
    rw [← Option.some.inj hix, h key entry hl]

theorem Faithful.put (h : c.Faithful indices) (now : Time) (key : Bytes) (ix : List Nat) :
    (c.put now key ix).Faithful (Function.update indices key ix) := by
  have hself : ix = Function.update indices key ix key := (Function.update_self key ix indices).symm
  have hother : ∀ k e, k ≠ key → c.cache.lookup k = some e → e.indices = Function.update indices key ix k := by
    intro k e hk he
    rw [Function.update_of_ne hk]
    exact h k e he
  unfold IndexCache.put
  split
  · exact faithful_insert hother hself
  · split
    · exact faithful_insert (fun k e hk he => hother k e hk (lookup_evictOldest he)) hself
    · exact faithful_insert hother hself

theorem Faithful.remove (h : c.Faithful indices) (key : Bytes) : (c.remove key).Faithful indices := by
  unfold IndexCache.remove
  split
  · exact h
  · intro k e hk
    by_cases hkey : k = key
    · subst hkey
      exact absurd (hk.symm.trans (AList.lookup_erase k c.cache)) (by simp)
    · exact h k e ((AList.lookup_erase_ne hkey).symm.trans hk)

end IndexCache

/-! ### The two filters -/

structure CountingBloomFilterWithCache where
  filter : CountingBloomFilter
  cache : IndexCache

def newCountingBloomFilterWithCache (m k cacheSize : Nat) : CountingBloomFilterWithCache :=
  { filter := newCountingBloomFilter m k, cache := newIndexCache cacheSize }

/-- A call of a method of either filter; `now` is the clock when the cache is used. -/
inductive FilterCall where
  | add (now : Time) (item : Bytes)
  | remove (item : Bytes)
  | contains (now : Time) (item : Bytes)
  | count (item : Bytes)
  | batchAdd (items : List Bytes)
  | batchRemove (items : List Bytes)
  | batchContains (items : List Bytes)
  | reset
  | serialize
deriving DecidableEq, Repr

/-- What a call returns. -/
inductive FilterReply where
  | done
  | err (err : Option String)
  | bool (b : Bool)
  | counter (n : UInt8)
  | batch (successCount failureCount : Nat) (errors : List String)
  | removed (n : Nat)
  | bools (bs : List Bool)
  | bytes (b : Bytes)
deriving DecidableEq, Repr

variable (sum32 crc32 : Bytes → UInt32)

def CountingBloomFilter.call (f : CountingBloomFilter) : FilterCall → CountingBloomFilter × FilterReply
  | .add _ item => ((f.add sum32 item).1, .err (f.add sum32 item).2)
  | .remove item => (f.remove sum32 item, .done)
  | .contains _ item => (f, .bool (f.contains sum32 item))
  | .count item => (f, .counter (f.count sum32 item))
  | .batchAdd items =>
    let r := f.batchAdd sum32 items
    (r.1, .batch r.2.1 r.2.2.1 r.2.2.2)
  | .batchRemove items => ((f.batchRemove sum32 items).1, .removed (f.batchRemove sum32 items).2)
  | .batchContains items => (f, .bools (f.batchContains sum32 items))
  | .reset => (f.reset, .done)
  | .serialize => (f, .bytes (f.serialize crc32))

namespace CountingBloomFilterWithCache

/-- The head of `Add` and of `Contains`: the indices from the cache, or computed and stored. -/
def lookupIndices (f : CountingBloomFilterWithCache) (now : Time) (item : Bytes) : IndexCache × List Nat :=
  let r := f.cache.get now item
  match r.2 with
  | some indices => (r.1, indices)
  | none =>
    let indices := f.filter.indices sum32 item
    (r.1.put now item indices, indices)

def add (f : CountingBloomFilterWithCache) (now : Time) (item : Bytes) :
    CountingBloomFilterWithCache × Option String :=
  let r := f.lookupIndices sum32 now item
  let counted := addLoop f.filter.counters r.2
  ({ filter := f.filter.withCounters counted.1 (length_addLoop ..), cache := r.1 }, counted.2)

def contains (f : CountingBloomFilterWithCache) (now : Time) (item : Bytes) : CountingBloomFilterWithCache × Bool :=
  let r := f.lookupIndices sum32 now item
  ({ f with cache := r.1 }, containsLoop f.filter.counters r.2)

def remove (f : CountingBloomFilterWithCache) (item : Bytes) : CountingBloomFilterWithCache :=
  { filter := f.filter.remove sum32 item, cache := f.cache.remove item }

/-- The methods with a cache, and those of the embedded filter. -/
def call (f : CountingBloomFilterWithCache) : FilterCall → CountingBloomFilterWithCache × FilterReply
  | .add now item => ((f.add sum32 now item).1, .err (f.add sum32 now item).2)
  | .remove item => (f.remove sum32 item, .done)
  | .contains now item => ((f.contains sum32 now item).1, .bool (f.contains sum32 now item).2)
  | c@(.count _) | c@(.batchAdd _) | c@(.batchRemove _) | c@(.batchContains _) | c@.reset | c@.serialize =>
    let r := f.filter.call sum32 crc32 c
    ({ f with filter := r.1 }, r.2)

/-- The embedded filter is the plain one, and the cache holds its indices. -/
def Represents (f : CountingBloomFilterWithCache) (g : CountingBloomFilter) : Prop :=
  f.filter = g ∧ f.cache.Faithful (g.indices sum32)

variable {sum32 crc32} {f : CountingBloomFilterWithCache}

theorem lookupIndices_spec (h : f.cache.Faithful (f.filter.indices sum32)) (now : Time) (item : Bytes) :
    (f.lookupIndices sum32 now item).1.Faithful (f.filter.indices sum32) ∧
      (f.lookupIndices sum32 now item).2 = f.filter.indices sum32 item := by
  obtain ⟨hcache, hix⟩ := h.get now item
  unfold lookupIndices
  dsimp only
  split
  · rename_i ix hget
    exact ⟨hcache, hix ix hget⟩
  · refine ⟨?_, rfl⟩
    have hput := hcache.put now item (f.filter.indices sum32 item)
    rwa [Function.update_eq_self] at hput

/-- No method changes the shape of the filter, so the indices stay what they are. -/
theorem indices_call (g : CountingBloomFilter) (c : FilterCall) :
    (g.call sum32 crc32 c).1.indices sum32 = g.indices sum32 := by
  cases c with
  | batchRemove items =>
    obtain ⟨hm, hk⟩ := g.batchRemove_shape sum32 items
    funext item
    show getHashIndices sum32 item (g.batchRemove sum32 items).1.m (g.batchRemove sum32 items).1.k = _
    rw [hm, hk]
    rfl
  | _ => rfl

theorem represents_call (f : CountingBloomFilterWithCache) (g : CountingBloomFilter) (c : FilterCall)
    (h : f.Represents sum32 g) :
    (f.call sum32 crc32 c).1.Represents sum32 (g.call sum32 crc32 c).1 ∧
      (f.call sum32 crc32 c).2 = (g.call sum32 crc32 c).2 := by
  obtain ⟨rfl, hcache⟩ := h
  have hindices : ∀ c, (f.filter.call sum32 crc32 c).1.indices sum32 = f.filter.indices sum32 := indices_call f.filter
  cases c with
  | add now item =>
    obtain ⟨hcache', hix⟩ := lookupIndices_spec hcache now item
    have hadd : f.add sum32 now item =
        ({ filter := (f.filter.add sum32 item).1, cache := (f.lookupIndices sum32 now item).1 },
          (f.filter.add sum32 item).2) := by
      unfold add CountingBloomFilter.add
      simp only [hix]
    refine ⟨?_, ?_⟩
    · show (f.add sum32 now item).1.Represents sum32 (f.filter.add sum32 item).1
      rw [hadd]
      exact ⟨rfl, hcache'⟩
    · show FilterReply.err (f.add sum32 now item).2 = .err (f.filter.add sum32 item).2
      rw [hadd]
  | contains now item =>
    obtain ⟨hcache', hix⟩ := lookupIndices_spec hcache now item
    refine ⟨⟨rfl, hcache'⟩, ?_⟩
    show FilterReply.bool (containsLoop f.filter.counters (f.lookupIndices sum32 now item).2) = _
    rw [hix]; rfl
  | remove item => exact ⟨⟨rfl, hcache.remove item⟩, rfl⟩
  | _ => exact ⟨⟨rfl, by rw [hindices]; exact hcache⟩, rfl⟩

variable (sum32 crc32) in
/-- After every call of every sequence of calls the two filters have returned the same and hold the same counters. -/
theorem trace_eq_plain (m k cacheSize : Nat) (calls : List FilterCall) :
    (Run.trace (call sum32 crc32) (newCountingBloomFilterWithCache m k cacheSize) calls).map
        (fun p => (p.1.filter.counters, p.2)) =
      (Run.trace (CountingBloomFilter.call sum32 crc32) (newCountingBloomFilter m k) calls).map
        (fun p => (p.1.counters, p.2)) := by
  have hstart : (newCountingBloomFilterWithCache m k cacheSize).Represents sum32 (newCountingBloomFilter m k) :=
    ⟨rfl, IndexCache.faithful_new cacheSize⟩
  have hrun := Run.trace_simulation (@represents_call sum32 crc32) hstart calls
  refine List.forall₂_eq_eq_eq ▸ List.forall₂_map_left_iff.2 (List.forall₂_map_right_iff.2 (hrun.imp ?_))
  rintro ⟨f, r⟩ ⟨g, r'⟩ ⟨hrep, rfl⟩
  rw [hrep.1]

end CountingBloomFilterWithCache

end DistributedBloomFilter
