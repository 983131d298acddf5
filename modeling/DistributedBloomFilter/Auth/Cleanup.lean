import DistributedBloomFilter.Auth.Replay

/-!
# What a cleanup leaves

`cleanupOldTimestamps` counts the entries before it removes the old ones, and compares this count with
`maxTimestampMapSize`.  So it removes the older half of the entries that are in time also when there are few of them,
if the old ones made the count large, and one half is not enough when there are more than twice as many as allowed
(`cleans_iff`).  It also stores the count in `timestampCount`, where the old entries stay counted
(`counted_iff`).
-/

namespace DistributedBloomFilter

namespace AuthInterceptor

/-- The first second that is in time. -/
def cutoff (now : Time) : Int := (now - maxRequestAge) / 1000000000

/-- The entry has a timestamp, and it is in time. -/
def Unexpired (now : Time) (key : String) : Prop := ∃ e ∈ timestampEntry key, cutoff now ≤ e.timestamp.toInt

instance (now : Time) (key : String) : Decidable (Unexpired now key) :=
  inferInstanceAs (Decidable (∃ e ∈ timestampEntry key, cutoff now ≤ e.timestamp.toInt))

def unexpiredKeys (a : AuthInterceptor) (now : Time) : List String :=
  a.seenRequests.keys.filter fun key => Unexpired now key

/-- Up to the limit exactly the entries in time are left; above it, at most as many as the limit, all in time, and
none older than one in time that was removed. -/
def Cleans (a : AuthInterceptor) (now : Time) (sort : SortSlice) : Prop :=
  if (a.unexpiredKeys now).length ≤ maxTimestampMapSize then
    ∀ key, key ∈ (a.cleanupOldTimestamps now sort).seenRequests ↔ key ∈ a.unexpiredKeys now
  else
    (a.cleanupOldTimestamps now sort).seenRequests.keys.length ≤ maxTimestampMapSize ∧
    (∀ key ∈ (a.cleanupOldTimestamps now sort).seenRequests, key ∈ a.unexpiredKeys now) ∧
    ∀ key ∈ (a.cleanupOldTimestamps now sort).seenRequests, ∀ removed ∈ a.unexpiredKeys now,
      removed ∉ (a.cleanupOldTimestamps now sort).seenRequests →
      ∀ e ∈ timestampEntry key, ∀ r ∈ timestampEntry removed, r.timestamp.toInt ≤ e.timestamp.toInt

/-- Every entry has a timestamp, as those that `validateAPIKeyAuth` stores have. -/
def Readable (a : AuthInterceptor) : Prop := ∀ key ∈ a.seenRequests, timestampEntry key ≠ none

/-- There are not more entries than allowed, old ones included; or no more than one is in time; or more than allowed
are in time, but not more than twice as many. -/
def FewOrHalved (a : AuthInterceptor) (now : Time) : Prop :=
  a.seenRequests.keys.length ≤ maxTimestampMapSize ∨ (a.unexpiredKeys now).length ≤ 1 ∨
    (maxTimestampMapSize < (a.unexpiredKeys now).length ∧ (a.unexpiredKeys now).length ≤ 2 * maxTimestampMapSize)

/-! ### The keys that are left -/

theorem keys_deleteAll (seen : AList fun _ : String => Bool) (entries : List TimestampEntry) :
    (deleteAll seen entries).keys = seen.keys.filter fun key => key ∉ entries.map TimestampEntry.key := by
  induction entries generalizing seen with
  | nil => simp [deleteAll]
  | cons e entries ih =>
    have hstep : deleteAll seen (e :: entries) = deleteAll (seen.erase e.key) entries := rfl
    rw [hstep, ih, AList.keys_erase, seen.keys_nodup.erase_eq_filter, List.filter_filter]
    refine List.filter_congr fun key _ => Bool.eq_iff_iff.2 ?_
    simp only [List.map_cons, List.mem_cons, Bool.and_eq_true, decide_eq_true_eq, bne_iff_ne, not_or]
    exact and_comm

/-- What the cleanup reads of the keys has the keys in it. -/
theorem map_key_filterMap (keys : List String) :
    (keys.filterMap timestampEntry).map TimestampEntry.key = keys.filter fun key => timestampEntry key ≠ none := by
  induction keys with
  | nil => rfl
  | cons key keys ih =>
    cases hentry : timestampEntry key with
    | none => simp [hentry, ih]
    | some e => simp [hentry, ih, key_of_timestampEntry hentry]

/-- A key is among the old ones if its timestamp is before the cutoff. -/
theorem mem_oldEntries_iff {a : AuthInterceptor} {now : Time} {key : String} (hkey : key ∈ a.seenRequests) :
    key ∈ (a.oldEntries now).map TimestampEntry.key ↔ ∃ e ∈ timestampEntry key, e.timestamp.toInt < cutoff now := by
  simp only [oldEntries, List.mem_map, List.mem_filter, List.mem_filterMap, decide_eq_true_eq]
  constructor
  · rintro ⟨e, ⟨⟨keyStr, -, hentry⟩, hold⟩, rfl⟩
    rw [key_of_timestampEntry hentry]
    exact ⟨e, hentry, hold⟩
  · rintro ⟨e, hentry, hold⟩
    exact ⟨e, ⟨⟨key, hkey, hentry⟩, hold⟩, key_of_timestampEntry hentry⟩

/-- After the removal by age the entries in time are left, and those without a timestamp. -/
theorem keys_deleteAll_oldEntries (a : AuthInterceptor) (now : Time) :
    (deleteAll a.seenRequests (a.oldEntries now)).keys =
      a.seenRequests.keys.filter fun key => timestampEntry key = none ∨ Unexpired now key := by
  rw [keys_deleteAll]
  refine List.filter_congr fun key hkey => decide_eq_decide.2 ?_
  rw [mem_oldEntries_iff hkey, Unexpired]
  cases timestampEntry key with
  | none => simp
  | some e => simp

theorem keys_deleteAll_oldEntries_of_readable {a : AuthInterceptor} (hread : a.Readable) (now : Time) :
    (deleteAll a.seenRequests (a.oldEntries now)).keys = a.unexpiredKeys now := by
  rw [keys_deleteAll_oldEntries]
  refine List.filter_congr fun key hkey => decide_eq_decide.2 ?_
  rw [or_iff_right (hread key hkey)]

/-- Removing the first entries of a list with unique keys leaves the keys of the others. -/
theorem filter_map_key_take {entries : List TimestampEntry} (hnodup : (entries.map TimestampEntry.key).Nodup)
    (n : Nat) :
    ((entries.map TimestampEntry.key).filter fun key => key ∉ (entries.take n).map TimestampEntry.key) =
      (entries.drop n).map TimestampEntry.key := by
  have hsplit : entries.map TimestampEntry.key =
      (entries.take n).map TimestampEntry.key ++ (entries.drop n).map TimestampEntry.key := by
    rw [← List.map_append, List.take_append_drop]
  rw [hsplit] at hnodup
  have hapart := (List.nodup_append'.1 hnodup).2.2
  rw [hsplit, List.filter_append, List.filter_eq_nil_iff.2 (by simp), List.nil_append, List.filter_eq_self]
  intro key hkey
  exact decide_eq_true fun htake => hapart htake hkey

/-- The number of entries in time that a cleanup removes, if there are `n` of them. -/
def removedBySize (a : AuthInterceptor) (n : Nat) : Nat :=
  if a.seenRequests.keys.length > maxTimestampMapSize then n / 2 else 0

/-- The entries in time, sorted by their timestamps, lose their first half if there were too many entries at first. -/
theorem cleanupOldTimestamps_spec {a : AuthInterceptor} (hread : a.Readable) (now : Time) (sort : SortSlice) :
    ∃ entries : List TimestampEntry, (entries.map TimestampEntry.key).Perm (a.unexpiredKeys now) ∧
      (∀ e ∈ entries, timestampEntry e.key = some e) ∧
      (entries.Pairwise fun e f => e.timestamp.toInt ≤ f.timestamp.toInt) ∧
      (a.cleanupOldTimestamps now sort).seenRequests.keys.Perm
        ((entries.drop (a.removedBySize (a.unexpiredKeys now).length)).map TimestampEntry.key) := by
  have hsub : ∀ key ∈ a.unexpiredKeys now, timestampEntry key ≠ none :=
    fun key hkey => hread key (List.mem_filter.1 hkey).1
  have hperm := sort.perm ((a.unexpiredKeys now).filterMap timestampEntry)
  have hkeys : ((sort.sort ((a.unexpiredKeys now).filterMap timestampEntry)).map TimestampEntry.key).Perm
      (a.unexpiredKeys now) := by
    refine (hperm.map _).trans (List.Perm.of_eq ?_)
    rw [map_key_filterMap, List.filter_eq_self]
    exact fun key hkey => decide_eq_true (hsub key hkey)
  refine ⟨sort.sort ((a.unexpiredKeys now).filterMap timestampEntry), hkeys, fun e he => ?_, sort.sorted _, ?_⟩
  · obtain ⟨key, -, hentry⟩ := List.mem_filterMap.1 (hperm.mem_iff.1 he)
    rw [key_of_timestampEntry hentry]
    exact hentry
  · have hlen : (sort.sort ((a.unexpiredKeys now).filterMap timestampEntry)).length =
      (a.unexpiredKeys now).length := by
      rw [← hkeys.length_eq, List.length_map]
    have hevicted : a.evictedBySize now sort = (sort.sort ((a.unexpiredKeys now).filterMap timestampEntry)).take
        (a.removedBySize (a.unexpiredKeys now).length) := by
      unfold evictedBySize removedBySize oldestEntries
      rw [keys_deleteAll_oldEntries_of_readable hread]
      dsimp only
      rw [hlen]
      split
      · rfl
      · rw [List.take_zero]
    have hnodup : (a.unexpiredKeys now).Nodup := a.seenRequests.keys_nodup.filter _
    rw [seenRequests_cleanupOldTimestamps, keys_deleteAll, keys_deleteAll_oldEntries_of_readable hread, hevicted]
    exact (hkeys.symm.filter _).trans (List.Perm.of_eq (filter_map_key_take (hkeys.nodup_iff.2 hnodup) _))

/-- A key without a timestamp is never removed. -/
theorem mem_cleanupOldTimestamps_of_none {a : AuthInterceptor} (now : Time) (sort : SortSlice) {key : String}
    (hkey : key ∈ a.seenRequests) (hnone : timestampEntry key = none) :
    key ∈ (a.cleanupOldTimestamps now sort).seenRequests := by
  have hnot : ∀ (keys : List String) (entries : List TimestampEntry),
      (∀ e ∈ entries, e ∈ keys.filterMap timestampEntry) → key ∉ entries.map TimestampEntry.key := by
    intro keys entries hentries hmem
    obtain ⟨e, he, rfl⟩ := List.mem_map.1 hmem
    obtain ⟨keyStr, -, hentry⟩ := List.mem_filterMap.1 (hentries e he)
    rw [key_of_timestampEntry hentry, hentry] at hnone
    cases hnone
  rw [seenRequests_cleanupOldTimestamps, mem_deleteAll, mem_deleteAll]
  refine ⟨⟨hkey, hnot a.seenRequests.keys _ fun e he => (List.mem_filter.1 he).1⟩,
    hnot (deleteAll a.seenRequests (a.oldEntries now)).keys _ fun e he => ?_⟩
  unfold evictedBySize at he
  split at he
  · exact (sort.perm _).mem_iff.1 (List.mem_of_mem_take he)
  · cases he

/-- Every entry that is deleted is one less. -/
theorem length_keys_deleteAll {seen : AList fun _ : String => Bool} {entries : List TimestampEntry}
    (hmem : ∀ e ∈ entries, e.key ∈ seen) (hnodup : (entries.map TimestampEntry.key).Nodup) :
    (deleteAll seen entries).keys.length + entries.length = seen.keys.length := by
  induction entries generalizing seen with
  | nil => rfl
  | cons e entries ih =>
    obtain ⟨he, hmem⟩ := List.forall_mem_cons.1 hmem
    rw [List.map_cons, List.nodup_cons] at hnodup
    have hrest : ∀ f ∈ entries, f.key ∈ seen.erase e.key := by
      intro f hf
      rw [AList.mem_erase]
      exact ⟨fun heq => hnodup.1 (heq ▸ List.mem_map_of_mem hf), hmem f hf⟩
    have hone := List.length_erase_add_one he
    have hstep : deleteAll seen (e :: entries) = deleteAll (seen.erase e.key) entries := rfl
    rw [hstep, List.length_cons, ← Nat.add_assoc, ih hrest hnodup.2, AList.keys_erase, hone]

/-- What the cleanup reads of the keys is deleted once each. -/
private theorem length_keys_deleteAll_of_subperm {seen : AList fun _ : String => Bool} {entries : List TimestampEntry}
    (h : entries.Subperm (seen.keys.filterMap timestampEntry)) :
    (deleteAll seen entries).keys.length + entries.length = seen.keys.length := by
  obtain ⟨part, hperm, hsub⟩ := h
  have hkeys := hsub.map TimestampEntry.key
  rw [map_key_filterMap] at hkeys
  refine length_keys_deleteAll (fun e he => ?_) ?_
  · exact (List.mem_filter.1 (hkeys.subset (List.mem_map_of_mem (hperm.mem_iff.2 he)))).1
  · exact (hperm.map _).nodup_iff.1 ((seen.keys_nodup.filter _).sublist hkeys)

/-- All entries are left, removed by age or removed by size. -/
theorem length_cleanupOldTimestamps_add (a : AuthInterceptor) (now : Time) (sort : SortSlice) :
    (a.cleanupOldTimestamps now sort).seenRequests.keys.length + (a.evictedBySize now sort).length +
      (a.oldEntries now).length = a.seenRequests.keys.length := by
  have hold : (a.oldEntries now).Subperm (a.seenRequests.keys.filterMap timestampEntry) :=
    List.filter_sublist.subperm
  have hsize : (a.evictedBySize now sort).Subperm
      ((deleteAll a.seenRequests (a.oldEntries now)).keys.filterMap timestampEntry) := by
    unfold evictedBySize
    split
    · exact (List.take_sublist _ _).subperm.trans (sort.perm _).subperm
    · exact List.nil_subperm
  rw [seenRequests_cleanupOldTimestamps, length_keys_deleteAll_of_subperm hsize,
    length_keys_deleteAll_of_subperm hold]

/-- The count has what was removed by age still in it. -/
theorem timestampCount_cleanupOldTimestamps (a : AuthInterceptor) (now : Time) (sort : SortSlice) :
    (a.cleanupOldTimestamps now sort).timestampCount =
      (a.cleanupOldTimestamps now sort).seenRequests.keys.length + (a.oldEntries now).length := by
  have hcount : (a.cleanupOldTimestamps now sort).timestampCount =
      a.seenRequests.keys.length - (a.evictedBySize now sort).length := by
    unfold cleanupOldTimestamps evictedBySize
    dsimp only
    split
    · split
      · rfl
      · rename_i hempty
        rw [Nat.le_zero.1 (Nat.not_lt.1 hempty)]
        rfl
    · rfl
  have hadd := length_cleanupOldTimestamps_add a now sort
  omega

theorem oldEntries_eq_nil_iff {a : AuthInterceptor} {now : Time} :
    a.oldEntries now = [] ↔
      ∀ key ∈ a.seenRequests.keys, ∀ e ∈ timestampEntry key, cutoff now ≤ e.timestamp.toInt := by
  simp only [oldEntries, List.filter_eq_nil_iff, List.mem_filterMap, decide_eq_true_eq, not_lt]
  constructor
  · exact fun h key hkey e he => h e ⟨key, hkey, he⟩
  · rintro h e ⟨key, hkey, he⟩
    exact h key hkey e he

/-! ### When it keeps what it must -/

theorem length_cleanupOldTimestamps {a : AuthInterceptor} (hread : a.Readable) (now : Time) (sort : SortSlice) :
    (a.cleanupOldTimestamps now sort).seenRequests.keys.length =
      (a.unexpiredKeys now).length - a.removedBySize (a.unexpiredKeys now).length := by
  obtain ⟨entries, hkeys, -, -, hleft⟩ := cleanupOldTimestamps_spec hread now sort
  rw [hleft.length_eq, List.length_map, List.length_drop, ← hkeys.length_eq, List.length_map]

theorem mem_unexpiredKeys_of_cleanup {a : AuthInterceptor} (hread : a.Readable) {now : Time} {sort : SortSlice}
    {key : String} (hkey : key ∈ (a.cleanupOldTimestamps now sort).seenRequests) : key ∈ a.unexpiredKeys now := by
  obtain ⟨entries, hkeys, -, -, hleft⟩ := cleanupOldTimestamps_spec hread now sort
  have hdrop := hleft.mem_iff.1 hkey
  rw [List.map_drop] at hdrop
  exact hkeys.mem_iff.1 (List.mem_of_mem_drop hdrop)

/-- What is left is not older than what is removed of the entries in time. -/
theorem timestamp_le_of_removed {a : AuthInterceptor} (hread : a.Readable) {now : Time} {sort : SortSlice}
    {key removed : String} (hkey : key ∈ (a.cleanupOldTimestamps now sort).seenRequests)
    (hremoved : removed ∈ a.unexpiredKeys now) (hgone : removed ∉ (a.cleanupOldTimestamps now sort).seenRequests)
    {e r : TimestampEntry} (he : timestampEntry key = some e) (hr : timestampEntry removed = some r) :
    r.timestamp.toInt ≤ e.timestamp.toInt := by
  obtain ⟨entries, hkeys, hentries, hsorted, hleft⟩ := cleanupOldTimestamps_spec hread now sort
  generalize a.removedBySize (a.unexpiredKeys now).length = n at hleft
  obtain ⟨e', he', rfl⟩ := List.mem_map.1 (hleft.mem_iff.1 hkey)
  obtain ⟨r', hr', rfl⟩ := List.mem_map.1 (hkeys.mem_iff.2 hremoved)
  rw [hentries e' (List.mem_of_mem_drop he')] at he
  rw [hentries r' hr'] at hr
  obtain rfl := Option.some.inj he
  obtain rfl := Option.some.inj hr
  have hfirst : r' ∈ entries.take n := by
    rw [← List.take_append_drop n entries, List.mem_append] at hr'
    exact hr'.resolve_right fun hdrop => hgone (hleft.mem_iff.2 (List.mem_map_of_mem hdrop))
  rw [← List.take_append_drop n entries, List.pairwise_append] at hsorted
  exact hsorted.2.2 r' hfirst e' he'

theorem cleans_of_fewOrHalved {a : AuthInterceptor} {now : Time} (hread : a.Readable) (h : a.FewOrHalved now)
    (sort : SortSlice) : a.Cleans now sort := by
  have hlen := length_cleanupOldTimestamps hread now sort
  have hmem : ∀ key, key ∈ (a.cleanupOldTimestamps now sort).seenRequests → key ∈ a.unexpiredKeys now :=
    fun key => mem_unexpiredKeys_of_cleanup hread
  unfold Cleans
  split
  · rename_i hfew
    -- nothing is removed by size, so as many entries are left as are in time
    have hzero : a.removedBySize (a.unexpiredKeys now).length = 0 := by
      unfold removedBySize
      split
      · rename_i hmany
        rcases h with hle | hone | hhalved
        · exact absurd hle (Nat.not_le.2 hmany)
        · omega
        · exact absurd hhalved.1 (Nat.not_lt.2 hfew)
      · rfl
    rw [hzero, Nat.sub_zero] at hlen
    have hperm : (a.cleanupOldTimestamps now sort).seenRequests.keys.Perm (a.unexpiredKeys now) :=
      (List.subperm_of_subset (AList.keys_nodup _) hmem).perm_of_length_le hlen.ge
    exact fun key => hperm.mem_iff
  · rename_i hmany
    refine ⟨?_, fun key hkey => hmem key hkey, fun key hkey removed hremoved hgone e he r hr =>
      timestamp_le_of_removed hread hkey hremoved hgone he hr⟩
    have htotal : (a.unexpiredKeys now).length ≤ a.seenRequests.keys.length := List.length_filter_le ..
    have htwice : (a.unexpiredKeys now).length ≤ 2 * maxTimestampMapSize := by
      have hmax : 1 ≤ maxTimestampMapSize := by decide
      rcases h with hle | hone | hhalved
      · omega
      · omega
      · exact hhalved.2
    rw [hlen, removedBySize, if_pos (by omega)]
    omega

theorem readable_of_cleans {a : AuthInterceptor} {now : Time} {sort : SortSlice} (h : a.Cleans now sort) :
    a.Readable := by
  intro key hkey hnone
  have hstays := mem_cleanupOldTimestamps_of_none now sort hkey hnone
  have htime : key ∈ a.unexpiredKeys now := by
    unfold Cleans at h
    split at h
    · exact (h key).1 hstays
    · exact h.2.1 key hstays
  obtain ⟨e, he, -⟩ := of_decide_eq_true (List.mem_filter.1 htime).2
  rw [hnone] at he
  cases he

theorem fewOrHalved_of_cleans {a : AuthInterceptor} {now : Time} {sort : SortSlice} (h : a.Cleans now sort) :
    a.FewOrHalved now := by
  have hlen := length_cleanupOldTimestamps (readable_of_cleans h) now sort
  by_cases htotal : a.seenRequests.keys.length ≤ maxTimestampMapSize
  · exact .inl htotal
  rw [removedBySize, if_pos (Nat.not_le.1 htotal)] at hlen
  unfold Cleans at h
  split at h
  · -- all entries in time are left, so half of them is none
    have hsub : (a.unexpiredKeys now).length ≤ (a.cleanupOldTimestamps now sort).seenRequests.keys.length := by
      have hnodup : (a.unexpiredKeys now).Nodup := a.seenRequests.keys_nodup.filter _
      exact (List.subperm_of_subset hnodup fun key hkey => (h key).2 hkey).length_le
    exact .inr (.inl (by omega))
  · rename_i hmany
    exact .inr (.inr ⟨by omega, by omega⟩)

/-- A cleanup keeps what it must and bounds what it keeps exactly when the count of all entries does not mislead
it. -/
theorem cleans_iff (a : AuthInterceptor) (now : Time) (sort : SortSlice) :
    a.Cleans now sort ↔ a.Readable ∧ a.FewOrHalved now :=
  ⟨fun h => ⟨readable_of_cleans h, fewOrHalved_of_cleans h⟩, fun h => cleans_of_fewOrHalved h.1 h.2 sort⟩

end AuthInterceptor

namespace ReplayRun

/-! ### Many old entries and two in time -/

/-- The interceptor after a request and `n` later ones. -/
def crowded (n : Nat) : AuthInterceptor :=
  (Run.exec step (start keyInterceptor floodTime)
    ((victim :: (List.range n).map later).map fun auth => .call floodTime auth "/m")).interceptor

theorem keys_crowded {n : Nat} (hn : n < 2 ^ 32) :
    (crowded n).seenRequests.keys = ((victim :: (List.range n).map later).map requestKey).reverse := by
  have hempty : ∀ auth ∈ victim :: (List.range n).map later,
      requestKey auth ∉ (start keyInterceptor floodTime).interceptor.seenRequests :=
    fun auth _ => AList.notMem_empty _
  have hfresh : ∀ auth ∈ victim :: (List.range n).map later,
      Fresh ⟨AList.singleton "k" "s"⟩ floodTime auth := fresh_flood rfl hn
  have hkeys := @keys_exec_calls _ _ "/m" _ hfresh (nodup_flood hn) _ rfl hempty
  exact hkeys.2.trans (List.append_nil _)

/-- The time at which all but the last two of `m + 3` requests are old. -/
def lateTime (m : Nat) : Time := (1700000301 + m : Nat) * 1000000000

theorem unexpired_requestKey_iff {m : Nat} {auth : APIMetadata} :
    AuthInterceptor.Unexpired (lateTime m) (requestKey auth) ↔ 1700000001 + m ≤ auth.timestamp.toInt := by
  have hcutoff : AuthInterceptor.cutoff (lateTime m) = 1700000001 + m := by
    delta AuthInterceptor.cutoff lateTime maxRequestAge Time
    omega
  rw [AuthInterceptor.Unexpired, requestKey, timestampEntry_replayKey, hcutoff]
  simp

theorem length_unexpiredKeys_crowded {m : Nat} (hm : m + 2 < 2 ^ 32) :
    ((crowded (m + 2)).unexpiredKeys (lateTime m)).length = 2 := by
  have hold : ∀ auth ∈ victim :: (List.range m).map later,
      ¬ AuthInterceptor.Unexpired (lateTime m) (requestKey auth) := by
    intro auth hauth
    rw [unexpired_requestKey_iff]
    rcases List.mem_cons.1 hauth with rfl | hauth
    · rw [toInt_victim]
      omega
    · obtain ⟨i, hi, rfl⟩ := List.mem_map.1 hauth
      rw [List.mem_range] at hi
      rw [toInt_later (by omega)]
      omega
  have hnew : ∀ i, m ≤ i → i < 2 ^ 32 → AuthInterceptor.Unexpired (lateTime m) (requestKey (later i)) := by
    intro i hi hlt
    rw [unexpired_requestKey_iff, toInt_later hlt]
    omega
  have hlist : victim :: (List.range (m + 2)).map later =
      (victim :: (List.range m).map later) ++ [later m, later (m + 1)] := by
    simp [List.range_succ]
  rw [AuthInterceptor.unexpiredKeys, keys_crowded hm, List.filter_reverse, List.length_reverse, hlist,
    List.map_append, List.filter_append, List.filter_eq_nil_iff.2, List.nil_append]
  · simp [hnew m (Nat.le_refl m) (by omega), hnew (m + 1) (Nat.le_succ m) (by omega)]
  · intro key hkey
    obtain ⟨auth, hauth, rfl⟩ := List.mem_map.1 hkey
    simpa using hold auth hauth

theorem not_fewOrHalved_crowded {m : Nat} (hmax : maxTimestampMapSize ≤ m + 2) (hm : m + 2 < 2 ^ 32) :
    ¬ (crowded (m + 2)).FewOrHalved (lateTime m) := by
  have htotal : (crowded (m + 2)).seenRequests.keys.length = m + 3 := by
    rw [keys_crowded hm]
    simp
  have htwo := length_unexpiredKeys_crowded hm
  have hsize : 2 ≤ maxTimestampMapSize := by decide
  unfold AuthInterceptor.FewOrHalved
  rw [htotal, htwo]
  omega

/-- Of two requests in time, with as many old ones as make the count too large, one is forgotten. -/
theorem not_cleans_crowded :
    ((crowded maxTimestampMapSize).unexpiredKeys (lateTime (maxTimestampMapSize - 2))).length = 2 ∧
      ¬ (crowded maxTimestampMapSize).Cleans (lateTime (maxTimestampMapSize - 2)) stableSort := by
  have hmax : maxTimestampMapSize - 2 + 2 = maxTimestampMapSize := by decide
  have hlt : maxTimestampMapSize - 2 + 2 < 2 ^ 32 := by decide
  have htwo := length_unexpiredKeys_crowded hlt
  have hnot := not_fewOrHalved_crowded hmax.ge hlt
  rw [hmax] at htwo hnot
  exact ⟨htwo, mt AuthInterceptor.fewOrHalved_of_cleans hnot⟩

/-! ### The count of the entries -/

/-- `timestampCount` is the number of entries. -/
def Counted (s : ReplayRun) : Prop := s.interceptor.timestampCount = s.interceptor.seenRequests.keys.length

instance (s : ReplayRun) : Decidable s.Counted := inferInstanceAs (Decidable (_ = _))

/-- A cleanup finds no entry that is too old. -/
def NoneExpired (s : ReplayRun) : Event → Prop
  | .call .. => True
  | .cleanup now _ => ∀ key ∈ s.interceptor.seenRequests.keys, ∀ e ∈ timestampEntry key,
      AuthInterceptor.cutoff now ≤ e.timestamp.toInt

instance : ∀ (s : ReplayRun) (e : Event), Decidable (s.NoneExpired e)
  | _, .call .. => .isTrue trivial
  | s, .cleanup now _ =>
    inferInstanceAs (Decidable (∀ key ∈ s.interceptor.seenRequests.keys, ∀ e ∈ timestampEntry key,
      AuthInterceptor.cutoff now ≤ e.timestamp.toInt))

theorem counted_call {s : ReplayRun} (h : s.Counted) (now : Time) (auth : APIMetadata) (method : String) :
    (s.step (.call now auth method)).Counted := by
  unfold Counted at h ⊢
  simp only [step]
  rcases s.interceptor.validateAPIKeyAuth_spec now auth method with ⟨hpasses, hstored, -⟩ | ⟨-, failure, hfailed⟩
  · rw [hstored]
    dsimp only
    rw [AList.keys_insert, List.erase_of_not_mem hpasses.unseen, List.length_cons, h]
  · rw [hfailed]
    exact h

theorem counted_cleanup_iff (s : ReplayRun) (now : Time) (sort : SortSlice) :
    (s.step (.cleanup now sort)).Counted ↔ s.NoneExpired (.cleanup now sort) := by
  have hcount := s.interceptor.timestampCount_cleanupOldTimestamps now sort
  unfold Counted NoneExpired
  simp only [step]
  rw [hcount, Nat.add_eq_left, List.length_eq_zero_iff, AuthInterceptor.oldEntries_eq_nil_iff]

theorem counted_start {env : AuthEnv} {config : AuthConfig} {a : AuthInterceptor}
    (hnew : newAuthInterceptor env config = .ok a) (clock : Time) : (start a clock).Counted := by
  unfold newAuthInterceptor at hnew
  cases hca : loadCACert env config with
  | error failure =>
    rw [hca] at hnew
    cases hnew
  | ok caCert =>
    rw [hca] at hnew
    obtain rfl := Except.ok.inj hnew
    rfl

/-- The count is right all along a run exactly when no cleanup of it finds an entry that is too old. -/
theorem counted_iff {env : AuthEnv} {config : AuthConfig} {a : AuthInterceptor}
    (hnew : newAuthInterceptor env config = .ok a) (clock : Time) (es : List Event) :
    (∀ before after, es = before ++ after → (Run.exec step (start a clock) before).Counted) ↔
      Run.Admits step NoneExpired (start a clock) es := by
  refine Run.forall_exec_iff_admits (fun s e hs => ?_) (counted_start hnew clock)
  cases e with
  | call now auth method => exact iff_of_true (counted_call hs now auth method) trivial
  | cleanup now sort => exact counted_cleanup_iff s now sort

/-- A request and a cleanup at the same time. -/
theorem counted_same_time :
    newAuthInterceptor AuthInterceptor.offlineEnv keyConfig = .ok keyInterceptor ∧
    ∀ before after, [.call floodTime victim "/m", .cleanup floodTime stableSort] = before ++ after →
      (Run.exec step (start keyInterceptor floodTime) before).Counted :=
  ⟨rfl, (@counted_iff AuthInterceptor.offlineEnv keyConfig _ rfl floodTime _).2 ⟨trivial, by decide +kernel, trivial⟩⟩

/-- A request and a cleanup six minutes later: one entry is counted, and none is there. -/
theorem not_counted_six_minutes :
    newAuthInterceptor AuthInterceptor.offlineEnv keyConfig = .ok keyInterceptor ∧
    (Run.exec step (start keyInterceptor floodTime) (sampleRun.take 2)).interceptor.timestampCount = 1 ∧
    (Run.exec step (start keyInterceptor floodTime) (sampleRun.take 2)).interceptor.seenRequests.keys = [] := by
  -- one evaluation of the run for both
  have h : ((Run.exec step (start keyInterceptor floodTime) (sampleRun.take 2)).interceptor.timestampCount,
      (Run.exec step (start keyInterceptor floodTime) (sampleRun.take 2)).interceptor.seenRequests.keys) =
        (1, []) := by
    decide +kernel
  exact ⟨rfl, Prod.mk.inj h⟩

end ReplayRun

end DistributedBloomFilter
