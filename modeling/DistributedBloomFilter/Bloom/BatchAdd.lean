import DistributedBloomFilter.Bloom.Outstanding

/-!
# What `BatchAdd` does to the counters

`BatchAdd` looks for a full counter among the indices of an item before it increments any of them.  When an index
occurs twice in one item, a counter at 254 passes the first pass and is taken past 255 by the second one.  The batch
is accounted for exactly (`BatchAccounts`) if and only if this happens at no item of it (`BatchFits`).
-/

namespace DistributedBloomFilter

namespace CountingBloomFilter

variable (sum32 : Bytes → UInt32)

/-! ### A batch item by item -/

private theorem foldl_batchAddStep (m k : Nat) (items : List Bytes) (b : BatchState) :
    items.foldl (batchAddStep sum32 m k) b =
      { counters := (items.foldl (batchAddStep sum32 m k) ⟨b.counters, 0, 0, []⟩).counters
        successCount := b.successCount + (items.foldl (batchAddStep sum32 m k) ⟨b.counters, 0, 0, []⟩).successCount
        failureCount := b.failureCount + (items.foldl (batchAddStep sum32 m k) ⟨b.counters, 0, 0, []⟩).failureCount
        errors := b.errors ++ (items.foldl (batchAddStep sum32 m k) ⟨b.counters, 0, 0, []⟩).errors } := by
  induction items generalizing b with
  | nil => simp
  | cons item items ih =>
    rw [List.foldl_cons, List.foldl_cons, ih (batchAddStep sum32 m k b item),
      ih (batchAddStep sum32 m k ⟨b.counters, 0, 0, []⟩ item)]
    unfold batchAddStep
    by_cases h : overflowLoop b.counters (getHashIndices sum32 item m k) <;> simp [h, Nat.add_assoc]

/-- A batch in two parts: the second part runs on the filter the first one leaves. -/
theorem batchAdd_append (f : CountingBloomFilter) (xs ys : List Bytes) :
    f.batchAdd sum32 (xs ++ ys) =
      (((f.batchAdd sum32 xs).1.batchAdd sum32 ys).1,
        (f.batchAdd sum32 xs).2.1 + ((f.batchAdd sum32 xs).1.batchAdd sum32 ys).2.1,
        (f.batchAdd sum32 xs).2.2.1 + ((f.batchAdd sum32 xs).1.batchAdd sum32 ys).2.2.1,
        (f.batchAdd sum32 xs).2.2.2 ++ ((f.batchAdd sum32 xs).1.batchAdd sum32 ys).2.2.2) := by
  have h : f.batchAddState sum32 (xs ++ ys) = _ :=
    List.foldl_append.trans (foldl_batchAddStep sum32 f.m f.k ys (f.batchAddState sum32 xs))
  simp only [batchAdd, h]
  rfl

theorem batchAdd_full {f : CountingBloomFilter} {item : Bytes}
    (h : overflowLoop f.counters (f.indices sum32 item) = true) :
    f.batchAdd sum32 [item] = (f, 0, 1, [ErrCounterOverflow]) := by
  have hs : f.batchAddState sum32 [item] = ⟨f.counters, 0, 1, [ErrCounterOverflow]⟩ :=
    (if_pos h : batchAddStep sum32 f.m f.k ⟨f.counters, 0, 0, []⟩ item = _)
  simp only [batchAdd, hs]
  rfl

theorem batchAdd_room {f : CountingBloomFilter} {item : Bytes}
    (h : overflowLoop f.counters (f.indices sum32 item) = false) :
    f.batchAdd sum32 [item] =
      (f.withCounters (incrementLoop f.counters (f.indices sum32 item)) (length_incrementLoop ..), 1, 0, [""]) := by
  have hs : f.batchAddState sum32 [item] =
      ⟨incrementLoop f.counters (f.indices sum32 item), 1, 0, [""]⟩ :=
    (if_neg (Bool.not_eq_true _ ▸ h) : batchAddStep sum32 f.m f.k ⟨f.counters, 0, 0, []⟩ item = _)
  simp only [batchAdd, hs]

theorem batchAdd_counts (f : CountingBloomFilter) (items : List Bytes) :
    (f.batchAdd sum32 items).2.1 + (f.batchAdd sum32 items).2.2.1 = items.length ∧
      (f.batchAdd sum32 items).2.2.2.length = items.length := by
  induction items generalizing f with
  | nil => exact ⟨rfl, rfl⟩
  | cons item items ih =>
    have ih' := ih (f.batchAdd sum32 [item]).1
    rw [show item :: items = [item] ++ items from rfl, batchAdd_append]
    cases h : overflowLoop f.counters (f.indices sum32 item) with
    | true =>
      rw [batchAdd_full sum32 h] at ih' ⊢
      simp only [List.length_append, List.length_singleton] at ih' ⊢
      omega
    | false =>
      rw [batchAdd_room sum32 h] at ih' ⊢
      simp only [List.length_append, List.length_singleton] at ih' ⊢
      omega

/-! ### When the batch is accounted for -/

/-- The item is reported as failed, or every counter has room for all the occurrences of its index in the item. -/
def NoWrap (c : Nat → Nat) (ix : List Nat) : Prop :=
  (∃ i ∈ ix, 255 ≤ c i) ∨ ∀ i ∈ ix, c i + ix.count i ≤ 255

/-- The condition on a batch, in exact arithmetic: counting along the batch, an item none of whose counters is full
finds room in each of them for all the occurrences of its index. -/
def BatchFits (indices : Bytes → List Nat) : (Nat → Nat) → List Bytes → Prop
  | _, [] => True
  | c, item :: items =>
    if ∃ i ∈ indices item, 255 ≤ c i then BatchFits indices c items
    else (∀ i ∈ indices item, c i + (indices item).count i ≤ 255) ∧
      BatchFits indices (fun j => c j + (indices item).count j) items

instance BatchFits.decidable (indices : Bytes → List Nat) :
    ∀ (c : Nat → Nat) (items : List Bytes), Decidable (BatchFits indices c items)
  | _, [] => .isTrue trivial
  | c, item :: items =>
    have := BatchFits.decidable indices c items
    have := BatchFits.decidable indices (fun j => c j + (indices item).count j) items
    inferInstanceAs (Decidable (if ∃ i ∈ indices item, 255 ≤ c i then BatchFits indices c items
      else (∀ i ∈ indices item, c i + (indices item).count i ≤ 255) ∧
        BatchFits indices (fun j => c j + (indices item).count j) items))

/-- What is asked of `BatchAdd`: it counts every item as a success or a failure, an item with an empty error raises
every counter by the number of occurrences of its index, an item with an error changes nothing, and no counter gets
smaller. -/
def BatchAccounts (f : CountingBloomFilter) (items : List Bytes) : Prop :=
  (f.batchAdd sum32 items).2.1 + (f.batchAdd sum32 items).2.2.1 = items.length ∧
  (∀ before item after, items = before ++ item :: after →
    ∃ e, (f.batchAdd sum32 items).2.2.2[before.length]? = some e ∧
      (e = "" → ∀ j, counterAt (f.batchAdd sum32 (before ++ [item])).1.counters j =
        counterAt (f.batchAdd sum32 before).1.counters j + (f.indices sum32 item).count j) ∧
      (e ≠ "" → (f.batchAdd sum32 (before ++ [item])).1 = (f.batchAdd sum32 before).1)) ∧
  ∀ j, counterAt f.counters j ≤ counterAt (f.batchAdd sum32 items).1.counters j

variable {sum32} {f : CountingBloomFilter}

theorem overflowLoop_eq_false {c : List UInt8} {ix : List Nat} (h : ¬ ∃ i ∈ ix, 255 ≤ counterAt c i) :
    overflowLoop c ix = false := by
  rw [← Bool.not_eq_true]
  exact fun ho => h (overflowLoop_iff.1 ho)

/-- One item with room raises every counter exactly. -/
theorem counterAt_batchAdd_room (hm : 2 ≤ f.m) {item : Bytes}
    (hfull : ¬ ∃ i ∈ f.indices sum32 item, 255 ≤ counterAt f.counters i)
    (hroom : ∀ i ∈ f.indices sum32 item, counterAt f.counters i + (f.indices sum32 item).count i ≤ 255) (j : Nat) :
    counterAt (f.batchAdd sum32 [item]).1.counters j =
      counterAt f.counters j + (f.indices sum32 item).count j := by
  rw [batchAdd_room sum32 (overflowLoop_eq_false hfull)]
  show counterAt (incrementLoop _ _) j = _
  rw [counterAt_incrementLoop (lt_length_of_mem_indices sum32 hm item)]
  apply Nat.mod_eq_of_lt
  by_cases hj : j ∈ f.indices sum32 item
  · have := hroom j hj
    omega
  · rw [List.count_eq_zero_of_not_mem hj]
    exact counterAt_lt f.counters j

/-- The error of the item after `before`, read off the whole batch. -/
private theorem batchAdd_error (before : List Bytes) (item : Bytes) (after : List Bytes) :
    (f.batchAdd sum32 (before ++ item :: after)).2.2.2[before.length]? =
      ((f.batchAdd sum32 before).1.batchAdd sum32 [item]).2.2.2[0]? := by
  have hlen := (batchAdd_counts sum32 f before).2
  have hone := (batchAdd_counts sum32 (f.batchAdd sum32 before).1 [item]).2
  rw [batchAdd_append, List.getElem?_append_right (by omega), hlen, Nat.sub_self,
    show item :: after = [item] ++ after from rfl, batchAdd_append, List.getElem?_append_left]
  rw [hone]; exact Nat.zero_lt_one

private theorem noWrap_of_raises {item : Bytes}
    (h : ((f.batchAdd sum32 [item]).2.2.2[0]? = some "") → ∀ j, counterAt (f.batchAdd sum32 [item]).1.counters j =
      counterAt f.counters j + (f.indices sum32 item).count j) :
    NoWrap (counterAt f.counters) (f.indices sum32 item) := by
  by_cases hfull : ∃ i ∈ f.indices sum32 item, 255 ≤ counterAt f.counters i
  · exact .inl hfull
  · right
    intro i _
    have hi := h (by rw [batchAdd_room sum32 (overflowLoop_eq_false hfull)]; rfl) i
    have := counterAt_lt (f.batchAdd sum32 [item]).1.counters i
    omega

/-- The condition on the whole batch says `NoWrap` of every item, in the state in which its turn comes. -/
theorem batchFits_iff (hm : 2 ≤ f.m) (items : List Bytes) :
    BatchFits (f.indices sum32) (counterAt f.counters) items ↔
      ∀ before item after, items = before ++ item :: after →
        NoWrap (counterAt (f.batchAdd sum32 before).1.counters) (f.indices sum32 item) := by
  induction items generalizing f with
  | nil => simp [BatchFits]
  | cons x items ih =>
    obtain ⟨g, hg⟩ : ∃ g, g = (f.batchAdd sum32 [x]).1 := ⟨_, rfl⟩
    have hcons : ∀ before, (f.batchAdd sum32 (x :: before)).1 = (g.batchAdd sum32 before).1 := by
      intro before
      rw [show x :: before = [x] ++ before from rfl, batchAdd_append, hg]
    have hindices : g.indices sum32 = f.indices sum32 := by rw [hg]; rfl
    have hm' : 2 ≤ g.m := by rw [hg]; exact hm
    have hrest := ih hm'
    rw [hindices] at hrest
    rw [Run.forall_split_cons, BatchFits]
    simp only [hcons]
    rw [← hrest]
    by_cases hfull : ∃ i ∈ f.indices sum32 x, 255 ≤ counterAt f.counters i
    · have hsame : g = f := by rw [hg, batchAdd_full sum32 (overflowLoop_iff.2 hfull)]
      rw [if_pos hfull, hsame]
      exact ⟨fun h => ⟨.inl hfull, h⟩, fun h => h.2⟩
    · have hcount : (∀ i ∈ f.indices sum32 x, counterAt f.counters i + (f.indices sum32 x).count i ≤ 255) →
          counterAt g.counters = fun j => counterAt f.counters j + (f.indices sum32 x).count j := by
        intro hroom
        rw [hg]
        exact funext (counterAt_batchAdd_room hm hfull hroom)
      rw [if_neg hfull]
      constructor
      · rintro ⟨hroom, h⟩
        rw [← hcount hroom] at h
        exact ⟨.inr hroom, h⟩
      · rintro ⟨hx, h⟩
        have hroom := hx.resolve_left hfull
        rw [hcount hroom] at h
        exact ⟨hroom, h⟩

private theorem counterAt_le_batchAdd (hm : 2 ≤ f.m) {items : List Bytes}
    (h : BatchFits (f.indices sum32) (counterAt f.counters) items) (j : Nat) :
    counterAt f.counters j ≤ counterAt (f.batchAdd sum32 items).1.counters j := by
  induction items generalizing f with
  | nil => exact Nat.le_refl _
  | cons x items ih =>
    rw [show x :: items = [x] ++ items from rfl, batchAdd_append]
    rw [BatchFits] at h
    split at h
    · rename_i hfull
      rw [batchAdd_full sum32 (overflowLoop_iff.2 hfull)]
      exact ih hm h
    · rename_i hfull
      have hx := counterAt_batchAdd_room hm hfull h.1
      rw [← funext hx] at h
      have := ih (f := (f.batchAdd sum32 [x]).1) hm h.2
      rw [hx] at this
      show _ ≤ counterAt ((f.batchAdd sum32 [x]).1.batchAdd sum32 items).1.counters j
      omega

/-- `BatchAdd` accounts for a batch exactly when no item of it wraps a counter. -/
theorem batchAccounts_iff_batchFits (hm : 2 ≤ f.m) (items : List Bytes) :
    BatchAccounts sum32 f items ↔ BatchFits (f.indices sum32) (counterAt f.counters) items := by
  constructor
  · rintro ⟨_, hitem, _⟩
    rw [batchFits_iff hm]
    intro before item after e
    obtain ⟨err, herr, hok, _⟩ := hitem before item after e
    rw [e, batchAdd_error] at herr
    have hraises := hok
    rw [batchAdd_append] at hraises
    exact noWrap_of_raises (f := (f.batchAdd sum32 before).1)
      (fun h => hraises (Option.some.inj (herr.symm.trans h)))
  · intro hfits
    refine ⟨(batchAdd_counts sum32 f items).1, fun before item after e => ?_, counterAt_le_batchAdd hm hfits⟩
    have hwrap := (batchFits_iff hm items).1 hfits before item after e
    rw [e, batchAdd_error, batchAdd_append]
    by_cases hfull : ∃ i ∈ (f.batchAdd sum32 before).1.indices sum32 item,
        255 ≤ counterAt (f.batchAdd sum32 before).1.counters i
    · refine ⟨ErrCounterOverflow, ?_, fun h => absurd h (by decide), fun _ => ?_⟩
      · rw [batchAdd_full sum32 (overflowLoop_iff.2 hfull)]; rfl
      · rw [batchAdd_full sum32 (overflowLoop_iff.2 hfull)]
    · refine ⟨"", ?_, fun _ => ?_, fun h => absurd rfl h⟩
      · rw [batchAdd_room sum32 (overflowLoop_eq_false hfull)]; rfl
      · exact counterAt_batchAdd_room (f := (f.batchAdd sum32 before).1) hm hfull (hwrap.resolve_left hfull)

theorem batchAccounts_two_items :
    BatchAccounts Murmur3.sum32 (newCountingBloomFilter 2 3) [[97], [98]] :=
  (batchAccounts_iff_batchFits (by decide) [[97], [98]]).2 (by decide +kernel)

/-- With two counters and three hash functions the indices of an item are `[0, 1, 0]` or `[1, 0, 1]`.  After 127
`Add`s of the item `a` the counters are 254 and 127; `BatchAdd` of one more takes the first one to 0. -/
theorem batchAdd_wraps :
    ¬ BatchAccounts Murmur3.sum32 { m := 2, k := 3, counters := [254, 127], length_counters := rfl } [[97]] := by
  rintro ⟨_, _, hle⟩
  exact absurd (hle 0) (by decide +kernel)

end CountingBloomFilter

end DistributedBloomFilter
