import DistributedBloomFilter.Bloom.BatchAdd

/-!
# `BatchAdd` and `Add` one by one

`BatchAdd` looks at all the counters of an item and then increments; `Add` increments until it meets a full counter
and leaves the increments made so far.  The two agree on a list of items if and only if at every item the first
counter is full already, so that neither changes anything, or all counters have room for all the occurrences of their
indices (`AddsFit`).  That nothing else makes them agree is because the counters of `Add` stay above those of
`BatchAdd` as long as the errors are the same, and the gap never gets smaller again.

Whether all items of a list can be added is a matter of capacity: each counter must have room for the load of the
whole list (`allAdded_iff`), and so the order of the items does not matter.
-/

namespace DistributedBloomFilter

namespace CountingBloomFilter

variable (sum32 : Bytes → UInt32)

/-- `Add` of the items one after the other, with what each call returned. -/
def addEach : CountingBloomFilter → List Bytes → CountingBloomFilter × List (Option String)
  | f, [] => (f, [])
  | f, item :: items =>
    let r := f.add sum32 item
    let rest := addEach r.1 items
    (rest.1, r.2 :: rest.2)

/-- The items with an error are those whose `Add` returned `ErrCounterOverflow`. -/
def SameErrors (errors : List String) (results : List (Option String)) : Prop :=
  List.Forall₂ (fun e r => e ≠ "" ↔ r = some ErrCounterOverflow) errors results

/-- `BatchAdd` leaves the counters and reports the errors of `Add` one by one. -/
def AgreesWithAdd (f : CountingBloomFilter) (items : List Bytes) : Prop :=
  (f.batchAdd sum32 items).1.counters = (f.addEach sum32 items).1.counters ∧
    SameErrors (f.batchAdd sum32 items).2.2.2 (f.addEach sum32 items).2

/-- The condition on a list of items, in exact arithmetic: the first counter of an item is full, or all of them have
room. -/
def AddsFit (indices : Bytes → List Nat) : (Nat → Nat) → List Bytes → Prop
  | _, [] => True
  | c, item :: items =>
    if ∃ i ∈ (indices item).head?, 255 ≤ c i then AddsFit indices c items
    else (∀ i ∈ indices item, c i + (indices item).count i ≤ 255) ∧
      AddsFit indices (fun j => c j + (indices item).count j) items

instance AddsFit.decidable (indices : Bytes → List Nat) :
    ∀ (c : Nat → Nat) (items : List Bytes), Decidable (AddsFit indices c items)
  | _, [] => .isTrue trivial
  | c, item :: items =>
    have := AddsFit.decidable indices c items
    have := AddsFit.decidable indices (fun j => c j + (indices item).count j) items
    inferInstanceAs (Decidable (if ∃ i ∈ (indices item).head?, 255 ≤ c i then AddsFit indices c items
      else (∀ i ∈ indices item, c i + (indices item).count i ≤ 255) ∧
        AddsFit indices (fun j => c j + (indices item).count j) items))

variable {sum32} {f : CountingBloomFilter}

/-! ### One item -/

/-- The error `BatchAdd` reports for an item. -/
private def batchError (c : List UInt8) (ix : List Nat) : String :=
  if overflowLoop c ix then ErrCounterOverflow else ""

variable (sum32) in
private theorem batchAdd_cons (f : CountingBloomFilter) (x : Bytes) (items : List Bytes) :
    (f.batchAdd sum32 (x :: items)).1 = ((f.batchAdd sum32 [x]).1.batchAdd sum32 items).1 ∧
      (f.batchAdd sum32 (x :: items)).2.2.2 = batchError f.counters (f.indices sum32 x) ::
        ((f.batchAdd sum32 [x]).1.batchAdd sum32 items).2.2.2 := by
  rw [show x :: items = [x] ++ items from rfl, batchAdd_append]
  refine ⟨rfl, ?_⟩
  unfold batchError
  cases h : overflowLoop f.counters (f.indices sum32 x) with
  | true => rw [batchAdd_full sum32 h]; rfl
  | false => rw [batchAdd_room sum32 h]; rfl

private theorem overflow_of_batchError {c : List UInt8} {ix : List Nat} (h : batchError c ix ≠ "") :
    overflowLoop c ix = true := by
  by_contra hno
  rw [batchError, if_neg hno] at h
  exact h rfl

/-- An item none of whose counters is too full for it is not reported by `BatchAdd`, and none is full. -/
private theorem not_full_of_room {c : List UInt8} {ix : List Nat}
    (hroom : ∀ i ∈ ix, counterAt c i + ix.count i ≤ 255) : ¬ ∃ i ∈ ix, 255 ≤ counterAt c i := by
  rintro ⟨i, hi, hfull⟩
  have := hroom i hi
  have := List.count_pos_iff.2 hi
  omega

/-- When all counters have room both do the same. -/
private theorem agree_of_room (hm : 2 ≤ f.m) {x : Bytes}
    (hroom : ∀ i ∈ f.indices sum32 x, counterAt f.counters i + (f.indices sum32 x).count i ≤ 255) :
    (f.batchAdd sum32 [x]).1 = (f.add sum32 x).1 ∧ batchError f.counters (f.indices sum32 x) = "" ∧
      (f.add sum32 x).2 = none := by
  obtain ⟨hok, hc⟩ := add_of_room hm hroom
  have hfull := not_full_of_room hroom
  refine ⟨eq_of_counterAt rfl rfl fun j => ?_, ?_, hok⟩
  · rw [counterAt_batchAdd_room hm hfull hroom, hc]
  · rw [batchError, overflowLoop_eq_false hfull]; rfl

/-- When the first counter is full neither does anything. -/
private theorem agree_of_full {x : Bytes} (hfull : ∃ i ∈ (f.indices sum32 x).head?, 255 ≤ counterAt f.counters i) :
    (f.batchAdd sum32 [x]).1 = f ∧ (f.add sum32 x).1 = f ∧
      batchError f.counters (f.indices sum32 x) = ErrCounterOverflow ∧
      (f.add sum32 x).2 = some ErrCounterOverflow := by
  have hadd := add_of_head_full hfull
  obtain ⟨i, hi, hfull⟩ := hfull
  have hover : overflowLoop f.counters (f.indices sum32 x) = true :=
    overflowLoop_iff.2 ⟨i, List.mem_of_mem_head? hi, hfull⟩
  exact ⟨by rw [batchAdd_full sum32 hover], by rw [hadd], by rw [batchError, hover]; rfl, by rw [hadd]⟩

/-! ### The gap between the two -/

/-- The filters of the two runs: the same shape, and no counter of `b` above that of `a`. -/
private structure Below (b a : CountingBloomFilter) : Prop where
  m : b.m = a.m
  k : b.k = a.k
  le : ∀ j, counterAt b.counters j ≤ counterAt a.counters j

private theorem Below.indices {a b : CountingBloomFilter} (h : Below b a) : b.indices sum32 = a.indices sum32 := by
  unfold CountingBloomFilter.indices; rw [h.m, h.k]

/-- An item with the same error in both runs does not close the gap. -/
private theorem gap_step {a b : CountingBloomFilter} (hm : 2 ≤ a.m) (h : Below b a) {x : Bytes}
    (herr : batchError b.counters (b.indices sum32 x) ≠ "" ↔ (a.add sum32 x).2 = some ErrCounterOverflow) (j : Nat) :
    counterAt a.counters j + counterAt (b.batchAdd sum32 [x]).1.counters j ≤
      counterAt (a.add sum32 x).1.counters j + counterAt b.counters j := by
  have hlt := lt_length_of_mem_indices sum32 hm x
  rcases addLoop_spec hlt with ⟨hok, hc⟩ | ⟨hfail, hc⟩
  · -- `Add` finds room at its higher counters, so `BatchAdd` does not wrap
    have hroom : ∀ i ∈ b.indices sum32 x, counterAt b.counters i + (b.indices sum32 x).count i ≤ 255 := by
      intro i _
      have := (addLoop_ok_iff hlt).1 hok i
      have := h.le i
      rw [h.indices]
      omega
    rw [counterAt_batchAdd_room (h.m ▸ hm) (not_full_of_room hroom) hroom, h.indices]
    have : counterAt (a.add sum32 x).1.counters j = _ := hc j
    omega
  · rw [batchAdd_full sum32 (overflow_of_batchError (herr.2 hfail))]
    exact Nat.add_le_add_right (hc j) _

private theorem Below.step {a b : CountingBloomFilter} (hm : 2 ≤ a.m) (h : Below b a) {x : Bytes}
    (herr : batchError b.counters (b.indices sum32 x) ≠ "" ↔ (a.add sum32 x).2 = some ErrCounterOverflow) :
    Below (b.batchAdd sum32 [x]).1 (a.add sum32 x).1 := by
  refine ⟨h.m, h.k, fun j => ?_⟩
  have := gap_step hm h herr j
  have := h.le j
  omega

/-- A list with the same errors in both runs does not close the gap. -/
private theorem gap_run {a b : CountingBloomFilter} (hm : 2 ≤ a.m) (h : Below b a) {items : List Bytes}
    (herr : SameErrors (b.batchAdd sum32 items).2.2.2 (a.addEach sum32 items).2) (j : Nat) :
    counterAt a.counters j + counterAt (b.batchAdd sum32 items).1.counters j ≤
      counterAt (a.addEach sum32 items).1.counters j + counterAt b.counters j := by
  induction items generalizing a b with
  | nil => exact Nat.le_refl _
  | cons x items ih =>
    obtain ⟨hfst, herrs⟩ := batchAdd_cons sum32 b x items
    rw [herrs] at herr
    obtain ⟨hx, hrest⟩ := List.forall₂_cons.1 herr
    have hgap := gap_step hm h hx j
    have hrun := ih (a := (a.add sum32 x).1) hm (h.step hm hx) hrest
    rw [hfst]
    show _ ≤ counterAt ((a.add sum32 x).1.addEach sum32 items).1.counters j + _
    omega

/-! ### When the two agree -/

/-- An item with the same error and the same counters in both, whose first counter is not full, has room. -/
private theorem room_of_agree (hm : 2 ≤ f.m) {x : Bytes}
    (hfull : ¬ ∃ i ∈ (f.indices sum32 x).head?, 255 ≤ counterAt f.counters i)
    (herr : batchError f.counters (f.indices sum32 x) ≠ "" ↔ (f.add sum32 x).2 = some ErrCounterOverflow)
    (hsame : ∀ j, counterAt (f.add sum32 x).1.counters j = counterAt (f.batchAdd sum32 [x]).1.counters j) :
    ∀ i ∈ f.indices sum32 x, counterAt f.counters i + (f.indices sum32 x).count i ≤ 255 := by
  have hlt := lt_length_of_mem_indices sum32 hm x
  rcases addLoop_spec hlt with ⟨hok, _⟩ | ⟨hfail, _⟩
  · exact fun i _ => (addLoop_ok_iff hlt).1 hok i
  · have hover := overflow_of_batchError (herr.2 hfail)
    have hfail' : (f.add sum32 x).2 = some ErrCounterOverflow := hfail
    refine absurd (head_full_of_unchanged hm (by rw [hfail']; simp) fun j => ?_) hfull
    rw [hsame, batchAdd_full sum32 hover]

/-- `BatchAdd` agrees with one `Add` after the other exactly when every item finds its first counter full or room
for all its indices. -/
theorem agreesWithAdd_iff_addsFit (hm : 2 ≤ f.m) (items : List Bytes) :
    AgreesWithAdd sum32 f items ↔ AddsFit (f.indices sum32) (counterAt f.counters) items := by
  induction items generalizing f with
  | nil => exact ⟨fun _ => trivial, fun _ => ⟨rfl, List.Forall₂.nil⟩⟩
  | cons x items ih =>
    obtain ⟨hfst, herrs⟩ := batchAdd_cons sum32 f x items
    have hrest := ih (f := (f.add sum32 x).1) hm
    unfold AgreesWithAdd at hrest ⊢
    rw [hfst, herrs, AddsFit]
    show _ = ((f.add sum32 x).1.addEach sum32 items).1.counters ∧
      SameErrors _ ((f.add sum32 x).2 :: ((f.add sum32 x).1.addEach sum32 items).2) ↔ _
    rw [SameErrors, List.forall₂_cons]
    split
    · -- nothing happens to the filter at this item
      rename_i hfull
      obtain ⟨hbatch, hadd, hberr, haerr⟩ := agree_of_full hfull
      rw [hadd] at hrest ⊢
      rw [hbatch, hberr, haerr, ← hrest]
      exact ⟨fun h => ⟨h.1, h.2.2⟩, fun h => ⟨h.1, ⟨fun _ => rfl, fun _ => by decide⟩, h.2⟩⟩
    · rename_i hfull
      constructor
      · rintro ⟨hcounters, hx, herr⟩
        have hself : Below f f := ⟨rfl, rfl, fun _ => Nat.le_refl _⟩
        -- the gap is closed at the end, so it was never opened
        have hsame : ∀ j, counterAt (f.add sum32 x).1.counters j = counterAt (f.batchAdd sum32 [x]).1.counters j := by
          intro j
          have hle := (hself.step hm hx).le j
          have hgap := gap_run (a := (f.add sum32 x).1) hm (hself.step hm hx) herr j
          rw [hcounters] at hgap
          omega
        have hroom := room_of_agree hm hfull hx hsame
        obtain ⟨hbatch, _, _⟩ := agree_of_room hm hroom
        rw [hbatch] at hcounters herr
        have := hrest.1 ⟨hcounters, herr⟩
        rw [funext (add_of_room hm hroom).2] at this
        exact ⟨hroom, this⟩
      · rintro ⟨hroom, h⟩
        obtain ⟨hbatch, hberr, haerr⟩ := agree_of_room hm hroom
        rw [← funext (add_of_room hm hroom).2] at h
        have := hrest.2 h
        rw [hbatch, hberr, haerr]
        exact ⟨this.1, ⟨fun h => absurd rfl h, nofun⟩, this.2⟩

theorem agreesWithAdd_two_items : AgreesWithAdd Murmur3.sum32 (newCountingBloomFilter 2 3) [[97], [98]] :=
  (agreesWithAdd_iff_addsFit (by decide) [[97], [98]]).2 (by decide +kernel)

/-- The indices of `a` among two counters are `[0, 1, 0]`.  With the second counter full, `Add` raises the first one
and fails; `BatchAdd` fails and raises nothing. -/
theorem not_agreesWithAdd_partial :
    ¬ AgreesWithAdd Murmur3.sum32 { m := 2, k := 3, counters := [7, 255], length_counters := rfl } [[97]] := by
  rintro ⟨hcounters, _⟩
  exact absurd hcounters (by decide +kernel)

/-! ### The order of the items -/

/-- Every `Add` returned nil. -/
def AllAdded (results : List (Option String)) : Prop := ∀ r ∈ results, r = none

theorem length_addEach (f : CountingBloomFilter) (items : List Bytes) :
    (f.addEach sum32 items).1.counters.length = f.counters.length := by
  induction items generalizing f with
  | nil => rfl
  | cons x items ih => exact (ih (f.add sum32 x).1).trans (length_addLoop ..)

theorem allAdded_cons (f : CountingBloomFilter) (x : Bytes) (items : List Bytes) :
    AllAdded (f.addEach sum32 (x :: items)).2 ↔
      (f.add sum32 x).2 = none ∧ AllAdded ((f.add sum32 x).1.addEach sum32 items).2 :=
  List.forall_mem_cons

theorem add_none_iff (hm : 2 ≤ f.m) (x : Bytes) :
    (f.add sum32 x).2 = none ↔ ∀ j, counterAt f.counters j + (f.indices sum32 x).count j ≤ 255 :=
  addLoop_ok_iff (lt_length_of_mem_indices sum32 hm x)

theorem counterAt_add (hm : 2 ≤ f.m) {x : Bytes} (hok : (f.add sum32 x).2 = none) (j : Nat) :
    counterAt (f.add sum32 x).1.counters j = counterAt f.counters j + (f.indices sum32 x).count j :=
  (add_of_room hm fun i _ => (add_none_iff hm x).1 hok i).2 j

/-- The counters take the load of all the items. -/
theorem counterAt_addEach (hm : 2 ≤ f.m) {items : List Bytes} (h : AllAdded (f.addEach sum32 items).2) (j : Nat) :
    counterAt (f.addEach sum32 items).1.counters j =
      counterAt f.counters j + Load.load (f.indices sum32) ↑items j := by
  induction items generalizing f with
  | nil => rfl
  | cons x items ih =>
    obtain ⟨hok, hrest⟩ := (allAdded_cons f x items).1 h
    have hend := ih (f := (f.add sum32 x).1) hm hrest
    rw [counterAt_add hm hok, Nat.add_assoc] at hend
    rw [← Multiset.cons_coe, Load.load_cons]
    exact hend

/-- All items are added exactly when every counter has room for the load of all of them. -/
theorem allAdded_iff (hm : 2 ≤ f.m) (items : List Bytes) :
    AllAdded (f.addEach sum32 items).2 ↔
      ∀ j, counterAt f.counters j + Load.load (f.indices sum32) ↑items j ≤ 255 := by
  constructor
  · intro h j
    have hlt := counterAt_lt (f.addEach sum32 items).1.counters j
    rw [counterAt_addEach hm h] at hlt
    omega
  · intro hroom
    induction items generalizing f with
    | nil => exact nofun
    | cons x items ih =>
      have hload : ∀ j, Load.load (f.indices sum32) ↑(x :: items) j =
          (f.indices sum32 x).count j + Load.load (f.indices sum32) ↑items j := by
        intro j
        rw [← Multiset.cons_coe, Load.load_cons]
      have hok : (f.add sum32 x).2 = none := by
        refine (add_none_iff hm x).2 fun j => ?_
        have := hroom j
        rw [hload] at this
        omega
      refine (allAdded_cons f x items).2 ⟨hok, ih (f := (f.add sum32 x).1) hm fun j => ?_⟩
      rw [counterAt_add hm hok, Nat.add_assoc]
      exact (hload j) ▸ hroom j

/-- Whether a list of items can all be added does not depend on their order, and neither do the counters they
leave. -/
theorem addEach_perm (hm : 2 ≤ f.m) {items items' : List Bytes} (hperm : items.Perm items') :
    (AllAdded (f.addEach sum32 items).2 ↔ AllAdded (f.addEach sum32 items').2) ∧
      (AllAdded (f.addEach sum32 items).2 →
        (f.addEach sum32 items).1.counters = (f.addEach sum32 items').1.counters) := by
  -- both orders put the same load on the counters
  have hsame : (items : Multiset Bytes) = items' := Multiset.coe_eq_coe.2 hperm
  have hall : AllAdded (f.addEach sum32 items).2 ↔ AllAdded (f.addEach sum32 items').2 := by
    rw [allAdded_iff hm, allAdded_iff hm, hsame]
  refine ⟨hall, fun h => counters_eq_of_counterAt ?_ fun j => ?_⟩
  · rw [length_addEach, length_addEach]
  · rw [counterAt_addEach hm h, counterAt_addEach hm (hall.1 h), hsame]

/-- Three items on two counters, in two orders. -/
theorem addEach_perm_three :
    AllAdded ((newCountingBloomFilter 2 3).addEach Murmur3.sum32 [[97], [98], [99]]).2 ∧
      ((newCountingBloomFilter 2 3).addEach Murmur3.sum32 [[97], [98], [99]]).1.counters =
        ((newCountingBloomFilter 2 3).addEach Murmur3.sum32 [[99], [97], [98]]).1.counters := by
  have hall : AllAdded ((newCountingBloomFilter 2 3).addEach Murmur3.sum32 [[97], [98], [99]]).2 := by
    unfold AllAdded; decide +kernel
  exact ⟨hall, (addEach_perm (by decide) (by decide)).2 hall⟩

end CountingBloomFilter

end DistributedBloomFilter
