import DistributedBloomFilter.Lib.Run
import Mathlib.Data.List.Nodup
import Mathlib.Data.List.Perm.Basic

/-!
# Handing over in turn

Several workers take lots of units from one source and deliver the units later, one at a time and each worker at its
own pace.  No unit is lost or doubled, whatever the interleaving (`inv_exec`).  The units are delivered in the order
in which they were taken when only the worker with the oldest unfinished lot ever delivers (`ordered_of_inTurn`), and
in a run in which everything is delivered in the end only then (`delivered_eq_taken_iff`); `sublist_iff_inTurn` says
it of what the units are made of.
-/

/-- The units taken so far, the lots that are not finished in the order in which they were taken, each with its worker
and what is left of it, and the units delivered so far. -/
structure Handover (ι β : Type) where
  taken : List β
  pending : List (ι × List β)
  delivered : List β
deriving DecidableEq, Repr

namespace Handover

variable {ι β : Type}

inductive Event (ι β : Type) where
  | take (i : ι) (units : List β)
  | deliver (i : ι)
deriving DecidableEq, Repr

def start : Handover ι β := { taken := [], pending := [], delivered := [] }

/-- What is still to be delivered, lot by lot. -/
def rest (lots : List (ι × List β)) : List β := lots.flatMap Prod.snd

@[simp] theorem rest_nil : rest ([] : List (ι × List β)) = [] := rfl

@[simp] theorem rest_cons (lot : ι × List β) (lots : List (ι × List β)) :
    rest (lot :: lots) = lot.2 ++ rest lots := rfl

theorem rest_concat (lots : List (ι × List β)) (lot : ι × List β) : rest (lots ++ [lot]) = rest lots ++ lot.2 := by
  simp [rest]

/-- No lot in progress is empty, and every unit taken is delivered or pending. -/
structure Inv (s : Handover ι β) : Prop where
  nonempty : ∀ lot ∈ s.pending, lot.2 ≠ []
  perm : s.taken.Perm (s.delivered ++ rest s.pending)

/-- The units are delivered in the order in which they were taken. -/
def Ordered (s : Handover ι β) : Prop := s.taken = s.delivered ++ rest s.pending

theorem inv_start : (start : Handover ι β).Inv := ⟨fun _ h => absurd h List.not_mem_nil, .refl _⟩

variable [DecidableEq ι]

/-- The next unit of a worker, and what is pending after it. -/
def next (i : ι) : List (ι × List β) → Option (β × List (ι × List β))
  | [] => none
  | (j, units) :: lots =>
    if j = i then
      match units with
      | [] => none
      | [u] => some (u, lots)
      | u :: units => some (u, (j, units) :: lots)
    else (next i lots).map fun r => (r.1, (j, units) :: r.2)

def step (s : Handover ι β) : Event ι β → Handover ι β
  | .take i units =>
    { s with
      taken := s.taken ++ units
      pending := if units.isEmpty then s.pending else s.pending ++ [(i, units)] }
  | .deliver i =>
    match next i s.pending with
    | none => s
    | some (u, lots) => { s with pending := lots, delivered := s.delivered ++ [u] }

/-- A worker that delivers has the oldest of the lots. -/
def InTurn (s : Handover ι β) : Event ι β → Prop
  | .take _ _ => True
  | .deliver i => (next i s.pending).isSome → s.pending.head?.map Prod.fst = some i

instance : ∀ (s : Handover ι β) (e : Event ι β), Decidable (s.InTurn e)
  | _, .take _ _ => .isTrue trivial
  | _, .deliver _ => inferInstanceAs (Decidable (_ → _))

/-! ### One step -/

/-- A delivery takes one unit out: the first one of all if the worker has the oldest lot, and otherwise one behind
it. -/
theorem next_spec {i : ι} {lots lots' : List (ι × List β)} {u : β} (h : next i lots = some (u, lots'))
    (hne : ∀ lot ∈ lots, lot.2 ≠ []) :
    (∀ lot ∈ lots', lot.2 ≠ []) ∧ (rest lots).Perm (u :: rest lots') ∧
      (lots.head?.map Prod.fst = some i → rest lots = u :: rest lots') ∧
      (lots.head?.map Prod.fst ≠ some i → ∃ v l, rest lots = v :: l ∧ u ∈ l) := by
  induction lots generalizing lots' with
  | nil => cases h
  | cons lot lots ih =>
    obtain ⟨j, units⟩ := lot
    obtain ⟨hunits, hlots⟩ := List.forall_mem_cons.1 hne
    obtain ⟨v, units, rfl⟩ := List.exists_cons_of_ne_nil hunits
    unfold next at h
    split at h
    · rename_i hj
      subst hj
      -- the lot is finished with its last unit
      cases units with
      | nil =>
        obtain ⟨rfl, rfl⟩ := Prod.mk.inj (Option.some.inj h)
        exact ⟨hlots, .refl _, fun _ => rfl, fun hhead => absurd rfl hhead⟩
      | cons w units =>
        obtain ⟨rfl, rfl⟩ := Prod.mk.inj (Option.some.inj h)
        exact ⟨List.forall_mem_cons.2 ⟨List.cons_ne_nil _ _, hlots⟩, .refl _, fun _ => rfl,
          fun hhead => absurd rfl hhead⟩
    · rename_i hj
      obtain ⟨⟨u', lots''⟩, hnext, heq⟩ := Option.map_eq_some_iff.1 h
      obtain ⟨rfl, rfl⟩ := Prod.mk.inj heq
      obtain ⟨hlots'', hperm, -, -⟩ := ih hnext hlots
      refine ⟨List.forall_mem_cons.2 ⟨hunits, hlots''⟩, ?_, fun hhead => absurd (Option.some.inj hhead) hj,
        fun _ => ?_⟩
      · exact (hperm.append_left (v :: units)).trans List.perm_middle
      · refine ⟨v, units ++ rest lots, rfl, List.mem_append.2 (.inr ?_)⟩
        exact hperm.mem_iff.2 List.mem_cons_self

/-- A worker with no lot has nothing to deliver. -/
theorem next_eq_none {i : ι} {lots : List (ι × List β)} (h : ∀ lot ∈ lots, lot.1 ≠ i) : next i lots = none := by
  induction lots with
  | nil => rfl
  | cons lot lots ih =>
    obtain ⟨hlot, hlots⟩ := List.forall_mem_cons.1 h
    unfold next
    rw [if_neg hlot, ih hlots]
    rfl

theorem next_append {i : ι} {l r : List (ι × List β)} (hl : ∀ lot ∈ l, lot.1 ≠ i) (u : β) (units : List β) :
    next i (l ++ (i, u :: units) :: r) = some (u, l ++ if units.isEmpty then r else (i, units) :: r) := by
  induction l with
  | nil =>
    rw [List.nil_append]
    unfold next
    rw [if_pos rfl]
    cases units <;> rfl
  | cons lot l ih =>
    obtain ⟨hlot, hl⟩ := List.forall_mem_cons.1 hl
    rw [List.cons_append]
    unfold next
    rw [if_neg hlot, ih hl]
    rfl

/-- A worker with no lot delivers nothing. -/
theorem deliver_of_idle {s : Handover ι β} {i : ι} (h : ∀ lot ∈ s.pending, lot.1 ≠ i) :
    s.step (.deliver i) = s ∧ s.InTurn (.deliver i) := by
  unfold step InTurn
  dsimp only
  rw [next_eq_none h]
  exact ⟨rfl, Bool.noConfusion⟩

/-- A worker delivers the first unit of its lot. -/
theorem deliver_of_lot {s : Handover ι β} {i : ι} {l r : List (ι × List β)} {u : β} {units : List β}
    (hpending : s.pending = l ++ (i, u :: units) :: r) (hl : ∀ lot ∈ l, lot.1 ≠ i) :
    s.step (.deliver i) =
        { s with
          pending := l ++ if units.isEmpty then r else (i, units) :: r
          delivered := s.delivered ++ [u] } ∧
      (s.InTurn (.deliver i) ↔ s.pending.head?.map Prod.fst = some i) := by
  unfold step InTurn
  dsimp only
  rw [hpending, next_append hl]
  exact ⟨rfl, forall_prop_of_true rfl⟩

theorem rest_take (s : Handover ι β) (i : ι) (units : List β) :
    rest (s.step (.take i units)).pending = rest s.pending ++ units := by
  cases units with
  | nil => exact (List.append_nil _).symm
  | cons u units => exact rest_concat _ _

theorem inv_step (s : Handover ι β) (e : Event ι β) (h : s.Inv) : (s.step e).Inv := by
  cases e with
  | take i units =>
    refine ⟨?_, ?_⟩
    · cases units with
      | nil => exact h.nonempty
      | cons u units =>
        intro lot hlot
        rcases List.mem_append.1 hlot with hlot | hlot
        · exact h.nonempty lot hlot
        · rw [List.mem_singleton.1 hlot]
          exact List.cons_ne_nil _ _
    · rw [rest_take, ← List.append_assoc]
      exact h.perm.append_right units
  | deliver i =>
    unfold step
    dsimp only
    split
    · exact h
    · rename_i u lots hnext
      obtain ⟨hne, hperm, -, -⟩ := next_spec hnext h.nonempty
      refine ⟨hne, h.perm.trans ?_⟩
      rw [List.append_assoc]
      exact hperm.append_left _

/-- A delivery in its turn keeps the order. -/
theorem ordered_step {s : Handover ι β} {e : Event ι β} (hinv : s.Inv) (h : s.Ordered) (hturn : s.InTurn e) :
    (s.step e).Ordered := by
  cases e with
  | take i units =>
    show s.taken ++ units = s.delivered ++ rest (s.step (.take i units)).pending
    rw [rest_take, ← List.append_assoc, ← show s.taken = _ from h]
  | deliver i =>
    unfold step
    dsimp only
    split
    · exact h
    · rename_i u lots hnext
      obtain ⟨-, -, hfirst, -⟩ := next_spec hnext hinv.nonempty
      have hrest := hfirst (hturn (by rw [hnext]; rfl))
      unfold Ordered at h ⊢
      rw [h, hrest, List.append_assoc]
      rfl

/-! ### Runs -/

/-- Whatever the interleaving, the units taken are those delivered and those pending. -/
theorem inv_exec (es : List (Event ι β)) : (Run.exec step start es).Inv := Run.keeps inv_step inv_start es

/-- In turn, the units are delivered in the order in which they were taken. -/
theorem ordered_of_inTurn {es : List (Event ι β)} (h : Run.Admits step InTurn (start : Handover ι β) es) :
    (Run.exec step start es).Ordered := by
  have hstep : ∀ (s : Handover ι β) (e : Event ι β), s.Inv ∧ s.Ordered → s.InTurn e →
      (s.step e).Inv ∧ (s.step e).Ordered :=
    fun s e hs hturn => ⟨inv_step s e hs.1, ordered_step hs.1 hs.2 hturn⟩
  exact (Run.invariant hstep ⟨inv_start, rfl⟩ h).2

section Overtaken

variable [DecidableEq β]

/-- A unit was delivered before one that was taken earlier. -/
def Overtaken (s : Handover ι β) : Prop :=
  ∃ u v, u ∈ s.taken ∧ s.taken.idxOf v < s.taken.idxOf u ∧ s.delivered.idxOf u < s.delivered.idxOf v

omit [DecidableEq ι] in
private theorem idxOf_append_of_lt {l l' : List β} {a b : β} (h : l.idxOf a < l.idxOf b) :
    (l ++ l').idxOf a < (l ++ l').idxOf b := by
  have ha : a ∈ l := List.idxOf_lt_length_iff.1 (Nat.lt_of_lt_of_le h List.idxOf_le_length)
  rw [List.idxOf_append_of_mem ha, List.idxOf_append]
  split
  · exact h
  · have := List.idxOf_lt_length_iff.2 ha
    omega

theorem overtaken_step (s : Handover ι β) (e : Event ι β) (h : s.Overtaken) : (s.step e).Overtaken := by
  obtain ⟨u, v, hu, htaken, hdelivered⟩ := h
  cases e with
  | take i units => exact ⟨u, v, List.mem_append.2 (.inl hu), idxOf_append_of_lt htaken, hdelivered⟩
  | deliver i =>
    unfold step
    dsimp only
    split
    · exact ⟨u, v, hu, htaken, hdelivered⟩
    · exact ⟨u, v, hu, htaken, idxOf_append_of_lt hdelivered⟩

/-- A delivery out of turn overtakes the oldest lot. -/
theorem overtaken_of_not_inTurn {s : Handover ι β} {e : Event ι β} (hinv : s.Inv) (h : s.Ordered)
    (hnodup : s.taken.Nodup) (hturn : ¬ s.InTurn e) : (s.step e).Overtaken := by
  cases e with
  | take i units => exact absurd trivial hturn
  | deliver i =>
    obtain ⟨hsome, hhead⟩ := Classical.not_imp.1 hturn
    obtain ⟨⟨u, lots⟩, hnext⟩ := Option.isSome_iff_exists.1 hsome
    obtain ⟨-, -, -, hbehind⟩ := next_spec hnext hinv.nonempty
    obtain ⟨v, l, hrest, hu⟩ := hbehind hhead
    unfold Ordered at h
    rw [hrest] at h
    rw [h, List.nodup_append, List.nodup_cons] at hnodup
    obtain ⟨-, ⟨hvl, -⟩, hdisjoint⟩ := hnodup
    have hv : v ∉ s.delivered := fun hmem => hdisjoint v hmem v List.mem_cons_self rfl
    have hu' : u ∉ s.delivered := fun hmem => hdisjoint u hmem u (List.mem_cons_of_mem _ hu) rfl
    have hne : v ≠ u := fun heq => hvl (heq ▸ hu)
    simp only [step, hnext]
    refine ⟨u, v, ?_, ?_, ?_⟩
    · rw [h]
      exact List.mem_append.2 (.inr (List.mem_cons_of_mem _ hu))
    · dsimp only
      rw [h, List.idxOf_append_of_notMem hv, List.idxOf_append_of_notMem hu', List.idxOf_cons_self,
        List.idxOf_cons_ne _ hne]
      omega
    · dsimp only
      rw [List.idxOf_append_of_notMem hv, List.idxOf_append_of_notMem hu', List.idxOf_cons_self,
        List.idxOf_cons_ne _ (Ne.symm hne)]
      omega

omit [DecidableEq β] in
theorem taken_prefix_exec (s : Handover ι β) (es : List (Event ι β)) : s.taken <+: (Run.exec step s es).taken := by
  induction es generalizing s with
  | nil => exact List.prefix_refl _
  | cons e es ih =>
    refine List.IsPrefix.trans ?_ (ih (s.step e))
    cases e with
    | take i units => exact List.prefix_append ..
    | deliver i =>
      unfold step
      dsimp only
      split <;> exact List.prefix_refl _

private theorem overtaken_exec {s : Handover ι β} {es : List (Event ι β)} (hinv : s.Inv) (hordered : s.Ordered)
    (hnodup : (Run.exec step s es).taken.Nodup) (h : ¬ Run.Admits step InTurn s es) :
    (Run.exec step s es).Overtaken := by
  induction es generalizing s with
  | nil => exact absurd trivial h
  | cons e es ih =>
    by_cases hturn : s.InTurn e
    · exact ih (inv_step s e hinv) (ordered_step hinv hordered hturn) hnodup fun hes => h ⟨hturn, hes⟩
    · -- from here on the oldest lot is overtaken
      have hover := overtaken_of_not_inTurn hinv hordered
        (hnodup.sublist (taken_prefix_exec s (e :: es)).sublist) hturn
      exact Run.keeps overtaken_step hover es

/-- When everything is delivered in the end, it was delivered in the order in which it was taken exactly if every
delivery was in its turn. -/
theorem delivered_eq_taken_iff {es : List (Event ι β)} (hnodup : (Run.exec step start es).taken.Nodup)
    (hdone : (Run.exec step (start : Handover ι β) es).pending = []) :
    (Run.exec step (start : Handover ι β) es).delivered = (Run.exec step start es).taken ↔
      Run.Admits step InTurn (start : Handover ι β) es := by
  constructor
  · intro heq
    by_contra h
    obtain ⟨u, v, -, htaken, hdelivered⟩ := overtaken_exec inv_start rfl hnodup h
    rw [heq] at hdelivered
    omega
  · intro h
    have hordered := ordered_of_inTurn h
    unfold Ordered at hordered
    rw [hdone, rest_nil, List.append_nil] at hordered
    exact hordered.symm

/-! ### The contents of the units -/

section Contents

variable {γ : Type} {contents : β → List γ} {all : List γ}

omit [DecidableEq ι] [DecidableEq β] in
/-- In a list without duplicates, what is taken out of it in order is known by its members. -/
private theorem eq_of_sublist {l₁ l₂ : List γ} (hall : all.Nodup) (h₁ : l₁.Sublist all) (h₂ : l₂.Sublist all)
    (hperm : l₁.Perm l₂) : l₁ = l₂ := by
  induction all generalizing l₁ l₂ with
  | nil => rw [List.sublist_nil.1 h₁, List.sublist_nil.1 h₂]
  | cons a all ih =>
    obtain ⟨ha, hall⟩ := List.nodup_cons.1 hall
    rcases List.sublist_cons_iff.1 h₁ with hl₁ | ⟨t₁, rfl, ht₁⟩ <;>
      rcases List.sublist_cons_iff.1 h₂ with hl₂ | ⟨t₂, rfl, ht₂⟩
    · exact ih hall hl₁ hl₂ hperm
    · exact absurd (hl₁.subset (hperm.mem_iff.2 List.mem_cons_self)) ha
    · exact absurd (hl₂.subset (hperm.mem_iff.1 List.mem_cons_self)) ha
    · rw [ih hall ht₁ ht₂ (List.perm_cons a |>.1 hperm)]

omit [DecidableEq ι] [DecidableEq β] in
/-- Units in two orders with the same contents in the same order. -/
private theorem eq_of_flatMap_eq {l₁ l₂ : List β} (hperm : l₁.Perm l₂) (hne : ∀ u ∈ l₂, contents u ≠ [])
    (hnodup : (l₂.flatMap contents).Nodup) (heq : l₁.flatMap contents = l₂.flatMap contents) : l₁ = l₂ := by
  induction l₂ generalizing l₁ with
  | nil => exact List.perm_nil.1 hperm
  | cons b l₂ ih =>
    cases l₁ with
    | nil => exact absurd hperm.symm (List.not_perm_cons_nil)
    | cons a l₁ =>
      have ha : a ∈ b :: l₂ := hperm.mem_iff.1 List.mem_cons_self
      obtain ⟨x, xs, hx⟩ := List.exists_cons_of_ne_nil (hne a ha)
      obtain ⟨y, ys, hy⟩ := List.exists_cons_of_ne_nil (hne b List.mem_cons_self)
      rw [List.flatMap_cons, List.nodup_append] at hnodup
      have hxy : x = y := by
        rw [List.flatMap_cons, List.flatMap_cons, hx, hy] at heq
        exact (List.cons.inj heq).1
      -- the first of the contents is in no other unit
      obtain rfl : a = b := by
        rcases List.mem_cons.1 ha with hab | hmem
        · exact hab
        · refine absurd hxy.symm (hnodup.2.2 y (hy ▸ List.mem_cons_self) x ?_)
          exact List.mem_flatMap.2 ⟨a, hmem, hx ▸ List.mem_cons_self⟩
      rw [List.flatMap_cons, List.flatMap_cons, List.append_cancel_left_eq] at heq
      rw [ih (List.perm_cons a |>.1 hperm) (fun u hu => hne u (List.mem_cons_of_mem _ hu)) hnodup.2.1 heq]

omit [DecidableEq ι] [DecidableEq β] in
private theorem nodup_of_flatMap {l : List β} (hne : ∀ u ∈ l, contents u ≠ []) (hnodup : (l.flatMap contents).Nodup) :
    l.Nodup := by
  obtain ⟨-, hdisjoint⟩ := List.nodup_flatMap.1 hnodup
  refine hdisjoint.imp_of_mem fun {u v} hu _ huv heq => ?_
  obtain ⟨x, xs, hx⟩ := List.exists_cons_of_ne_nil (hne u hu)
  have hxu : x ∈ contents u := hx ▸ List.mem_cons_self
  exact huv hxu (heq ▸ hxu)

omit [DecidableEq β] in
/-- In turn, the contents are delivered in the order in which they are in a list from which the units were taken. -/
theorem sublist_of_inTurn {es : List (Event ι β)}
    (htaken : ((Run.exec step start es).taken.flatMap contents).Sublist all)
    (h : Run.Admits step InTurn (start : Handover ι β) es) :
    ((Run.exec step start es).delivered.flatMap contents).Sublist all := by
  have hordered := ordered_of_inTurn h
  unfold Ordered at hordered
  refine List.Sublist.trans ?_ htaken
  rw [hordered, List.flatMap_append]
  exact List.sublist_append_left _ _

/-- When everything is delivered in the end, they are in that order only if every delivery was in its turn. -/
theorem sublist_iff_inTurn {es : List (Event ι β)} (hall : all.Nodup)
    (hne : ∀ u ∈ (Run.exec step (start : Handover ι β) es).taken, contents u ≠ [])
    (htaken : ((Run.exec step start es).taken.flatMap contents).Sublist all)
    (hdone : (Run.exec step (start : Handover ι β) es).pending = []) :
    ((Run.exec step start es).delivered.flatMap contents).Sublist all ↔
      Run.Admits step InTurn (start : Handover ι β) es := by
  refine ⟨fun hdelivered => ?_, sublist_of_inTurn htaken⟩
  have hnodup := hall.sublist htaken
  have hperm := (inv_exec es).perm
  rw [hdone, rest_nil, List.append_nil] at hperm
  have hcontents := eq_of_sublist hall hdelivered htaken (hperm.symm.flatMap_right contents)
  exact (delivered_eq_taken_iff (nodup_of_flatMap hne hnodup) hdone).1
    (eq_of_flatMap_eq hperm.symm hne hnodup hcontents)

end Contents

end Overtaken

end Handover
