import Mathlib.Data.List.GetD
import Mathlib.Tactic.Common

/-!
# Slices of shared arrays

A slice is a part of an array that other slices may share.  Appending to it writes into the array while there is room
and moves to a longer array otherwise; cutting it to length zero keeps the array, so that later appends overwrite what
was there.  `SliceOps` are the operations on a buffer as a program uses them, `arrays` interprets them in a memory of
arrays and `values` as operations on lists.  As long as no other slice shares the array of the buffer (`Apart`), a
program cannot tell the two apart: a slice that was copied out keeps its contents whatever happens to the buffer.
A slice that is written at every position has nothing left of what was in its array (`Slice.read_storeAll`).
-/

/-- The operations on a buffer of type `B` in a memory of type `M`: `append` (with the spare room of a new array, if
one is made), a copy into a new array, the cut to length zero, and the contents. -/
structure SliceOps (M B α : Type) where
  append : M → B → α → Nat → M × B
  copy : M → B → M × B
  clear : B → B
  read : M → B → List α

/-- A part of the array at an address, from its start on. -/
structure Slice where
  addr : Nat
  len : Nat
deriving DecidableEq, Repr

namespace SliceOps

variable (α : Type)

/-- Buffers as values. -/
def values : SliceOps Unit (List α) α where
  append _ l x _ := ((), l ++ [x])
  copy _ l := ((), l)
  clear _ := []
  read _ l := l

/-- Buffers as slices; the memory is the arrays by their addresses. -/
def arrays [Inhabited α] : SliceOps (List (List α)) Slice α where
  append mem s x spare :=
    let array := mem.getD s.addr []
    if s.len < array.length then (mem.set s.addr (array.set s.len x), { s with len := s.len + 1 })
    else (mem ++ [array.take s.len ++ x :: List.replicate spare default], { addr := mem.length, len := s.len + 1 })
  copy mem s := (mem ++ [(mem.getD s.addr []).take s.len], { addr := mem.length, len := s.len })
  clear s := { s with len := 0 }
  read mem s := (mem.getD s.addr []).take s.len

end SliceOps

namespace Slice

variable {α : Type} {mem : List (List α)} {s t : Slice}

/-- The array is there and long enough. -/
structure Valid (mem : List (List α)) (s : Slice) : Prop where
  addr : s.addr < mem.length
  len : s.len ≤ (mem.getD s.addr []).length

theorem Valid.append (h : s.Valid mem) (arrays : List (List α)) : s.Valid (mem ++ arrays) :=
  ⟨by rw [List.length_append]; exact Nat.lt_add_right _ h.addr, by rw [List.getD_append _ _ _ _ h.addr]; exact h.len⟩

/-- The buffer and the other slices are valid, and none of them is in the array of the buffer. -/
structure Apart (mem : List (List α)) (buffer : Slice) (others : List Slice) : Prop where
  valid : buffer.Valid mem
  apart : ∀ t ∈ others, t.Valid mem ∧ t.addr ≠ buffer.addr

theorem getD_concat_length (array : List α) : (mem ++ [array]).getD mem.length [] = array := by
  simp [List.getD_eq_getElem?_getD]

variable [Inhabited α]

open SliceOps (arrays)

theorem read_append_arrays (h : s.Valid mem) (more : List (List α)) :
    (arrays α).read (mem ++ more) s = (arrays α).read mem s := by
  show List.take _ (List.getD _ _ _) = _
  rw [List.getD_append _ _ _ _ h.addr]
  rfl

/-- Appending to the buffer adds an element to it and leaves the slices in other arrays alone. -/
theorem Apart.append {others : List Slice} (h : Apart mem s others) (x : α) (spare : Nat) :
    let r := (arrays α).append mem s x spare
    Apart r.1 r.2 others ∧ (arrays α).read r.1 r.2 = (arrays α).read mem s ++ [x] ∧
      ∀ t ∈ others, (arrays α).read r.1 t = (arrays α).read mem t := by
  have hvalid := h.valid
  dsimp only [arrays]
  split
  · rename_i hroom
    have hget : (mem.set s.addr ((mem.getD s.addr []).set s.len x)).getD s.addr [] =
        (mem.getD s.addr []).set s.len x := by
      rw [List.getD_eq_getElem?_getD, List.getElem?_set_self hvalid.addr]
      rfl
    have hother : ∀ t ∈ others, (mem.set s.addr ((mem.getD s.addr []).set s.len x)).getD t.addr [] =
        mem.getD t.addr [] := by
      intro t ht
      rw [List.getD_eq_getElem?_getD, List.getElem?_set_ne (Ne.symm (h.apart t ht).2), ← List.getD_eq_getElem?_getD]
    refine ⟨⟨⟨?_, ?_⟩, fun t ht => ⟨⟨?_, ?_⟩, (h.apart t ht).2⟩⟩, ?_, fun t ht => ?_⟩
    · rw [List.length_set]; exact hvalid.addr
    · dsimp only
      rw [hget, List.length_set]
      exact hroom
    · rw [List.length_set]; exact (h.apart t ht).1.addr
    · rw [hother t ht]; exact (h.apart t ht).1.len
    · dsimp only
      rw [hget, List.take_add_one, List.take_set_of_le (Nat.le_refl _), List.getElem?_set_self hroom]
      rfl
    · rw [hother t ht]
  · rename_i hfull
    -- the contents move to a new array, which no other slice has
    have hlen : s.len = (mem.getD s.addr []).length := Nat.le_antisymm hvalid.len (Nat.not_lt.1 hfull)
    refine ⟨⟨⟨?_, ?_⟩, fun t ht => ⟨(h.apart t ht).1.append _, Nat.ne_of_lt (h.apart t ht).1.addr⟩⟩, ?_,
      fun t ht => read_append_arrays (h.apart t ht).1 _⟩
    · rw [List.length_append]
      exact Nat.lt_succ_self _
    · rw [getD_concat_length]
      simp only [List.length_append, List.length_take, List.length_cons]
      omega
    · have htake : ((mem.getD s.addr []).take s.len).length = s.len := List.length_take_of_le hvalid.len
      dsimp only
      rw [getD_concat_length, List.take_append, htake, Nat.add_sub_cancel_left, List.take_of_length_le (by omega)]
      rfl

/-- A copy of the buffer keeps its contents when the buffer is cut to length zero, and so do the slices that were
there. -/
theorem Apart.take {others : List Slice} (h : Apart mem s others) :
    let r := (arrays α).copy mem s
    Apart r.1 ((arrays α).clear s) (others ++ [r.2]) ∧ (arrays α).read r.1 r.2 = (arrays α).read mem s ∧
      ∀ t ∈ others, (arrays α).read r.1 t = (arrays α).read mem t := by
  dsimp only [arrays]
  refine ⟨⟨⟨(h.valid.append _).addr, Nat.zero_le _⟩, fun t ht => ?_⟩, ?_, fun t ht => ?_⟩
  · rcases List.mem_append.1 ht with ht | ht
    · exact ⟨(h.apart t ht).1.append _, (h.apart t ht).2⟩
    · obtain rfl := List.mem_singleton.1 ht
      refine ⟨⟨?_, ?_⟩, Nat.ne_of_gt h.valid.addr⟩
      · rw [List.length_append]
        exact Nat.lt_succ_self _
      · dsimp only
        exact Nat.le_of_eq (by rw [getD_concat_length, List.length_take_of_le h.valid.len])
  · rw [getD_concat_length, List.take_take, Nat.min_self]
  · exact read_append_arrays (h.apart t ht).1 _

/-! ### Storing at every position -/

/-- `s[i] = x`, in the array of the slice. -/
def store (mem : List (List α)) (s : Slice) (i : Nat) (x : α) : List (List α) :=
  mem.set s.addr ((mem.getD s.addr []).set i x)

omit [Inhabited α] in
/-- The first `n` elements are overwritten, the others stay. -/
theorem foldl_set_range (f : Nat → α) {n : Nat} {xs : List α} (h : n ≤ xs.length) :
    (List.range n).foldl (fun ys i => ys.set i (f i)) xs = (List.range n).map f ++ xs.drop n := by
  induction n with
  | zero => rfl
  | succ n ih =>
    have hlen : ((List.range n).map f).length = n := by rw [List.length_map, List.length_range]
    rw [List.range_succ, List.foldl_append, ih (Nat.le_of_succ_le h), List.drop_eq_getElem_cons h, List.foldl_cons,
      List.foldl_nil, List.set_append_right _ _ (Nat.le_of_eq hlen), hlen, Nat.sub_self, List.set_cons_zero,
      List.map_append, List.append_assoc]
    rfl

omit [Inhabited α] in
/-- Only the array of the slice is written to. -/
theorem foldl_store (h : s.addr < mem.length) (f : Nat → α) (is : List Nat) :
    is.foldl (fun mem i => store mem s i (f i)) mem =
      mem.set s.addr (is.foldl (fun ys i => ys.set i (f i)) (mem.getD s.addr [])) := by
  induction is generalizing mem with
  | nil =>
    rw [List.foldl_nil, List.foldl_nil, List.getD_eq_getElem _ _ h, List.set_getElem_self]
  | cons i is ih =>
    have hget : (store mem s i (f i)).getD s.addr [] = (mem.getD s.addr []).set i (f i) := by
      rw [store, List.getD_eq_getElem?_getD, List.getElem?_set_self h]
      rfl
    have hlen : s.addr < (store mem s i (f i)).length := by rw [store, List.length_set]; exact h
    rw [List.foldl_cons, List.foldl_cons, ih hlen, hget, store, List.set_set]

/-- A slice that is stored to at every position has what was stored, whatever was in its array. -/
theorem read_storeAll (h : s.Valid mem) (f : Nat → α) :
    (arrays α).read ((List.range s.len).foldl (fun mem i => store mem s i (f i)) mem) s =
    (List.range s.len).map f := by
  have hlen : ((List.range s.len).map f).length = s.len := by rw [List.length_map, List.length_range]
  have hget : ∀ array : List α, (mem.set s.addr array).getD s.addr [] = array := by
    intro array
    rw [List.getD_eq_getElem?_getD, List.getElem?_set_self h.addr]
    rfl
  rw [foldl_store h.addr, foldl_set_range f h.len]
  show ((mem.set s.addr _).getD s.addr []).take s.len = _
  rw [hget, List.take_left' hlen]

end Slice
