import Mathlib.Algebra.BigOperators.Group.Multiset.Basic
import Mathlib.Algebra.Order.Group.Multiset
import Mathlib.Data.List.AList

/-!
# What a table of lists holds

A table assigns a list to every key it has; `contents` is the multiset of all the elements of all its lists.  Taking a
key out takes exactly its list out (`contents_eq_add_erase`), and a list that is written replaces the one that was
there (`contents_insert`).
-/

namespace Contents

variable {κ α : Type} [DecidableEq κ]

/-- The list of a key, empty if the table does not have it. -/
def listAt (d : AList fun _ : κ => List α) (key : κ) : List α := (d.lookup key).getD []

def contents (d : AList fun _ : κ => List α) : Multiset α := (d.entries.map fun e => (e.2 : Multiset α)).sum

variable (d : AList fun _ : κ => List α) (key : κ)

theorem contents_insert (l : List α) : contents (d.insert key l) = ↑l + contents (d.erase key) := by
  have hentries : (d.insert key l).entries = ⟨key, l⟩ :: (d.erase key).entries := AList.entries_insert
  unfold contents
  rw [hentries, List.map_cons, List.sum_cons]

theorem contents_eq_add_erase : contents d = ↑(listAt d key) + contents (d.erase key) := by
  by_cases hkey : key ∈ d
  · obtain ⟨l, before, after, hbefore, hentries, herase⟩ := List.exists_of_kerase hkey
    have hlist : listAt d key = l := by
      have hlookup : d.lookup key = some l := by
        rw [AList.lookup, hentries, List.dlookup_append, List.dlookup_eq_none.2 hbefore]
        simp
      rw [listAt, hlookup]
      rfl
    have herased : (d.erase key).entries = before ++ after := herase
    unfold contents
    rw [hlist, herased, hentries, List.map_append, List.map_cons, List.sum_append, List.sum_cons, List.map_append,
      List.sum_append, add_left_comm]
  · have hnone : d.lookup key = none := AList.lookup_eq_none.2 hkey
    have herase : d.erase key = d := AList.ext (List.kerase_of_notMem_keys hkey)
    rw [listAt, hnone, herase]
    exact (zero_add _).symm

theorem listAt_erase_of_ne {key' : κ} (h : key' ≠ key) : listAt (d.erase key) key' = listAt d key' := by
  rw [listAt, AList.lookup_erase_ne h, listAt]

@[simp] theorem listAt_insert (l : List α) : listAt (d.insert key l) key = l := by
  rw [listAt, AList.lookup_insert]
  rfl

theorem listAt_insert_of_ne (l : List α) {key' : κ} (h : key' ≠ key) :
    listAt (d.insert key l) key' = listAt d key' := by
  rw [listAt, AList.lookup_insert_ne h, listAt]

/-- A list that is written back with more behind it. -/
theorem contents_insert_append (l : List α) :
    contents (d.insert key (listAt d key ++ l)) = contents d + ↑l := by
  rw [contents_insert, contents_eq_add_erase d key, ← Multiset.coe_add, add_right_comm]

end Contents
