import Mathlib.Data.List.Nodup

/-!
# Lists with unique keys

A list in which no two elements have one key, as a table: the element with a key is found, changed or taken out, and
the elements before and behind it stay.
-/

namespace Keyed

variable {α κ : Type} [DecidableEq κ] {key : α → κ} {l : List α} {k : κ} {a : α}

theorem notMem_of_find?_eq_none (h : l.find? (fun x => key x = k) = none) : k ∉ l.map key := by
  intro hmem
  obtain ⟨x, hx, hkey⟩ := List.mem_map.1 hmem
  exact List.find?_eq_none.1 h x hx (decide_eq_true hkey)

/-- The element with a key, and the others before and behind it. -/
theorem split_of_find?_eq_some (hnodup : (l.map key).Nodup) (h : l.find? (fun x => key x = k) = some a) :
    key a = k ∧ ∃ before after, l = before ++ a :: after ∧ (∀ x ∈ before, key x ≠ k) ∧ ∀ x ∈ after, key x ≠ k := by
  have hkey : key a = k := by
    have hfound := List.find?_some h
    exact of_decide_eq_true hfound
  obtain ⟨before, after, rfl⟩ := List.append_of_mem (List.mem_of_find?_eq_some h)
  rw [List.map_append, List.map_cons, List.nodup_append, List.nodup_cons] at hnodup
  obtain ⟨-, ⟨hafter, -⟩, hbefore⟩ := hnodup
  refine ⟨hkey, before, after, rfl, fun x hx heq => ?_, fun x hx heq => ?_⟩
  · exact hbefore (key x) (List.mem_map_of_mem hx) (key a) List.mem_cons_self (heq.trans hkey.symm)
  · exact hafter ((heq.trans hkey.symm) ▸ List.mem_map_of_mem hx)

variable {before after : List α}

theorem map_update (hkey : key a = k) (hbefore : ∀ x ∈ before, key x ≠ k) (hafter : ∀ x ∈ after, key x ≠ k)
    (f : α → α) :
    (before ++ a :: after).map (fun x => if key x = k then f x else x) = before ++ f a :: after := by
  have hsame : ∀ xs : List α, (∀ x ∈ xs, key x ≠ k) → xs.map (fun x => if key x = k then f x else x) = xs :=
    fun xs hxs => (List.map_congr_left fun x hx => if_neg (hxs x hx)).trans (List.map_id xs)
  rw [List.map_append, List.map_cons, hsame before hbefore, hsame after hafter, if_pos hkey]

theorem filter_ne (hkey : key a = k) (hbefore : ∀ x ∈ before, key x ≠ k) (hafter : ∀ x ∈ after, key x ≠ k) :
    ((before ++ a :: after).filter fun x => key x ≠ k) = before ++ after := by
  have hsame : ∀ xs : List α, (∀ x ∈ xs, key x ≠ k) → (xs.filter fun x => key x ≠ k) = xs :=
    fun xs hxs => List.filter_eq_self.2 fun x hx => decide_eq_true (hxs x hx)
  rw [List.filter_append, List.filter_cons_of_neg (by simp [hkey]), hsame before hbefore, hsame after hafter]

omit [DecidableEq κ] in
/-- A new key. -/
theorem nodup_concat (hnodup : (l.map key).Nodup) (hnew : key a ∉ l.map key) : ((l ++ [a]).map key).Nodup := by
  rw [List.map_append, List.map_singleton]
  refine List.nodup_append.2 ⟨hnodup, List.nodup_singleton _, fun x hx y hy heq => hnew ?_⟩
  rwa [heq, List.mem_singleton.1 hy] at hx

end Keyed
