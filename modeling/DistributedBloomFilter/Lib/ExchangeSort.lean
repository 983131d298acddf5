import Mathlib.Data.List.Nodup
import Mathlib.Data.List.Pairwise
import Mathlib.Data.List.Range

/-!
# Exchange sort

The two nested loops that compare every entry `i` with every later entry `j` and exchange them when they are out of
order.  One run of the inner loop brings a least element of the rest to position `i` (`innerLoop_spec`), so the
result is a sorted permutation; where the keys are all different, it does not depend on the order of the input
(`sort_eq_of_perm`, `sort_eq_sort_of_perm`).
-/

namespace ExchangeSort

variable {α : Type*} (key : α → ℕ)

/-- The body of the loops. -/
def compareSwap (xs : List α) (i j : ℕ) : List α :=
  match xs[i]?, xs[j]? with
  | some a, some b => if key a > key b then (xs.set i b).set j a else xs
  | _, _ => xs

/-- The loop over `j` from `i + 1`. -/
def innerLoop (i : ℕ) (xs : List α) : List α :=
  (List.range' (i + 1) (xs.length - (i + 1))).foldl (fun ys j => compareSwap key ys i j) xs

/-- The loop over `i`. -/
def sort (xs : List α) : List α :=
  (List.range' 0 (xs.length - 1)).foldl (fun ys i => innerLoop key i ys) xs

/-! ### The inner loop -/

/-- What the inner loop makes of the entry `x` and the entries after it. -/
private def pass (x : α) : List α → α × List α
  | [] => (x, [])
  | y :: ys => if key x > key y then ((pass y ys).1, x :: (pass y ys).2) else ((pass x ys).1, y :: (pass x ys).2)

private theorem perm_pass (x : α) (ys : List α) : ((pass key x ys).1 :: (pass key x ys).2).Perm (x :: ys) := by
  induction ys generalizing x with
  | nil => exact List.Perm.refl _
  | cons y ys ih =>
    unfold pass
    split
    · exact (List.Perm.swap ..).trans ((ih y).cons x)
    · exact (List.Perm.swap ..).trans (((ih x).cons y).trans (List.Perm.swap ..))

private theorem key_pass_le (x : α) (ys : List α) : ∀ z ∈ x :: ys, key (pass key x ys).1 ≤ key z := by
  induction ys generalizing x with
  | nil =>
    intro z hz
    rw [List.mem_singleton.1 hz, pass]
  | cons y ys ih =>
    intro z hz
    unfold pass
    split
    · rename_i hxy
      rcases List.mem_cons.1 hz with rfl | hz
      · exact (ih y y (List.mem_cons_self ..)).trans (Nat.le_of_lt hxy)
      · exact ih y z hz
    · rename_i hxy
      rcases List.mem_cons.1 hz with rfl | hz
      · exact ih z z (List.mem_cons_self ..)
      · rcases List.mem_cons.1 hz with rfl | hz
        · exact (ih x x (List.mem_cons_self ..)).trans (Nat.le_of_not_lt hxy)
        · exact ih x z (List.mem_cons_of_mem _ hz)

private theorem compareSwap_append (pre mid : List α) (x y : α) (ys : List α) :
    compareSwap key (pre ++ x :: (mid ++ y :: ys)) pre.length (pre.length + 1 + mid.length) =
      if key x > key y then pre ++ y :: (mid ++ x :: ys) else pre ++ x :: (mid ++ y :: ys) := by
  have hi : (pre ++ x :: (mid ++ y :: ys))[pre.length]? = some x := by simp
  have hj : (pre ++ x :: (mid ++ y :: ys))[pre.length + 1 + mid.length]? = some y := by
    rw [Nat.add_assoc, List.getElem?_append_right (Nat.le_add_right ..), Nat.add_sub_cancel_left, Nat.add_comm 1]
    simp
  simp only [compareSwap, hi, hj]
  split
  · rw [List.set_append_right _ _ (Nat.le_refl _), Nat.sub_self, List.set_cons_zero, Nat.add_assoc,
      List.set_append_right _ _ (Nat.le_add_right ..), Nat.add_sub_cancel_left, Nat.add_comm 1, List.set_cons_succ,
      List.set_append_right _ _ (Nat.le_refl _), Nat.sub_self, List.set_cons_zero]
  · rfl

-- the entries `mid` have been compared with entry `pre.length`, which is now `x`
private theorem foldl_compareSwap (pre mid : List α) (x : α) (ys : List α) :
    (List.range' (pre.length + 1 + mid.length) ys.length).foldl (fun zs j => compareSwap key zs pre.length j)
        (pre ++ x :: (mid ++ ys)) =
      pre ++ (pass key x ys).1 :: (mid ++ (pass key x ys).2) := by
  induction ys generalizing x mid with
  | nil => rfl
  | cons y ys ih =>
    rw [List.length_cons, List.range'_succ, List.foldl_cons, compareSwap_append, pass]
    split
    · have h := ih (mid ++ [x]) y
      simpa [Nat.add_assoc] using h
    · have h := ih (mid ++ [y]) x
      simpa [Nat.add_assoc] using h

/-- The inner loop moves a least element of the rest of the list to its front. -/
theorem innerLoop_spec (pre : List α) (x : α) (ys : List α) :
    ∃ m rest, innerLoop key pre.length (pre ++ x :: ys) = pre ++ m :: rest ∧ (m :: rest).Perm (x :: ys) ∧
      ∀ z ∈ rest, key m ≤ key z := by
  refine ⟨(pass key x ys).1, (pass key x ys).2, ?_, perm_pass key x ys, fun z hz => ?_⟩
  · have hlen : (pre ++ x :: ys).length - (pre.length + 1) = ys.length := by simp; omega
    rw [innerLoop, hlen]
    exact foldl_compareSwap key pre [] x ys
  · exact key_pass_le key x ys z ((perm_pass key x ys).mem_iff.1 (List.mem_cons_of_mem _ hz))

/-! ### The sort -/

-- the entries `pre` are in place
private theorem foldl_innerLoop (n : ℕ) (pre ys : List α) (hn : ys.length = n) :
    ∃ zs, (List.range' pre.length (n - 1)).foldl (fun ys i => innerLoop key i ys) (pre ++ ys) = pre ++ zs ∧
      zs.Perm ys ∧ zs.Pairwise (fun a b => key a ≤ key b) := by
  induction n generalizing pre ys with
  | zero =>
    obtain rfl := List.length_eq_zero_iff.1 hn
    exact ⟨[], rfl, List.Perm.refl _, List.Pairwise.nil⟩
  | succ n ih =>
    obtain ⟨x, ys, rfl⟩ := List.exists_of_length_succ ys hn
    cases n with
    | zero =>
      obtain rfl := List.length_eq_zero_iff.1 (Nat.succ.inj hn)
      exact ⟨[x], rfl, List.Perm.refl _, List.pairwise_singleton ..⟩
    | succ n =>
      obtain ⟨m, rest, hinner, hperm, hmin⟩ := innerLoop_spec key pre x ys
      have hlen : rest.length = n + 1 := by
        have := hperm.length_eq
        simp only [List.length_cons] at this hn
        omega
      obtain ⟨zs, hzs, hzperm, hsorted⟩ := ih (pre ++ [m]) rest hlen
      refine ⟨m :: zs, ?_, (hzperm.cons m).trans hperm, List.pairwise_cons.2 ⟨fun z hz => ?_, hsorted⟩⟩
      · rw [Nat.add_sub_cancel, List.range'_succ, List.foldl_cons, hinner]
        simpa using hzs
      · exact hmin z (hzperm.mem_iff.1 hz)

theorem perm_sort (xs : List α) : (sort key xs).Perm xs := by
  obtain ⟨zs, hzs, hperm, _⟩ := foldl_innerLoop key xs.length [] xs rfl
  rw [sort]
  exact hzs ▸ hperm

theorem pairwise_sort (xs : List α) : (sort key xs).Pairwise (fun a b => key a ≤ key b) := by
  obtain ⟨zs, hzs, _, hsorted⟩ := foldl_innerLoop key xs.length [] xs rfl
  rw [sort]
  exact hzs ▸ hsorted

/-- With different keys there is one sorted order. -/
theorem sort_eq_of_perm {xs ys : List α} (h : xs.Perm ys) (hys : ys.Pairwise (fun a b => key a < key b)) :
    sort key xs = ys := by
  have hnodup : (ys.map key).Nodup := List.pairwise_map.2 (hys.imp Nat.ne_of_lt)
  have hperm : (sort key xs).Perm ys := (perm_sort key xs).trans h
  refine List.Perm.eq_of_pairwise (fun a b ha hb hab hba => ?_) (pairwise_sort key xs) (hys.imp Nat.le_of_lt) hperm
  exact List.inj_on_of_nodup_map hnodup (hperm.mem_iff.1 ha) hb (Nat.le_antisymm hab hba)

/-- With different keys the order of the input does not matter. -/
theorem sort_eq_sort_of_perm {xs ys : List α} (h : xs.Perm ys) (hnodup : (ys.map key).Nodup) :
    sort key xs = sort key ys := by
  have hkeys : ((sort key ys).map key).Nodup := ((perm_sort key ys).map key).nodup_iff.2 hnodup
  refine sort_eq_of_perm key (h.trans (perm_sort key ys).symm) ?_
  exact (pairwise_sort key ys).imp₂ (fun a b hle hne => Nat.lt_of_le_of_ne hle hne) (List.pairwise_map.1 hkeys)

end ExchangeSort
