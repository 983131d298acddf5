import Mathlib.Algebra.BigOperators.Group.Multiset.Basic
import Mathlib.Algebra.Order.BigOperators.Group.Multiset
import Mathlib.Data.Multiset.Count

/-!
# The load a multiset puts on a family of slots

Every element `x` of a type uses a list `indices x` of slots, possibly the same slot several times.  The `load` of
a multiset `S` on a slot `j` is the number of uses of `j` by the elements of `S`, each counted with its
multiplicity.  An element with `n` copies in `S` loads each of its slots at least `n` times (`count_le_load`).
-/

namespace Load

variable {α ι : Type*} [DecidableEq α] [DecidableEq ι] (indices : α → List ι)

/-- The number of times the elements of `S` use the slot `j`. -/
def load (S : Multiset α) (j : ι) : ℕ := (S.map fun x => (indices x).count j).sum

omit [DecidableEq α] in
@[simp] theorem load_zero (j : ι) : load indices 0 j = 0 := rfl

omit [DecidableEq α] in
@[simp] theorem load_cons (x : α) (S : Multiset α) (j : ι) :
    load indices (x ::ₘ S) j = (indices x).count j + load indices S j := by
  simp [load]

theorem load_erase {x : α} {S : Multiset α} (hx : x ∈ S) (j : ι) :
    load indices S j = (indices x).count j + load indices (S.erase x) j := by
  conv => lhs; rw [← Multiset.cons_erase hx]
  rw [load_cons]

theorem count_le_load {x : α} {j : ι} (hj : j ∈ indices x) (S : Multiset α) :
    S.count x ≤ load indices S j := by
  induction S using Multiset.induction with
  | empty => simp
  | cons a S ih =>
    rw [load_cons, Multiset.count_cons]
    split
    · rename_i hxa
      subst hxa
      have := List.count_pos_iff.2 hj
      omega
    · omega

end Load
