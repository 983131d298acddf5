import Mathlib.Data.List.Pairwise
import Mathlib.Logic.Function.Basic
import Mathlib.Tactic.Common

/-!
# Keys in the order of their last use

A list of keys that a cache keeps by recency: each was used after the ones before it, and all of them before now.  The
order survives whatever takes keys out, and a key that is used goes to the end.
-/

namespace Recency

variable {κ : Type*} {keys : List κ} {used : κ → Nat} {clock : Nat}

/-- The keys were used one after the other, and before now. -/
structure InOrder (keys : List κ) (used : κ → Nat) (clock : Nat) : Prop where
  sorted : keys.Pairwise fun a b => used a < used b
  before : ∀ k ∈ keys, used k < clock

namespace InOrder

theorem nil (used : κ → Nat) (clock : Nat) : InOrder [] used clock := ⟨.nil, nofun⟩

theorem sublist (h : InOrder keys used clock) {keys' : List κ} (hsub : keys'.Sublist keys) :
    InOrder keys' used clock :=
  ⟨h.sorted.sublist hsub, fun k hk => h.before k (hsub.subset hk)⟩

theorem tick (h : InOrder keys used clock) : InOrder keys used (clock + 1) :=
  ⟨h.sorted, fun k hk => Nat.lt_succ_of_lt (h.before k hk)⟩

/-- The last use of the first key is the oldest. -/
theorem head_lt {oldest k : κ} (h : InOrder (oldest :: keys) used clock) (hk : k ∈ keys) : used oldest < used k :=
  (List.pairwise_cons.1 h.sorted).1 k hk

/-- A key that is used now goes to the end. -/
theorem use [DecidableEq κ] (h : InOrder keys used clock) {key : κ} (hkey : key ∉ keys) :
    InOrder (keys ++ [key]) (Function.update used key clock) (clock + 1) := by
  have hother : ∀ k ∈ keys, Function.update used key clock k = used k := fun k hk =>
    Function.update_of_ne (fun heq : k = key => hkey (heq ▸ hk)) clock used
  have hself : Function.update used key clock key = clock := Function.update_self key clock used
  constructor
  · rw [List.pairwise_append]
    refine ⟨h.sorted.imp_of_mem ?_, List.pairwise_singleton _ _, ?_⟩
    · intro a b ha hb hlt
      rw [hother a ha, hother b hb]
      exact hlt
    · intro a ha b hb
      rw [List.mem_singleton.1 hb, hself, hother a ha]
      exact h.before a ha
  · intro k hk
    rcases List.mem_append.1 hk with hk | hk
    · rw [hother k hk]
      exact Nat.lt_succ_of_lt (h.before k hk)
    · rw [List.mem_singleton.1 hk, hself]
      exact Nat.lt_succ_self clock

end InOrder

end Recency
