import Mathlib.Algebra.Order.Field.Basic
import Mathlib.Tactic.Linarith

/-!
# Token buckets

An exact token bucket: it holds at most `burst` tokens, gains `rate` tokens in a unit of time, and every request that
is let through takes one.  `level` is what the bucket holds at a time.  It grows by no more than `rate` times the time
that passes, and a request that is let through lowers it by one.

`Within` is the invariant behind the bound for a time window: the requests let through since the window began, and the
tokens that are left, are together no more than `burst` and what has come in since then.
-/

namespace TokenBucket

variable {K : Type} [Field K] [LinearOrder K]

structure Bucket (K : Type) [Field K] [LinearOrder K] where
  rate : K
  burst : K
  tokens : K
  last : K
  rate_nonneg : 0 ≤ rate
  tokens_nonneg : 0 ≤ tokens
  tokens_le : tokens ≤ burst

namespace Bucket

variable (b : Bucket K) {now later : K}

/-- A new bucket is full. -/
def full (rate burst last : K) (hrate : 0 ≤ rate) (hburst : 0 ≤ burst) : Bucket K where
  rate := rate
  burst := burst
  tokens := burst
  last := last
  rate_nonneg := hrate
  tokens_nonneg := hburst
  tokens_le := le_rfl

/-- The tokens at a time; before the last use no time has passed. -/
def level (now : K) : K := min b.burst (b.tokens + max 0 (now - b.last) * b.rate)

theorem level_le_burst (now : K) : b.level now ≤ b.burst := min_le_left _ _

variable [IsStrictOrderedRing K]

theorem tokens_le_level (now : K) : b.tokens ≤ b.level now :=
  le_min b.tokens_le (le_add_of_nonneg_right (mul_nonneg (le_max_left _ _) b.rate_nonneg))

theorem level_nonneg (now : K) : 0 ≤ b.level now := b.tokens_nonneg.trans (b.tokens_le_level now)

/-- A request takes a token if there is one, and leaves the bucket alone otherwise. -/
def take (now : K) : Bucket K × Bool :=
  if h : 1 ≤ b.level now then
    ({ b with
        tokens := b.level now - 1
        last := now
        tokens_nonneg := sub_nonneg.2 h
        tokens_le := (sub_le_self _ zero_le_one).trans (b.level_le_burst now) },
      true)
  else (b, false)

theorem level_full {rate burst : K} (hrate : 0 ≤ rate) (hburst : 0 ≤ burst) (last now : K) :
    (full rate burst last hrate hburst).level now = burst :=
  le_antisymm (level_le_burst _ now) (tokens_le_level (full rate burst last hrate hburst) now)

/-- No more tokens come in than the rate allows. -/
theorem level_le_add (h : now ≤ later) : b.level later ≤ b.level now + (later - now) * b.rate := by
  have hmax : max 0 (later - b.last) ≤ max 0 (now - b.last) + (later - now) := by
    rcases le_total 0 (now - b.last) with hle | hle
    · rw [max_eq_right hle, max_eq_right (by linarith)]
      linarith
    · rw [max_eq_left hle, zero_add]
      exact max_le (by linarith) (by linarith)
  have hmul := mul_le_mul_of_nonneg_right hmax b.rate_nonneg
  rw [add_mul] at hmul
  rcases le_total b.burst (b.tokens + max 0 (now - b.last) * b.rate) with hfull | hfull
  · have hgain : 0 ≤ (later - now) * b.rate := mul_nonneg (sub_nonneg.2 h) b.rate_nonneg
    have hnow : b.level now = b.burst := min_eq_left hfull
    linarith [b.level_le_burst later]
  · have hnow : b.level now = b.tokens + max 0 (now - b.last) * b.rate := min_eq_right hfull
    have hlater : b.level later ≤ b.tokens + max 0 (later - b.last) * b.rate := min_le_right _ _
    linarith

theorem take_eq_true_iff : (b.take now).2 = true ↔ 1 ≤ b.level now := by
  unfold take
  split
  · exact iff_of_true rfl ‹_›
  · exact iff_of_false Bool.false_ne_true ‹_›

/-- A request that is let through takes one token. -/
theorem level_take (h : 1 ≤ b.level now) : (b.take now).1.level now = b.level now - 1 := by
  rw [take, dif_pos h]
  show min b.burst (b.level now - 1 + max 0 (now - now) * b.rate) = b.level now - 1
  rw [sub_self, max_self, zero_mul, add_zero]
  exact min_eq_right ((sub_le_self _ zero_le_one).trans (b.level_le_burst now))

theorem take_of_lt (h : b.level now < 1) : b.take now = (b, false) := dif_neg (not_le.2 h)

/-- The bucket was last used before this time, or it has never been used. -/
def Settled (now : K) : Prop := b.last ≤ now ∨ b.tokens = b.burst

variable {b}

omit [IsStrictOrderedRing K] in
theorem Settled.mono (h : b.Settled now) (hle : now ≤ later) : b.Settled later := h.imp_left hle.trans'

theorem Settled.take (h : b.Settled now) : (b.take now).1.Settled now := by
  unfold Bucket.take
  split
  · exact .inl le_rfl
  · exact h

/-- Up to the brim, no fewer tokens come in than the rate says. -/
theorem Settled.level_later (h : b.Settled now) (hle : now ≤ later) :
    b.level later = b.burst ∨ b.level now + (later - now) * b.rate ≤ b.level later := by
  rcases h with hlast | hfull
  · rcases le_total b.burst (b.tokens + max 0 (later - b.last) * b.rate) with hbrim | hbrim
    · exact .inl (min_eq_left hbrim)
    · right
      have hnow : b.level now ≤ b.tokens + max 0 (now - b.last) * b.rate := min_le_right _ _
      have hlater : b.level later = b.tokens + max 0 (later - b.last) * b.rate := min_eq_right hbrim
      rw [max_eq_right (by linarith)] at hnow hlater
      linarith
  · exact .inl (le_antisymm (b.level_le_burst later) (hfull ▸ b.tokens_le_level later))

variable (b)

theorem take_rate : (b.take now).1.rate = b.rate := by
  unfold take
  split <;> rfl

theorem take_burst : (b.take now).1.burst = b.burst := by
  unfold take
  split <;> rfl

end Bucket

/-! ### The bound for a window -/

/-- Up to the time `now`, `count` requests were let through in the window from `start` to `stop`, and `level` tokens
are left. -/
structure Within (rate burst start stop : K) (count : Nat) (level now : K) : Prop where
  nonneg : 0 ≤ level
  le_burst : level ≤ burst
  early : now < start → count = 0
  inside : start ≤ now → now ≤ stop → count + level ≤ burst + (now - start) * rate
  bound : (count : K) ≤ burst + (stop - start) * rate

namespace Within

variable [IsStrictOrderedRing K] {rate burst start stop level level' now later : K} {count : Nat}

theorem init (hrate : 0 ≤ rate) (hburst : 0 ≤ burst) (h : start ≤ stop) (now : K) :
    Within rate burst start stop 0 burst now where
  nonneg := hburst
  le_burst := le_rfl
  early := fun _ => rfl
  inside := by
    intro hstart _
    have := mul_nonneg (sub_nonneg.2 hstart) hrate
    rw [Nat.cast_zero]
    linarith
  bound := by
    have := mul_nonneg (sub_nonneg.2 h) hrate
    rw [Nat.cast_zero]
    linarith

/-- Time passes, and no more tokens come in than the rate allows. -/
theorem wait (h : Within rate burst start stop count level now) (hrate : 0 ≤ rate) (hlater : now ≤ later)
    (hnonneg : 0 ≤ level') (hburst : level' ≤ burst) (hle : level' ≤ level + (later - now) * rate) :
    Within rate burst start stop count level' later where
  nonneg := hnonneg
  le_burst := hburst
  early := fun hearly => h.early (hlater.trans_lt hearly)
  inside := by
    intro hstart hstop
    rcases lt_or_ge now start with hbefore | hafter
    · have hgain := mul_nonneg (sub_nonneg.2 hstart) hrate
      rw [h.early hbefore, Nat.cast_zero]
      linarith
    · have hinside := h.inside hafter (hlater.trans hstop)
      have hsplit : (later - start) * rate = (now - start) * rate + (later - now) * rate := by
        rw [← add_mul, add_comm, sub_add_sub_cancel]
      linarith
  bound := h.bound

/-- A request is let through inside the window. -/
theorem take (h : Within rate burst start stop count level now) (hstart : start ≤ now) (hstop : now ≤ stop)
    (hrate : 0 ≤ rate) (htoken : 1 ≤ level) : Within rate burst start stop (count + 1) (level - 1) now := by
  have hinside : (count + 1 : Nat) + (level - 1) ≤ burst + (now - start) * rate := by
    rw [Nat.cast_succ]
    linarith [h.inside hstart hstop]
  have hgain : (now - start) * rate ≤ (stop - start) * rate :=
    mul_le_mul_of_nonneg_right (by linarith) hrate
  exact
    { nonneg := by linarith
      le_burst := by linarith [h.le_burst]
      early := fun hearly => absurd hstart (not_le.2 hearly)
      inside := fun _ _ => hinside
      bound := by linarith }

/-- A request is let through outside the window. -/
theorem take_outside (h : Within rate burst start stop count level now) (hout : now < start ∨ stop < now)
    (htoken : 1 ≤ level) : Within rate burst start stop count (level - 1) now where
  nonneg := by linarith
  le_burst := by linarith [h.le_burst]
  early := h.early
  inside := by
    intro hstart hstop
    rcases hout with hout | hout
    · exact absurd hstart (not_le.2 hout)
    · exact absurd hstop (not_le.2 hout)
  bound := h.bound

end Within

end TokenBucket
