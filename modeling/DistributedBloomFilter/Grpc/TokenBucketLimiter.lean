import DistributedBloomFilter.Auth.Interceptor
import DistributedBloomFilter.Grpc.RateLimit
import DistributedBloomFilter.Lib.Run

/-!
# The token bucket limiter

`TokenBucketLimiter` of `internal/grpc/ratelimit.go`, with its numbers as exact rationals.  `Allow` fills up the
bucket before it looks for a token, and does so also when it finds none.  In a run at times that do not go back the
tokens stay between zero and `maxTokens`, and no closed window of time has more calls that were allowed than the burst
and what has come in during the window (`allowedIn_le_burst_add`).
-/

namespace DistributedBloomFilter

open TokenBucket (Within)

structure TokenBucketLimiter where
  tokens : ℚ
  maxTokens : ℚ
  /-- tokens per second -/
  refillRate : ℚ
  lastRefill : Time
deriving DecidableEq, Repr

def newTokenBucketLimiter (ratePerSecond burstSize : ℚ) (now : Time) : TokenBucketLimiter :=
  { tokens := burstSize, maxTokens := burstSize, refillRate := ratePerSecond, lastRefill := now }

namespace TokenBucketLimiter

variable (t : TokenBucketLimiter) (now : Time)

/-- `now.Sub(t.lastRefill).Seconds()`. -/
def elapsed : ℚ := seconds (since now t.lastRefill)

/-- The tokens at a time. -/
def refilled : ℚ := min t.maxTokens (t.tokens + t.elapsed now * t.refillRate)

def allow : TokenBucketLimiter × Bool :=
  let t' := { t with tokens := t.refilled now, lastRefill := now }
  if t'.tokens ≥ 1 then ({ t' with tokens := t'.tokens - 1 }, true) else (t', false)

/-- `Tokens`, which leaves the limiter as it is. -/
def tokensNow : ℚ := t.refilled now

variable {t now}

/-- A duration that is too long to be counted is cut off, so no more seconds go by than there are. -/
theorem elapsed_le (h : t.lastRefill ≤ now) : t.elapsed now ≤ seconds now - seconds t.lastRefill := by
  have hle : since now t.lastRefill ≤ now - t.lastRefill := by
    delta since Time at *
    omega
  have hsplit := seconds_add (now - t.lastRefill) t.lastRefill
  rw [Int.sub_add_cancel] at hsplit
  rw [hsplit, add_sub_cancel_right]
  exact seconds_le_seconds.2 hle

theorem elapsed_nonneg (h : t.lastRefill ≤ now) : 0 ≤ t.elapsed now := by
  have hle : 0 ≤ since now t.lastRefill := by
    delta since Time at *
    omega
  have hzero : seconds 0 = 0 := by simp [seconds]
  rw [← hzero]
  exact seconds_le_seconds.2 hle

theorem refilled_le_maxTokens : t.refilled now ≤ t.maxTokens := min_le_left _ _

theorem refilled_nonneg (htokens : 0 ≤ t.tokens) (hmax : 0 ≤ t.maxTokens) (hrate : 0 ≤ t.refillRate)
    (h : t.lastRefill ≤ now) : 0 ≤ t.refilled now :=
  le_min hmax (add_nonneg htokens (mul_nonneg (elapsed_nonneg h) hrate))

/-- No more tokens come in than the rate allows. -/
theorem refilled_le_add (hrate : 0 ≤ t.refillRate) (h : t.lastRefill ≤ now) :
    t.refilled now ≤ t.tokens + (seconds now - seconds t.lastRefill) * t.refillRate := by
  have hmul := mul_le_mul_of_nonneg_right (elapsed_le h) hrate
  calc t.refilled now ≤ t.tokens + t.elapsed now * t.refillRate := min_le_right _ _
    _ ≤ _ := by linarith

/-- The bucket is filled up, and a token is taken if there is one. -/
theorem allow_cases (t : TokenBucketLimiter) (now : Time) :
    1 ≤ t.refilled now ∧ t.allow now = ({ t with tokens := t.refilled now - 1, lastRefill := now }, true) ∨
      t.allow now = ({ t with tokens := t.refilled now, lastRefill := now }, false) := by
  unfold allow
  dsimp only
  split
  · rename_i htoken
    exact .inl ⟨htoken, rfl⟩
  · exact .inr rfl

end TokenBucketLimiter

/-! ### Runs -/

/-- A limiter in use; `allowed` records the times of the calls of `Allow` that returned true. -/
structure LimiterRun where
  limiter : TokenBucketLimiter
  clock : Time
  allowed : List Time

namespace LimiterRun

inductive Event where
  | allow (now : Time)
  | tokens (now : Time)
deriving DecidableEq, Repr

def Event.now : Event → Time
  | allow now => now
  | tokens now => now

def start (ratePerSecond burstSize : ℚ) (now : Time) : LimiterRun :=
  { limiter := newTokenBucketLimiter ratePerSecond burstSize now, clock := now, allowed := [] }

def step (s : LimiterRun) : Event → LimiterRun
  | .allow now =>
    let r := s.limiter.allow now
    { limiter := r.1, clock := now, allowed := if r.2 then now :: s.allowed else s.allowed }
  | .tokens now => { s with clock := now }

/-- The clock does not go back. -/
def InOrder (s : LimiterRun) (e : Event) : Prop := s.clock ≤ e.now

instance (s : LimiterRun) (e : Event) : Decidable (InOrder s e) := inferInstanceAs (Decidable (_ ≤ _))

/-- The calls allowed in a closed window, whose ends are in seconds. -/
def allowedIn (s : LimiterRun) (begin stop : ℚ) : Nat :=
  s.allowed.countP fun t => begin ≤ seconds t ∧ seconds t ≤ stop

structure Inv (rate burst begin stop : ℚ) (s : LimiterRun) : Prop where
  rate_eq : s.limiter.refillRate = rate
  burst_eq : s.limiter.maxTokens = burst
  last : s.limiter.lastRefill ≤ s.clock
  /-- as of the last time the bucket was filled up -/
  within : Within rate burst begin stop (s.allowedIn begin stop) s.limiter.tokens (seconds s.limiter.lastRefill)

variable {rate burst begin stop : ℚ} {s : LimiterRun}

theorem inv_start (hrate : 0 ≤ rate) (hburst : 0 ≤ burst) (h : begin ≤ stop) (now : Time) :
    Inv rate burst begin stop (start rate burst now) where
  rate_eq := rfl
  burst_eq := rfl
  last := le_refl now
  within := Within.init hrate hburst h _

/-- Filling up the bucket. -/
theorem Inv.refilled (h : Inv rate burst begin stop s) (hrate : 0 ≤ rate) {now : Time}
    (hnow : s.limiter.lastRefill ≤ now) :
    Within rate burst begin stop (s.allowedIn begin stop) (s.limiter.refilled now) (seconds now) := by
  have hrate' : 0 ≤ s.limiter.refillRate := h.rate_eq ▸ hrate
  have hmax : 0 ≤ s.limiter.maxTokens := by
    rw [h.burst_eq]
    exact h.within.nonneg.trans h.within.le_burst
  have hle := TokenBucketLimiter.refilled_le_add hrate' hnow
  rw [h.rate_eq] at hle
  refine h.within.wait hrate (seconds_le_seconds.2 hnow) ?_ ?_ hle
  · exact TokenBucketLimiter.refilled_nonneg h.within.nonneg hmax hrate' hnow
  · rw [← h.burst_eq]
    exact TokenBucketLimiter.refilled_le_maxTokens

theorem inv_allow (h : Inv rate burst begin stop s) (hrate : 0 ≤ rate) {now : Time} (hnow : s.clock ≤ now) :
    Inv rate burst begin stop (s.step (.allow now)) := by
  have hfull := h.refilled hrate (h.last.trans hnow)
  simp only [step]
  rcases s.limiter.allow_cases now with ⟨htoken, heq⟩ | heq
  · rw [heq]
    refine ⟨h.rate_eq, h.burst_eq, le_refl now, ?_⟩
    show Within rate burst begin stop ((now :: s.allowed).countP _) (s.limiter.refilled now - 1) (seconds now)
    rw [List.countP_cons]
    split
    · rename_i hin
      have hin := of_decide_eq_true hin
      exact hfull.take hin.1 hin.2 hrate htoken
    · rename_i hout
      rw [decide_eq_true_eq, not_and_or, not_le, not_le] at hout
      exact hfull.take_outside hout htoken
  · rw [heq]
    exact ⟨h.rate_eq, h.burst_eq, le_refl now, hfull⟩

theorem inv_step (hrate : 0 ≤ rate) (s : LimiterRun) (e : Event) (h : Inv rate burst begin stop s)
    (he : InOrder s e) :
    Inv rate burst begin stop (s.step e) := by
  cases e with
  | allow now => exact inv_allow h hrate he
  | tokens now => exact ⟨h.rate_eq, h.burst_eq, h.last.trans he, h.within⟩

/-- In every run at times that do not go back, the tokens of the limiter, and those that `Tokens` returns then or
later, are between zero and `maxTokens`, and in every closed window no more calls are allowed than the burst and the
rate times the seconds of the window. -/
theorem allowedIn_le_burst_add {ratePerSecond burstSize : ℚ} (hrate : 0 ≤ ratePerSecond) (hburst : 0 ≤ burstSize)
    (now : Time) {es : List Event} (h : Run.Admits step InOrder (start ratePerSecond burstSize now) es) :
    let s := Run.exec step (start ratePerSecond burstSize now) es
    (0 ≤ s.limiter.tokens ∧ s.limiter.tokens ≤ s.limiter.maxTokens) ∧
    (∀ later, s.clock ≤ later →
      0 ≤ s.limiter.tokensNow later ∧ s.limiter.tokensNow later ≤ s.limiter.maxTokens) ∧
    ∀ begin t : ℚ, 0 ≤ t → (s.allowedIn begin (begin + t) : ℚ) ≤ burstSize + ratePerSecond * t := by
  intro s
  have hinv : ∀ begin stop : ℚ, begin ≤ stop → Inv ratePerSecond burstSize begin stop s :=
    fun _ _ hle => Run.invariant (inv_step hrate) (inv_start hrate hburst hle now) h
  have hany := hinv 0 0 (le_refl 0)
  refine ⟨⟨hany.within.nonneg, hany.burst_eq ▸ hany.within.le_burst⟩, fun later hlater => ?_, fun begin t ht => ?_⟩
  · exact ⟨(hany.refilled hrate (hany.last.trans hlater)).nonneg, TokenBucketLimiter.refilled_le_maxTokens⟩
  · have hbound := (hinv begin (begin + t) (le_add_of_nonneg_right ht)).within.bound
    rw [add_sub_cancel_left, mul_comm] at hbound
    exact hbound

/-- One token a second and a burst of two: of four calls in the first second the third one is refused, and the window
has as many as it may. -/
theorem allowedIn_le_burst_add_four :
    let s := Run.exec step (start 1 2 0) [.allow 0, .allow 0, .allow 0, .allow 1000000000]
    s.allowed = [1000000000, 0, 0] ∧ (s.allowedIn 0 (0 + 1) : ℚ) ≤ 2 + 1 * 1 := by
  have hbound := (allowedIn_le_burst_add (by decide +kernel : (0 : ℚ) ≤ 1) (by decide +kernel : (0 : ℚ) ≤ 2) 0
    (by decide : Run.Admits step InOrder (start 1 2 0) [.allow 0, .allow 0, .allow 0, .allow 1000000000])).2.2 0 1
    (by decide +kernel)
  exact ⟨by decide +kernel, hbound⟩

end LimiterRun

end DistributedBloomFilter
