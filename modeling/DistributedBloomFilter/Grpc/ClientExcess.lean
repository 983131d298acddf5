import DistributedBloomFilter.Grpc.ClientLimit

/-!
# No weaker condition on cleanups

A cleanup that forgets a limiter of a client while it is in use, or before it is full, lets the client have more than
its burst and its rate: all it takes is a burst of calls right after it.  The reason is that the bound for a window is
always tight from some time on.  Since then the client has used up everything that its limiter does not hold now, and
so the new limiter, which is full, is too much.
-/

namespace DistributedBloomFilter

open TokenBucket (Bucket)

namespace ClientCalls

variable {client : Bytes} {s s' : ClientCalls} {now : Time} {rps burst : Int}

/-! ### What the client has used up -/

/-- From some time on, what the client was allowed and what it has left is all that came in. -/
structure Spent (client : Bytes) (rps burst : Int) (s : ClientCalls) : Prop extends Apart client s where
  rps_eq : s.interceptor.perClientRPS = rps
  burst_eq : s.interceptor.perClientBurst = burst
  settled : (s.interceptor.limiterOf client).Settled (seconds s.clock)
  past : ∀ t ∈ s.timesOf client, t ≤ s.clock
  tight : ∃ begin ≤ s.clock, (burst : ℚ) + (seconds s.clock - seconds begin) * rps ≤
    (s.timesOf client).countP (begin ≤ ·) + s.level client s.clock

theorem Spent.config (h : Spent client rps burst s) :
    (s.interceptor.limiterOf client).rate = rps ∧ (s.interceptor.limiterOf client).burst = burst := by
  rw [← h.rps_eq, ← h.burst_eq]
  exact s.interceptor.limiterOf_config client

theorem Spent.tight_later (h : Spent client rps burst s) (htime : s.clock ≤ now) :
    ∃ begin ≤ now, (burst : ℚ) + (seconds now - seconds begin) * rps ≤
      (s.timesOf client).countP (begin ≤ ·) + s.level client now := by
  obtain ⟨begin, hbegin, htight⟩ := h.tight
  rcases h.settled.level_later (seconds_le_seconds.2 htime) with hfull | hgain
  · -- the limiter is full, and a new window begins
    refine ⟨now, le_rfl, ?_⟩
    rw [sub_self, zero_mul, add_zero, level, hfull, h.config.2]
    exact le_add_of_nonneg_left (Nat.cast_nonneg _)
  · refine ⟨begin, hbegin.trans htime, ?_⟩
    rw [h.config.1] at hgain
    unfold level at htight ⊢
    linarith

theorem Spent.step {e : ClientEvent} (h : Spent client rps burst s) (htime : s.clock ≤ e.time)
    (hspares : s.Spares client e) : Spent client rps burst (s.step e) := by
  have hconfig := @act_config s e.time e.action
  have hsettled := h.settled.mono (seconds_le_seconds.2 htime)
  have hpast : ∀ t ∈ s.timesOf client, t ≤ e.time := fun t ht => (h.past t ht).trans htime
  obtain ⟨begin, hbegin, htight⟩ := h.tight_later htime
  have hapart : Apart client (s.step e) := (apart_act h.toApart hspares).of_held le_rfl rfl fun _ _ hl => hl
  -- it is enough to look at the state before the clock is set
  suffices hact : ((s.act e.time e.action).interceptor.limiterOf client).Settled (seconds e.time) ∧
      (∀ t ∈ (s.act e.time e.action).timesOf client, t ≤ e.time) ∧
      (burst : ℚ) + (seconds e.time - seconds begin) * rps ≤
        ((s.act e.time e.action).timesOf client).countP (begin ≤ ·) + (s.act e.time e.action).level client e.time from
    ⟨hapart, hconfig.1.trans h.rps_eq, hconfig.2.trans h.burst_eq, hact.1, hact.2.1, begin, hbegin, hact.2.2⟩
  cases taking_act h.toApart hspares with
  | same htimes hlimiter =>
    rw [htimes, level, hlimiter]
    exact ⟨hsettled, hpast, htight⟩
  | renewed htimes hfull hnone =>
    rw [htimes, level, RateLimitInterceptor.level_limiterOf_of_none _ hnone, hconfig.2, ← hfull]
    refine ⟨.inr ?_, hpast, htight⟩
    rw [RateLimitInterceptor.limiterOf, hnone]
    rfl
  | taken htimes htoken hlimiter =>
    rw [htimes, level, hlimiter, Bucket.level_take _ htoken]
    refine ⟨hsettled.take, List.forall_mem_cons.2 ⟨le_rfl, hpast⟩, ?_⟩
    rw [List.countP_cons_of_pos (by simpa using hbegin), Nat.cast_succ]
    unfold level at htight
    linarith

theorem spent_start (config : RateLimitConfig) (client : Bytes) (clock : Time) :
    Spent client (orDefault config.perClientRPS perClientRateLimit)
      (orDefault config.perClientBurst perClientBurstSize) (.start config clock) := by
  have hlevel : (ClientCalls.start config clock).level client clock =
    orDefault config.perClientBurst perClientBurstSize :=
    RateLimitInterceptor.level_limiterOf_of_none _ rfl _
  refine ⟨(bounded_start config client clock 0 0).toApart, rfl, rfl, .inr rfl, nofun, clock, le_rfl, ?_⟩
  show _ + (seconds clock - seconds clock) * _ ≤ _ + (ClientCalls.start config clock).level client clock
  rw [hlevel, sub_self, zero_mul, add_zero]
  exact le_add_of_nonneg_left (Nat.cast_nonneg _)

/-! ### A burst of calls -/

/-- Calls one after the other at the same time, with their numbers from the first one on. -/
def wholeCalls (client : Bytes) (time : Time) : Nat → Nat → List ClientEvent
  | _, 0 => []
  | call, n + 1 => wholeCall client call time ++ wholeCalls client time (call + 1) n

/-- A call that is alone and finds a token takes it. -/
theorem exec_wholeCall (htoken : 1 ≤ s.level client now) :
    let s' := Run.exec step s (wholeCall client s.calls.length now)
    s'.timesOf client = now :: s.timesOf client ∧ s'.level client now = s.level client now - 1 ∧
      s'.calls.length = s.calls.length + 1 := by
  intro s'
  obtain ⟨hinterceptor, hallowed, hlength⟩ := s.exec_allowClient client ⟨now, now, now⟩ now
  obtain ⟨hlimiter, hresult⟩ := s.interceptor.allowClient_spec ⟨now, now, now⟩ client
  rw [(Bucket.take_eq_true_iff _).2 htoken] at hresult
  rw [if_pos hresult] at hallowed
  refine ⟨timesOf_cons_self hallowed, ?_, hlength⟩
  have hbucket : s'.interceptor.limiterOf client = _ := (congrArg (·.limiterOf client) hinterceptor).trans hlimiter
  rw [level, hbucket, Bucket.level_take _ htoken]
  rfl

/-- As many calls as there are tokens are all allowed. -/
theorem timesOf_wholeCalls {n : Nat} (htokens : (n : ℚ) ≤ s.level client now) :
    (Run.exec step s (wholeCalls client now s.calls.length n)).timesOf client =
      List.replicate n now ++ s.timesOf client := by
  induction n generalizing s with
  | zero => rfl
  | succ n ih =>
    rw [Nat.cast_succ] at htokens
    have hn : (0 : ℚ) ≤ n := Nat.cast_nonneg n
    obtain ⟨htimes, hlevel, hlength⟩ := exec_wholeCall (show 1 ≤ s.level client now by linarith)
    rw [wholeCalls, Run.exec_append, ← hlength, ih (by rw [hlevel]; linarith), htimes, List.replicate_succ',
      List.append_assoc]
    rfl

/-- A call that has a limiter is about to ask it, once it has noted the time. -/
theorem step_see {i limiter : Nat} {phase : CallPhase} (hi : s.calls[i]? = some ⟨client, phase⟩)
    (hlimiter : phase.limiter = some limiter) :
    let s' := s.step ⟨now, .see i⟩
    s'.calls[i]? = some ⟨client, .seen limiter⟩ ∧ s'.interceptor.limiters = s.interceptor.limiters ∧
      s'.interceptor.clientLimiters = s.interceptor.clientLimiters ∧
      s'.interceptor.perClientBurst = s.interceptor.perClientBurst ∧ s'.allowed = s.allowed := by
  have hlt : i < s.calls.length := (List.getElem?_eq_some_iff.1 hi).1
  cases phase with
  | missing | done => cases hlimiter
  | found l =>
    obtain rfl := Option.some.inj hlimiter
    simp only [step, act, hi]
    exact ⟨List.getElem?_set_self hlt, rfl, rfl, rfl, trivial⟩
  | seen l =>
    obtain rfl := Option.some.inj hlimiter
    simp only [step, act, hi]
    exact ⟨trivial, trivial, trivial, trivial, trivial⟩

theorem step_allow {i limiter : Nat} (hi : s.calls[i]? = some ⟨client, .seen limiter⟩)
    (htoken : 1 ≤ (s.interceptor.limiters limiter).level (seconds now)) :
    let s' := s.step ⟨now, .allow i⟩
    s'.timesOf client = now :: s.timesOf client ∧
      s'.interceptor.clientLimiters = s.interceptor.clientLimiters ∧
      s'.interceptor.perClientBurst = s.interceptor.perClientBurst := by
  have hresult : (s.interceptor.allow now limiter).2 = true := (Bucket.take_eq_true_iff _).2 htoken
  simp only [step, act, hi]
  exact ⟨timesOf_cons_self (if_pos hresult), rfl, rfl⟩

/-- A call that holds a limiter still gets a token of it, whatever the map says. -/
theorem exec_held {i limiter : Nat} {phase : CallPhase} (hi : s.calls[i]? = some ⟨client, phase⟩)
    (hlimiter : phase.limiter = some limiter) (htoken : 1 ≤ (s.interceptor.limiters limiter).level (seconds now)) :
    let s' := Run.exec step s [⟨now, .see i⟩, ⟨now, .allow i⟩]
    s'.timesOf client = now :: s.timesOf client ∧
      s'.interceptor.clientLimiters = s.interceptor.clientLimiters ∧
      s'.interceptor.perClientBurst = s.interceptor.perClientBurst := by
  intro s'
  obtain ⟨hseen, hlimiters, hmap, hburst, hallowed⟩ := @step_see client s now i limiter phase hi hlimiter
  rw [← hlimiters] at htoken
  obtain ⟨htimes, hmap', hburst'⟩ := step_allow hseen htoken
  have hsame : (s.step ⟨now, .see i⟩).timesOf client = s.timesOf client := by
    unfold timesOf
    rw [hallowed]
  exact ⟨htimes.trans (congrArg _ hsame), hmap'.trans hmap, hburst'.trans hburst⟩

/-! ### Too much -/

/-- A step of a call. -/
def IsCall (e : ClientEvent) : Prop := ∀ started, e.action ≠ .cleanup started

/-- The steps are steps of calls at this time. -/
def CallsAt (now : Time) (fs : List ClientEvent) : Prop := ∀ f ∈ fs, f.time = now ∧ IsCall f

theorem callsAt_wholeCalls (client : Bytes) (now : Time) (call n : Nat) :
    CallsAt now (wholeCalls client now call n) := by
  induction n generalizing call with
  | zero => nofun
  | succ n ih =>
    rw [wholeCalls]
    refine List.forall_mem_append.2 ⟨?_, ih (call + 1)⟩
    intro f hf
    simp only [wholeCall, List.mem_cons, List.not_mem_nil, or_false] at hf
    rcases hf with rfl | rfl | rfl | rfl <;> exact ⟨rfl, nofun⟩

/-- A new limiter lets through as many calls as its burst at once. -/
theorem burst_of_none (hnone : s.interceptor.clientLimiters client = none)
    (hburst : s.interceptor.perClientBurst = burst) {begin : Time} (hbegin : begin ≤ now) :
    ∃ fs, CallsAt now fs ∧ ((Run.exec step s fs).allowedIn client begin now : ℚ) =
      burst + (s.timesOf client).countP fun t => begin ≤ t ∧ t ≤ now := by
  have hpos := s.interceptor.perClientBurst_pos
  have hlevel := s.interceptor.level_limiterOf_of_none hnone (seconds now)
  rw [hburst] at hpos hlevel
  have hcast : ((burst.toNat : Nat) : ℚ) = burst := by
    exact_mod_cast Int.toNat_of_nonneg hpos.le
  refine ⟨_, callsAt_wholeCalls client now s.calls.length burst.toNat, ?_⟩
  rw [allowedIn_eq_countP, timesOf_wholeCalls (hcast.trans hlevel.symm).le, List.countP_append, List.countP_replicate,
    if_pos (by simpa using hbegin), Nat.cast_add, hcast]

/-- A new limiter in the place of one that is not full. -/
theorem exceeds_of_not_full (h : Spent client rps burst s) (htime : s.clock ≤ now)
    (hlevel : s.level client now ≠ burst) (hnone : s'.interceptor.clientLimiters client = none)
    (hburst : s'.interceptor.perClientBurst = burst) (htimes : s'.timesOf client = s.timesOf client) :
    ∃ fs, CallsAt now fs ∧ ∃ begin ≤ now, (burst : ℚ) + (seconds now - seconds begin) * rps <
      (Run.exec step s' fs).allowedIn client begin now := by
  obtain ⟨begin, hbegin, htight⟩ := h.tight_later htime
  obtain ⟨fs, hfs, hcount⟩ := burst_of_none hnone hburst hbegin
  have hlt : s.level client now < burst := by
    refine lt_of_le_of_ne ?_ hlevel
    rw [← h.config.2]
    exact Bucket.level_le_burst _ _
  -- all calls so far are before the end of the window
  have hpast : (s.timesOf client).countP (begin ≤ ·) = (s.timesOf client).countP fun t => begin ≤ t ∧ t ≤ now := by
    refine List.countP_congr fun t ht => ?_
    have hnow := (h.past t ht).trans htime
    simp [hnow]
  refine ⟨fs, hfs, begin, hbegin, ?_⟩
  rw [hcount, htimes, ← hpast]
  linarith

/-- A new limiter next to one that a call still holds. -/
theorem exceeds_of_held {i limiter : Nat} {phase : CallPhase} (hi : s.calls[i]? = some ⟨client, phase⟩)
    (hlimiter : phase.limiter = some limiter) (htoken : 1 ≤ (s.interceptor.limiters limiter).level (seconds now))
    (hnone : s.interceptor.clientLimiters client = none) (hburst : s.interceptor.perClientBurst = burst) :
    ∃ fs, CallsAt now fs ∧ (burst : ℚ) < (Run.exec step s fs).allowedIn client now now := by
  obtain ⟨htimes, hmap, hburst'⟩ := @exec_held client s now i limiter phase hi hlimiter htoken
  obtain ⟨fs, hfs, hcount⟩ := burst_of_none ((congrFun hmap client).trans hnone) (hburst'.trans hburst) (le_refl now)
  refine ⟨[⟨now, .see i⟩, ⟨now, .allow i⟩] ++ fs, List.forall_mem_append.2 ⟨?_, hfs⟩, ?_⟩
  · intro f hf
    simp only [List.mem_cons, List.not_mem_nil, or_false] at hf
    rcases hf with rfl | rfl <;> exact ⟨rfl, nofun⟩
  · rw [Run.exec_append, hcount, htimes, List.countP_cons_of_pos (by simp), Nat.cast_succ]
    have hcast : (0 : ℚ) ≤ (s.timesOf client).countP fun t => now ≤ t ∧ t ≤ now := Nat.cast_nonneg _
    linarith

/-- After a cleanup that does not spare the client, a burst of calls at once is too much. -/
theorem exceeds_of_not_spares {e : ClientEvent} (h : Spent client rps burst s) (htime : s.clock ≤ e.time)
    (hnot : ¬ s.Spares client e) :
    ∃ fs, CallsAt e.time fs ∧ ∃ begin ≤ e.time, (burst : ℚ) + (seconds e.time - seconds begin) * rps <
      (Run.exec step (s.step e) fs).allowedIn client begin e.time := by
  obtain ⟨now, action⟩ := e
  cases action with
  | lookup | create | see | allow => exact absurd trivial hnot
  | cleanup started =>
    obtain ⟨hin, hnot⟩ := Classical.not_imp.1 hnot
    have hnone : (s.step ⟨now, .cleanup started⟩).interceptor.clientLimiters client = none := if_pos hin
    by_cases hfull : s.level client now = burst
    · -- one of the calls holds a limiter, and this is the full one
      have hheld : ∃ call ∈ s.calls, call.client = client ∧ call.phase.limiter ≠ none := by
        by_contra hno
        push Not at hno
        exact hnot ⟨hno, by rw [h.burst_eq]; exact hfull⟩
      obtain ⟨⟨id, phase⟩, hmem, rfl, hphase⟩ := hheld
      obtain ⟨limiter, hlimiter⟩ := Option.ne_none_iff_exists'.1 hphase
      obtain ⟨i, hi⟩ := List.mem_iff_getElem?.1 hmem
      have hcurrent := h.current limiter (.inr ⟨_, hmem, rfl, hlimiter⟩)
      have htoken : 1 ≤ (s.interceptor.limiters limiter).level (seconds now) := by
        rw [level, RateLimitInterceptor.limiterOf, hcurrent] at hfull
        rw [show (s.interceptor.limiters limiter).level (seconds now) = burst from hfull, ← h.burst_eq]
        exact_mod_cast s.interceptor.perClientBurst_pos
      obtain ⟨fs, hfs, hlt⟩ := @exceeds_of_held id (s.step ⟨now, .cleanup started⟩) now burst i limiter phase hi
        hlimiter htoken hnone h.burst_eq
      refine ⟨fs, hfs, now, le_rfl, ?_⟩
      rw [sub_self, zero_mul, add_zero]
      exact hlt
    · exact exceeds_of_not_full h htime hfull hnone h.burst_eq rfl

/-! ### The condition -/

theorem admits_times_of_callsAt {fs : List ClientEvent} (hfs : CallsAt now fs) (hclock : s.clock ≤ now) :
    Run.Admits step (fun s e => s.clock ≤ e.time) s fs := by
  induction fs generalizing s with
  | nil => trivial
  | cons f fs ih =>
    have htime := (hfs f List.mem_cons_self).1
    refine ⟨hclock.trans htime.ge, ih (fun g hg => hfs g (List.mem_cons_of_mem f hg)) ?_⟩
    exact htime.le

/-- In a run in which every cleanup that forgets the client finds its limiter full and none of its calls going to ask
one, the calls of the client that are allowed in a window are no more than its burst and its rate for the length of
the window.  And only in such a run is this so whatever calls follow after any part of it. -/
theorem allowedIn_le_iff_spares (config : RateLimitConfig) (client : Bytes) (clock : Time) (es : List ClientEvent)
    (htimes : Run.Admits step (fun s e => s.clock ≤ e.time) (start config clock) es) :
    (Run.Admits step (fun s e => s.Spares client e) (start config clock) es → ∀ (begin : Time) (length : Nat),
      ((Run.exec step (start config clock) es).allowedIn client begin (begin + length) : ℚ) ≤
        orDefault config.perClientBurst perClientBurstSize +
          orDefault config.perClientRPS perClientRateLimit * seconds length) ∧
    ((∀ before calls, before <+: es → (∀ f ∈ calls, IsCall f) → ∀ (begin : Time) (length : Nat),
        ¬ Exceeds config client clock begin length (before ++ calls)) →
      Run.Admits step (fun s e => s.Spares client e) (start config clock) es) := by
  refine ⟨fun hspares begin length => ?_, fun hnone => ?_⟩
  · exact allowedIn_le config client clock begin length es ((Run.admits_and _ _ _).2 ⟨htimes, hspares⟩)
  · by_contra hnot
    obtain ⟨before, e, after, rfl, hbefore, hspares⟩ := Run.exists_of_not_admits _ _ hnot
    obtain ⟨htbefore, htime, -⟩ := (Run.admits_append _ _).1 htimes
    have hstep : ∀ (s : ClientCalls) (e : ClientEvent),
        Spent client (orDefault config.perClientRPS perClientRateLimit)
          (orDefault config.perClientBurst perClientBurstSize) s → s.clock ≤ e.time ∧ s.Spares client e →
        Spent client (orDefault config.perClientRPS perClientRateLimit)
          (orDefault config.perClientBurst perClientBurstSize) (s.step e) := fun s e h he => h.step he.1 he.2
    have hspent := Run.invariant hstep (spent_start config client clock)
      ((Run.admits_and _ _ _).2 ⟨htbefore, hbefore⟩)
    obtain ⟨fs, hfs, begin, hbegin, hlt⟩ := exceeds_of_not_spares hspent htime hspares
    refine hnone (before ++ [e]) fs ⟨after, by rw [List.append_assoc]; rfl⟩ (fun f hf => (hfs f hf).2) begin
      (e.time - begin).toNat ⟨?_, ?_⟩
    · rw [List.append_assoc, Run.admits_append]
      exact ⟨htbefore, htime, admits_times_of_callsAt hfs le_rfl⟩
    · have hlength : begin + ((e.time - begin).toNat : Int) = e.time := by
        rw [Int.toNat_of_nonneg (sub_nonneg.2 hbegin), add_sub_cancel]
      have hseconds := seconds_add begin (e.time - begin).toNat
      rw [hlength] at hseconds
      rw [Run.exec_append, Run.exec_append, hlength, mul_comm, ← sub_eq_of_eq_add' hseconds]
      exact hlt

/-- A call, and eleven minutes later a cleanup and another call. -/
def apartInTime : List ClientEvent :=
  wholeCall [97] 0 0 ++ ⟨660000000000, .cleanup 660000000000⟩ :: wholeCall [97] 1 660000000000

theorem allowedIn_le_apartInTime :
    ((Run.exec step (start oneEach 0) apartInTime).allowedIn [97] 0 (0 + 660000000000) : ℚ) ≤
      orDefault oneEach.perClientBurst perClientBurstSize +
        orDefault oneEach.perClientRPS perClientRateLimit * seconds 660000000000 :=
  (allowedIn_le_iff_spares oneEach [97] 0 apartInTime (by decide +kernel)).1 (by decide +kernel) 0 660000000000

end ClientCalls

end DistributedBloomFilter
