import DistributedBloomFilter.Grpc.RateLimit
import DistributedBloomFilter.Lib.Run

/-!
# The bound for one client

Calls of `allowClient` next to each other and to `cleanupInactiveClients`.  A call looks its limiter up, makes one if
there is none, notes the time and asks the limiter, each under a lock of its own, and anything can happen in between.
In particular a cleanup can forget a limiter that a call holds: the next call makes a new one, which is full, and the
first still takes its token from the old one.  A cleanup can also forget a limiter that has not filled up again, as
what counts is the time noted by the last call, and not the time at which it asked the limiter, nor how long the
limiter needs to be full.

Where neither happens to a client, no more of its calls are allowed in a window than one token bucket would allow
(`allowedIn_le`).  That nothing less will do is in `ClientExcess`.
-/

namespace DistributedBloomFilter

open TokenBucket (Bucket Within)

/-! ### Calls and cleanups -/

/-- How far a call of `allowClient` has come. -/
inductive CallPhase where
  | missing
  | found (limiter : Nat)
  | seen (limiter : Nat)
  | done
deriving DecidableEq, Repr

/-- The limiter that a call is going to ask. -/
def CallPhase.limiter : CallPhase → Option Nat
  | found limiter => some limiter
  | seen limiter => some limiter
  | missing => none
  | done => none

structure ClientCall where
  client : Bytes
  phase : CallPhase
deriving DecidableEq, Repr

/-- The interceptor, the calls in the order of their start, the calls that returned true with their times, and the
time of the last step. -/
structure ClientCalls where
  interceptor : RateLimitInterceptor
  calls : List ClientCall
  allowed : List (Bytes × Time)
  clock : Time

/-- The steps of the calls, which are known by their number, and a whole cleanup.  The cleanup read the clock before
it had the locks. -/
inductive ClientAction where
  | lookup (client : Bytes)
  | create (call : Nat)
  | see (call : Nat)
  | allow (call : Nat)
  | cleanup (started : Time)
deriving DecidableEq, Repr

structure ClientEvent where
  time : Time
  action : ClientAction
deriving DecidableEq, Repr

namespace ClientCalls

def start (config : RateLimitConfig) (clock : Time) : ClientCalls where
  interceptor := newRateLimitInterceptorWithConfig config
  calls := []
  allowed := []
  clock := clock

/-- A step of a call that is not in front of this step changes nothing. -/
def act (s : ClientCalls) (now : Time) : ClientAction → ClientCalls
  | .lookup client =>
    let phase := match s.interceptor.clientLimiters client with
      | some limiter => .found limiter
      | none => .missing
    { s with calls := s.calls ++ [⟨client, phase⟩] }
  | .create i =>
    match s.calls[i]? with
    | some ⟨client, .missing⟩ =>
      let (r, limiter) := s.interceptor.create client
      { s with interceptor := r, calls := s.calls.set i ⟨client, .found limiter⟩ }
    | _ => s
  | .see i =>
    match s.calls[i]? with
    | some ⟨client, .found limiter⟩ =>
      { s with interceptor := s.interceptor.see now client, calls := s.calls.set i ⟨client, .seen limiter⟩ }
    | _ => s
  | .allow i =>
    match s.calls[i]? with
    | some ⟨client, .seen limiter⟩ =>
      let (r, allowed) := s.interceptor.allow now limiter
      { s with
        interceptor := r
        calls := s.calls.set i ⟨client, .done⟩
        allowed := if allowed then (client, now) :: s.allowed else s.allowed }
    | _ => s
  | .cleanup started => { s with interceptor := s.interceptor.cleanupInactiveClients started }

def step (s : ClientCalls) (e : ClientEvent) : ClientCalls := { s.act e.time e.action with clock := e.time }

/-- The steps of a call without others in between are those of `allowClient`. -/
theorem exec_allowClient (s : ClientCalls) (client : Bytes) (now : Readings) (t : Time) :
    let s' := Run.exec step s
      [⟨t, .lookup client⟩, ⟨t, .create s.calls.length⟩, ⟨now.seen, .see s.calls.length⟩,
        ⟨now.client, .allow s.calls.length⟩]
    s'.interceptor = (s.interceptor.allowClient now client).1 ∧
      s'.allowed =
        (if (s.interceptor.allowClient now client).2 then (client, now.client) :: s.allowed else s.allowed) ∧
      s'.calls.length = s.calls.length + 1 := by
  unfold RateLimitInterceptor.allowClient
  cases h : s.interceptor.clientLimiters client with
  | some limiter => simp [Run.exec, step, act, h]
  | none => simp [Run.exec, step, act, h]

/-! ### The steps of a call

A step changes nothing, or the call was in front of it. -/

theorem act_create (s : ClientCalls) (now : Time) (i : Nat) :
    s.act now (.create i) = s ∨
      ∃ id, s.calls[i]? = some ⟨id, .missing⟩ ∧
        s.act now (.create i) =
          { s with
            interceptor := (s.interceptor.create id).1
            calls := s.calls.set i ⟨id, .found (s.interceptor.create id).2⟩ } := by
  simp only [act]
  split
  · rename_i id hi
    exact .inr ⟨id, hi, rfl⟩
  · exact .inl rfl

theorem act_see (s : ClientCalls) (now : Time) (i : Nat) :
    s.act now (.see i) = s ∨
      ∃ id limiter, s.calls[i]? = some ⟨id, .found limiter⟩ ∧
        s.act now (.see i) =
          { s with interceptor := s.interceptor.see now id, calls := s.calls.set i ⟨id, .seen limiter⟩ } := by
  simp only [act]
  split
  · rename_i id limiter hi
    exact .inr ⟨id, limiter, hi, rfl⟩
  · exact .inl rfl

theorem act_allow (s : ClientCalls) (now : Time) (i : Nat) :
    s.act now (.allow i) = s ∨
      ∃ id limiter, s.calls[i]? = some ⟨id, .seen limiter⟩ ∧
        s.act now (.allow i) =
          { s with
            interceptor := (s.interceptor.allow now limiter).1
            calls := s.calls.set i ⟨id, .done⟩
            allowed := if (s.interceptor.allow now limiter).2 then (id, now) :: s.allowed else s.allowed } := by
  simp only [act]
  split
  · rename_i id limiter hi
    exact .inr ⟨id, limiter, hi, rfl⟩
  · exact .inl rfl

/-! ### Whose limiter it is -/

/-- The limiter is that of the client in the map, or one that a call of the client is going to ask. -/
def Held (s : ClientCalls) (client : Bytes) (limiter : Nat) : Prop :=
  s.interceptor.clientLimiters client = some limiter ∨
    ∃ call ∈ s.calls, call.client = client ∧ call.phase.limiter = some limiter

/-- Where a cleanup forgets the client, none of its calls is going to ask a limiter, and its limiter is full. -/
def Spares (client : Bytes) (s : ClientCalls) (e : ClientEvent) : Prop :=
  match e.action with
  | .cleanup started =>
    s.interceptor.inactive started client = true →
      (∀ call ∈ s.calls, call.client = client → call.phase.limiter = none) ∧
        (s.interceptor.limiterOf client).level (seconds e.time) = s.interceptor.perClientBurst
  | _ => True

instance (client : Bytes) (s : ClientCalls) : ∀ e, Decidable (s.Spares client e)
  | ⟨_, .cleanup _⟩ => inferInstanceAs (Decidable (_ → _ ∧ _))
  | ⟨_, .lookup _⟩ => .isTrue trivial
  | ⟨_, .create _⟩ => .isTrue trivial
  | ⟨_, .see _⟩ => .isTrue trivial
  | ⟨_, .allow _⟩ => .isTrue trivial

/-- A client has at most one limiter, which no other client has. -/
structure Apart (client : Bytes) (s : ClientCalls) : Prop where
  lt_next : ∀ other limiter, s.Held other limiter → limiter < s.interceptor.next
  own : ∀ other limiter, s.Held other limiter → s.interceptor.clientLimiters client = some limiter → other = client
  current : ∀ limiter, s.Held client limiter → s.interceptor.clientLimiters client = some limiter

section

variable {client : Bytes} {s s' : ClientCalls} {now : Time}

theorem Apart.of_held (h : Apart client s) (hnext : s.interceptor.next ≤ s'.interceptor.next)
    (hmap : s'.interceptor.clientLimiters client = s.interceptor.clientLimiters client)
    (hheld : ∀ other limiter, s'.Held other limiter → s.Held other limiter) : Apart client s' where
  lt_next := fun other limiter hl => (h.lt_next other limiter (hheld other limiter hl)).trans_le hnext
  own := by
    intro other limiter hl hc
    rw [hmap] at hc
    exact h.own other limiter (hheld other limiter hl) hc
  current := by
    intro limiter hl
    rw [hmap]
    exact h.current limiter (hheld client limiter hl)

/-- A new limiter, for a client that has none. -/
theorem Apart.of_new (h : Apart client s) {id : Bytes} (hnone : s.interceptor.clientLimiters id = none)
    (hnext : s'.interceptor.next = s.interceptor.next + 1)
    (hself : s'.interceptor.clientLimiters id = some s.interceptor.next)
    (hother : ∀ other, other ≠ id → s'.interceptor.clientLimiters other = s.interceptor.clientLimiters other)
    (hheld : ∀ other limiter, s'.Held other limiter →
      s.Held other limiter ∨ other = id ∧ limiter = s.interceptor.next) : Apart client s' where
  lt_next := by
    intro other limiter hl
    rw [hnext]
    rcases hheld other limiter hl with hl | ⟨-, rfl⟩
    · exact (h.lt_next other limiter hl).trans (Nat.lt_succ_self _)
    · exact Nat.lt_succ_self _
  own := by
    intro other limiter hl hc
    rcases eq_or_ne client id with rfl | hne
    · obtain rfl := Option.some.inj (hself.symm.trans hc)
      rcases hheld other _ hl with hl | ⟨rfl, -⟩
      · exact absurd (h.lt_next other _ hl) (lt_irrefl _)
      · rfl
    · rw [hother client hne] at hc
      rcases hheld other limiter hl with hl | ⟨-, rfl⟩
      · exact h.own other limiter hl hc
      · exact absurd (h.lt_next client _ (.inl hc)) (lt_irrefl _)
  current := by
    intro limiter hl
    rcases hheld client limiter hl with hl | ⟨rfl, rfl⟩
    · have hc := h.current limiter hl
      rcases eq_or_ne client id with rfl | hne
      · rw [hnone] at hc
        cases hc
      · rw [hother client hne, hc]
    · exact hself

/-- A call is going to ask the same limiter as before, or none. -/
theorem Apart.of_set (h : Apart client s) {i : Nat} {id : Bytes} {old new : CallPhase}
    (hi : s.calls[i]? = some ⟨id, old⟩) (hcalls : s'.calls = s.calls.set i ⟨id, new⟩)
    (hnew : new.limiter = none ∨ new.limiter = old.limiter) (hnext : s'.interceptor.next = s.interceptor.next)
    (hmap : s'.interceptor.clientLimiters = s.interceptor.clientLimiters) : Apart client s' := by
  refine h.of_held hnext.ge (congrFun hmap client) ?_
  rintro other limiter (hother | ⟨call, hmem, hother, hlimiter⟩)
  · rw [hmap] at hother
    exact .inl hother
  · rw [hcalls] at hmem
    rcases List.mem_or_eq_of_mem_set hmem with hmem | rfl
    · exact .inr ⟨call, hmem, hother, hlimiter⟩
    · rcases hnew with hnew | hnew
      · cases hnew.symm.trans hlimiter
      · exact .inr ⟨_, List.mem_of_getElem? hi, hother, hnew.symm.trans hlimiter⟩

theorem apart_lookup (h : Apart client s) (id : Bytes) : Apart client (s.act now (.lookup id)) := by
  refine h.of_held le_rfl rfl ?_
  rintro other limiter (hmap | ⟨call, hmem, hother, hlimiter⟩)
  · exact .inl hmap
  · rcases List.mem_append.1 hmem with hmem | hmem
    · exact .inr ⟨call, hmem, hother, hlimiter⟩
    · -- the new call has what the map has
      obtain rfl := List.mem_singleton.1 hmem
      obtain rfl : id = other := hother
      refine .inl ?_
      cases hid : s.interceptor.clientLimiters id with
      | some l =>
        rw [hid] at hlimiter
        exact hlimiter
      | none =>
        rw [hid] at hlimiter
        cases hlimiter

theorem apart_create (h : Apart client s) (i : Nat) : Apart client (s.act now (.create i)) := by
  rcases s.act_create now i with heq | ⟨id, hi, heq⟩
  · rw [heq]
    exact h
  have hspec := s.interceptor.create_spec id
  -- what is held now was held before, or is what `create` returns
  have hheld : ∀ other limiter, (s.act now (.create i)).Held other limiter →
      s.Held other limiter ∨ other = id ∧ limiter = (s.interceptor.create id).2 := by
    rw [heq]
    rintro other limiter (hmap | ⟨call, hmem, hother, hlimiter⟩)
    · rcases eq_or_ne other id with rfl | hne
      · exact .inr ⟨rfl, Option.some.inj (hmap.symm.trans hspec.1)⟩
      · exact .inl (.inl ((hspec.2 other hne).symm.trans hmap))
    · rcases List.mem_or_eq_of_mem_set hmem with hmem | rfl
      · exact .inl (.inr ⟨call, hmem, hother, hlimiter⟩)
      · exact .inr ⟨hother.symm, (Option.some.inj hlimiter).symm⟩
  rw [heq] at hheld ⊢
  rcases s.interceptor.create_cases id with ⟨hid, hsame⟩ | ⟨hnone, hlimiter, hnext⟩
  · -- another call has made the limiter in the meantime
    refine h.of_held (by rw [hsame]) (by rw [hsame]) ?_
    intro other limiter hl
    rcases hheld other limiter hl with hl | ⟨rfl, rfl⟩
    · exact hl
    · exact .inl hid
  · rw [hlimiter] at hheld hspec
    exact h.of_new hnone hnext hspec.1 hspec.2 (by rw [hlimiter]; exact hheld)

theorem apart_see (h : Apart client s) (i : Nat) : Apart client (s.act now (.see i)) := by
  rcases s.act_see now i with heq | ⟨id, limiter, hi, heq⟩
  · rw [heq]
    exact h
  · rw [heq]
    exact h.of_set hi rfl (.inr rfl) rfl rfl

theorem apart_allow (h : Apart client s) (i : Nat) : Apart client (s.act now (.allow i)) := by
  rcases s.act_allow now i with heq | ⟨id, limiter, hi, heq⟩
  · rw [heq]
    exact h
  · rw [heq]
    exact h.of_set hi rfl (.inl rfl) rfl rfl

theorem apart_cleanup (h : Apart client s) {started : Time} (hspares : s.Spares client ⟨now, .cleanup started⟩) :
    Apart client (s.act now (.cleanup started)) := by
  have hheld : ∀ other limiter, (s.act now (.cleanup started)).Held other limiter → s.Held other limiter := by
    rintro other limiter (hmap | hcall)
    · exact .inl (s.interceptor.clientLimiters_of_cleanup hmap)
    · exact .inr hcall
  cases hin : s.interceptor.inactive started client with
  | false => exact h.of_held le_rfl (if_neg (by rw [hin]; exact Bool.false_ne_true)) hheld
  | true =>
    -- nothing is left that the client could ask
    have hnone : (s.act now (.cleanup started)).interceptor.clientLimiters client = none := if_pos hin
    refine ⟨fun other limiter hl => h.lt_next other limiter (hheld other limiter hl), ?_, ?_⟩
    · intro other limiter hl hc
      cases hnone.symm.trans hc
    · rintro limiter (hmap | ⟨call, hmem, hother, hlimiter⟩)
      · exact hmap
      · cases ((hspares hin).1 call hmem hother).symm.trans hlimiter

theorem apart_act (h : Apart client s) {a : ClientAction} (hspares : s.Spares client ⟨now, a⟩) :
    Apart client (s.act now a) := by
  cases a with
  | lookup id => exact apart_lookup h id
  | create i => exact apart_create h i
  | see i => exact apart_see h i
  | allow i => exact apart_allow h i
  | cleanup started => exact apart_cleanup h hspares

/-! ### The tokens of the client -/

/-- The tokens that the client has at a time. -/
def level (s : ClientCalls) (client : Bytes) (now : Time) : ℚ := (s.interceptor.limiterOf client).level (seconds now)

/-- The calls of the client that were allowed in a window, with its ends. -/
def allowedIn (s : ClientCalls) (client : Bytes) (start stop : Time) : Nat :=
  s.allowed.countP fun a => a.1 = client ∧ start ≤ a.2 ∧ a.2 ≤ stop

/-- The times at which calls of the client were allowed, the last one first. -/
def timesOf (s : ClientCalls) (client : Bytes) : List Time := (s.allowed.filter fun a => a.1 = client).map Prod.snd

theorem allowedIn_eq_countP (s : ClientCalls) (client : Bytes) (start stop : Time) :
    s.allowedIn client start stop = (s.timesOf client).countP fun t => start ≤ t ∧ t ≤ stop := by
  unfold allowedIn timesOf
  rw [List.countP_map, List.countP_filter]
  refine List.countP_congr fun a _ => ?_
  simp [and_comm]

theorem timesOf_cons_self (hallowed : s'.allowed = (client, now) :: s.allowed) :
    s'.timesOf client = now :: s.timesOf client := by
  unfold timesOf
  rw [hallowed, List.filter_cons_of_pos (by simp)]
  rfl

theorem timesOf_cons_of_ne {id : Bytes} (hne : id ≠ client) (hallowed : s'.allowed = (id, now) :: s.allowed) :
    s'.timesOf client = s.timesOf client := by
  unfold timesOf
  rw [hallowed, List.filter_cons_of_neg (by simpa using hne)]

/-- What a step is for a client: nothing that it could notice, or the loss of a limiter that is full, or one of its
calls takes a token. -/
inductive Taking (s s' : ClientCalls) (client : Bytes) (now : Time) : Prop
  | same (htimes : s'.timesOf client = s.timesOf client)
      (hlimiter : s'.interceptor.limiterOf client = s.interceptor.limiterOf client)
  | renewed (htimes : s'.timesOf client = s.timesOf client)
      (hfull : s.level client now = s.interceptor.perClientBurst)
      (hnone : s'.interceptor.clientLimiters client = none)
  | taken (htimes : s'.timesOf client = now :: s.timesOf client) (htoken : 1 ≤ s.level client now)
      (hlimiter : s'.interceptor.limiterOf client = ((s.interceptor.limiterOf client).take (seconds now)).1)

theorem taking_create (h : Apart client s) (i : Nat) : Taking s (s.act now (.create i)) client now := by
  rcases s.act_create now i with heq | ⟨id, -, heq⟩
  · rw [heq]
    exact .same rfl rfl
  · rw [heq]
    exact .same rfl (s.interceptor.limiterOf_create_of_lt (fun limiter hl => h.lt_next client limiter (.inl hl)) id)

theorem taking_see (i : Nat) : Taking s (s.act now (.see i)) client now := by
  rcases s.act_see now i with heq | ⟨id, limiter, -, heq⟩
  · rw [heq]
    exact .same rfl rfl
  · rw [heq]
    exact .same rfl rfl

theorem taking_allow (h : Apart client s) (i : Nat) : Taking s (s.act now (.allow i)) client now := by
  rcases s.act_allow now i with heq | ⟨id, limiter, hi, heq⟩
  · rw [heq]
    exact .same rfl rfl
  have hheld : s.Held id limiter := .inr ⟨_, List.mem_of_getElem? hi, rfl, rfl⟩
  rw [heq]
  rcases eq_or_ne id client with rfl | hne
  · -- the limiter that the call holds is the one in the map
    obtain ⟨hbucket, hresult⟩ := s.interceptor.limiterOf_allow (h.current limiter hheld) now
    by_cases htoken : 1 ≤ s.level id now
    · rw [(Bucket.take_eq_true_iff _).2 htoken] at hresult
      exact .taken (timesOf_cons_self (if_pos hresult)) htoken hbucket
    · rw [Bucket.take_of_lt _ (not_le.1 htoken)] at hbucket hresult
      have hnot : ¬ (s.interceptor.allow now limiter).2 = true := by
        rw [hresult]
        exact Bool.false_ne_true
      rw [if_neg hnot]
      exact .same rfl hbucket
  · have hnot : s.interceptor.clientLimiters client ≠ some limiter := fun hc => hne (h.own id limiter hheld hc)
    refine .same ?_ (s.interceptor.limiterOf_allow_of_ne hnot now)
    by_cases hresult : (s.interceptor.allow now limiter).2 = true
    · exact timesOf_cons_of_ne hne (if_pos hresult)
    · rw [if_neg hresult]
      rfl

theorem taking_cleanup {started : Time} (hspares : s.Spares client ⟨now, .cleanup started⟩) :
    Taking s (s.act now (.cleanup started)) client now := by
  cases hin : s.interceptor.inactive started client with
  | false =>
    have hmap : (s.act now (.cleanup started)).interceptor.clientLimiters client =
        s.interceptor.clientLimiters client := if_neg (by rw [hin]; exact Bool.false_ne_true)
    refine .same rfl ?_
    unfold RateLimitInterceptor.limiterOf
    rw [hmap]
    rfl
  | true => exact .renewed rfl (hspares hin).2 (if_pos hin)

theorem taking_act (h : Apart client s) {a : ClientAction} (hspares : s.Spares client ⟨now, a⟩) :
    Taking s (s.act now a) client now := by
  cases a with
  | lookup id => exact .same rfl rfl
  | create i => exact taking_create h i
  | see i => exact taking_see i
  | allow i => exact taking_allow h i
  | cleanup started => exact taking_cleanup hspares

/-! ### The bound -/

theorem act_config (a : ClientAction) :
    (s.act now a).interceptor.perClientRPS = s.interceptor.perClientRPS ∧
      (s.act now a).interceptor.perClientBurst = s.interceptor.perClientBurst := by
  cases a with
  | lookup id => exact ⟨rfl, rfl⟩
  | create i =>
    rcases s.act_create now i with heq | ⟨id, -, heq⟩
    · rw [heq]
      exact ⟨rfl, rfl⟩
    · rw [heq]
      exact s.interceptor.create_config id
  | see i => rcases s.act_see now i with heq | ⟨id, limiter, -, heq⟩ <;> rw [heq] <;> exact ⟨rfl, rfl⟩
  | allow i => rcases s.act_allow now i with heq | ⟨id, limiter, -, heq⟩ <;> rw [heq] <;> exact ⟨rfl, rfl⟩
  | cleanup started => exact ⟨rfl, rfl⟩

/-- The invariant for a window. -/
structure Bounded (client : Bytes) (rps burst : Int) (start stop : Time) (s : ClientCalls) : Prop
    extends Apart client s where
  rps_eq : s.interceptor.perClientRPS = rps
  burst_eq : s.interceptor.perClientBurst = burst
  within : Within (rps : ℚ) burst (seconds start) (seconds stop) (s.allowedIn client start stop)
    (s.level client s.clock) (seconds s.clock)

variable {rps burst : Int} {start stop : Time}

/-- At a later time, before anything else has happened. -/
theorem Bounded.within_later (h : Bounded client rps burst start stop s) (htime : s.clock ≤ now) :
    Within (rps : ℚ) burst (seconds start) (seconds stop) (s.allowedIn client start stop) (s.level client now)
      (seconds now) := by
  obtain ⟨hrate, hburst⟩ := s.interceptor.limiterOf_config client
  rw [h.rps_eq] at hrate
  rw [h.burst_eq] at hburst
  have hrps : (0 : ℚ) ≤ rps := by
    rw [← hrate]
    exact Bucket.rate_nonneg _
  have hlater := seconds_le_seconds.2 htime
  refine h.within.wait hrps hlater (Bucket.level_nonneg _ _) ?_ ?_
  · rw [← hburst]
    exact Bucket.level_le_burst _ _
  · rw [← hrate]
    exact Bucket.level_le_add _ hlater

theorem allowedIn_of_times (htimes : s'.timesOf client = s.timesOf client) :
    s'.allowedIn client start stop = s.allowedIn client start stop := by
  rw [allowedIn_eq_countP, allowedIn_eq_countP, htimes]

theorem allowedIn_cons (htimes : s'.timesOf client = now :: s.timesOf client) :
    s'.allowedIn client start stop = s.allowedIn client start stop + if start ≤ now ∧ now ≤ stop then 1 else 0 := by
  rw [allowedIn_eq_countP, allowedIn_eq_countP, htimes, List.countP_cons]
  simp

theorem Bounded.step {e : ClientEvent} (h : Bounded client rps burst start stop s)
    (htime : s.clock ≤ e.time) (hspares : s.Spares client e) : Bounded client rps burst start stop (s.step e) := by
  have hconfig := @act_config s e.time e.action
  have hlater := h.within_later htime
  have hrps : (0 : ℚ) ≤ rps := by
    rw [← h.rps_eq]
    exact Int.cast_nonneg s.interceptor.perClientRPS_pos.le
  -- the clock plays no part in who holds what
  have hapart : Apart client (s.step e) := (apart_act h.toApart hspares).of_held le_rfl rfl fun _ _ hl => hl
  refine ⟨hapart, hconfig.1.trans h.rps_eq, hconfig.2.trans h.burst_eq, ?_⟩
  show Within _ _ _ _ ((s.act e.time e.action).allowedIn client start stop)
    ((s.act e.time e.action).level client e.time) (seconds e.time)
  cases taking_act h.toApart hspares with
  | same htimes hlimiter =>
    rw [allowedIn_of_times htimes, level, hlimiter]
    exact hlater
  | renewed htimes hfull hnone =>
    rw [allowedIn_of_times htimes, level, RateLimitInterceptor.level_limiterOf_of_none _ hnone, hconfig.2, ← hfull]
    exact hlater
  | taken htimes htoken hlimiter =>
    rw [level, hlimiter, Bucket.level_take _ htoken, allowedIn_cons htimes]
    split
    · rename_i hin
      exact hlater.take (seconds_le_seconds.2 hin.1) (seconds_le_seconds.2 hin.2) hrps htoken
    · rename_i hout
      refine hlater.take_outside ?_ htoken
      rw [not_and_or, not_le, not_le] at hout
      exact hout.imp seconds_lt_seconds.2 seconds_lt_seconds.2

theorem bounded_start (config : RateLimitConfig) (client : Bytes) (clock start : Time) (length : Nat) :
    Bounded client (orDefault config.perClientRPS perClientRateLimit)
      (orDefault config.perClientBurst perClientBurstSize) start (start + length) (.start config clock) := by
  have hheld : ∀ other limiter, ¬ (ClientCalls.start config clock).Held other limiter := by
    rintro other limiter (hmap | ⟨call, hmem, -⟩)
    · cases hmap
    · cases hmem
  have hrps : (0 : ℚ) ≤ orDefault config.perClientRPS perClientRateLimit :=
    Int.cast_nonneg (ClientCalls.start config clock).interceptor.perClientRPS_pos.le
  have hburst : (0 : ℚ) ≤ orDefault config.perClientBurst perClientBurstSize :=
    Int.cast_nonneg (ClientCalls.start config clock).interceptor.perClientBurst_pos.le
  refine ⟨⟨fun _ _ h => (hheld _ _ h).elim, fun _ _ h => (hheld _ _ h).elim, fun _ h => (hheld _ _ h).elim⟩,
    rfl, rfl, ?_⟩
  have hlevel : (ClientCalls.start config clock).level client clock =
    orDefault config.perClientBurst perClientBurstSize :=
    RateLimitInterceptor.level_limiterOf_of_none _ rfl _
  show Within _ _ _ _ 0 ((ClientCalls.start config clock).level client clock) _
  rw [hlevel]
  exact Within.init hrps hburst (seconds_le_seconds.2 (le_add_of_nonneg_right (Int.natCast_nonneg length))) _

end

/-- In a run in which no cleanup forgets a limiter of the client that is in use or not full, the calls of the client
that are allowed in a window are no more than its burst and its rate for the length of the window. -/
theorem allowedIn_le (config : RateLimitConfig) (client : Bytes) (clock begin : Time) (length : Nat)
    (es : List ClientEvent)
    (hes : Run.Admits step (fun s e => s.clock ≤ e.time ∧ s.Spares client e) (start config clock) es) :
    ((Run.exec step (start config clock) es).allowedIn client begin (begin + length) : ℚ) ≤
      orDefault config.perClientBurst perClientBurstSize +
        orDefault config.perClientRPS perClientRateLimit * seconds length := by
  have hstep : ∀ (s : ClientCalls) (e : ClientEvent),
      Bounded client (orDefault config.perClientRPS perClientRateLimit)
        (orDefault config.perClientBurst perClientBurstSize) begin (begin + length) s →
      s.clock ≤ e.time ∧ s.Spares client e →
      Bounded client (orDefault config.perClientRPS perClientRateLimit)
        (orDefault config.perClientBurst perClientBurstSize) begin (begin + length) (s.step e) :=
    fun s e h he => h.step he.1 he.2
  have hbound := (Run.invariant hstep (bounded_start config client clock begin length) hes).within.bound
  rw [seconds_add, add_sub_cancel_left, mul_comm] at hbound
  exact hbound

/-- One request a second, and no more than one at once. -/
def oneEach : RateLimitConfig := ⟨0, 0, 1, 1, true⟩

/-- The steps of the call with this number, which is alone. -/
def wholeCall (client : Bytes) (call : Nat) (time : Time) : List ClientEvent :=
  [⟨time, .lookup client⟩, ⟨time, .create call⟩, ⟨time, .see call⟩, ⟨time, .allow call⟩]

/-- A call, and ten minutes and a second later a call that has found its limiter when a cleanup forgets it.  Another
call makes a new limiter, and both are allowed. -/
def forgottenWhileHeld : List ClientEvent :=
  wholeCall [97] 0 0 ++
    [⟨601000000000, .lookup [97]⟩, ⟨601000000000, .cleanup 601000000000⟩] ++
    wholeCall [97] 2 601000000000 ++
    [⟨601000000000, .see 1⟩, ⟨601000000000, .allow 1⟩]

/-- A call that notes the time and asks its limiter ten minutes later, and half a second after that a cleanup and the
next call. -/
def forgottenTooEarly : List ClientEvent :=
  [⟨0, .lookup [97]⟩, ⟨0, .create 0⟩, ⟨0, .see 0⟩, ⟨600000000000, .allow 0⟩,
    ⟨600500000000, .cleanup 600500000000⟩] ++
    wholeCall [97] 1 600500000000

/-- The times of the run are in order, and in the window the client has more than its burst and its rate. -/
def Exceeds (config : RateLimitConfig) (client : Bytes) (clock begin : Time) (length : Nat) (es : List ClientEvent) :
    Prop :=
  Run.Admits step (fun s e => s.clock ≤ e.time) (start config clock) es ∧
    orDefault config.perClientBurst perClientBurstSize +
        orDefault config.perClientRPS perClientRateLimit * seconds length <
      (Run.exec step (start config clock) es).allowedIn client begin (begin + length)

/-- With one request a second, two are allowed in an instant, and two in half a second without any call in progress at
the cleanup. -/
theorem exceeds_forgotten :
    Exceeds oneEach [97] 0 601000000000 0 forgottenWhileHeld ∧
      Exceeds oneEach [97] 0 600000000000 500000000 forgottenTooEarly := by
  unfold Exceeds
  decide +kernel

end ClientCalls

end DistributedBloomFilter
