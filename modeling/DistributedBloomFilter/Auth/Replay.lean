import DistributedBloomFilter.Auth.Interceptor
import DistributedBloomFilter.Lib.Run
import Mathlib.Data.List.Sort

/-!
# Replayed requests

A run of checks and cleanups at times that do not go back.  A cleanup by age forgets only what the check refuses by
age from then on, so a pair of API key and timestamp is accepted at most once more than a cleanup by size removed its
key (`count_accepted_le`); as long as no cleanup finds more than `maxTimestampMapSize` keys, it is accepted at most
once (`nodup_accepted`).  What is forgotten by age is refused by age to the nanosecond (`tooOld_of_deletedByAge`).  A
flood of requests with later timestamps, whatever their signatures, makes the cleanup forget a request that is still
fresh.
-/

namespace DistributedBloomFilter

/-- `accepted` and `evicted` are not data of the interceptor: they record the accepted requests and the keys that
cleanups removed by size. -/
structure ReplayRun where
  interceptor : AuthInterceptor
  clock : Time
  accepted : List (String × Int64)
  evicted : List String

namespace ReplayRun

inductive Event where
  | call (now : Time) (auth : APIMetadata) (method : String)
  | cleanup (now : Time) (sort : SortSlice)

def Event.now : Event → Time
  | call now _ _ => now
  | cleanup now _ => now

def start (a : AuthInterceptor) (clock : Time) : ReplayRun :=
  { interceptor := a, clock := clock, accepted := [], evicted := [] }

def step (s : ReplayRun) : Event → ReplayRun
  | .call now auth method =>
    let result := s.interceptor.validateAPIKeyAuth now auth method
    { s with
      interceptor := result.1
      clock := now
      accepted :=
        match result.2 with
        | .ok () => (auth.apiKey, auth.timestamp) :: s.accepted
        | .error _ => s.accepted }
  | .cleanup now sort =>
    { s with
      interceptor := s.interceptor.cleanupOldTimestamps now sort
      clock := now
      evicted := (s.interceptor.evictedBySize now sort).map TimestampEntry.key ++ s.evicted }

/-- The clock does not go back. -/
def InOrder (s : ReplayRun) (e : Event) : Prop := s.clock ≤ e.now

instance (s : ReplayRun) (e : Event) : Decidable (InOrder s e) := inferInstanceAs (Decidable (_ ≤ _))

/-! ### Accepted at most once for every time the key was new -/

/-- What holds of a pair in every state of a run. -/
structure Bounded (s : ReplayRun) (apiKey : String) (timestamp : Int64) : Prop where
  le : s.accepted.count (apiKey, timestamp) ≤ s.evicted.count (replayKey apiKey timestamp) + 1
  -- a pair that could be accepted now has its key evicted for every time it was accepted
  forgotten : replayKey apiKey timestamp ∉ s.interceptor.seenRequests → ¬ Expired s.clock timestamp →
    s.accepted.count (apiKey, timestamp) ≤ s.evicted.count (replayKey apiKey timestamp)

theorem bounded_start (a : AuthInterceptor) (clock : Time) (apiKey : String) (timestamp : Int64) :
    (start a clock).Bounded apiKey timestamp :=
  ⟨Nat.zero_le _, fun _ _ => Nat.le_refl _⟩

theorem bounded_call {s : ReplayRun} {now : Time} {auth : APIMetadata} {method apiKey : String} {timestamp : Int64}
    (h : s.Bounded apiKey timestamp) (hclock : s.clock ≤ now) :
    (s.step (.call now auth method)).Bounded apiKey timestamp := by
  have hearlier : ¬ Expired now timestamp → ¬ Expired s.clock timestamp := fun hnow hexp => hnow (hexp.mono hclock)
  simp only [step]
  rcases s.interceptor.validateAPIKeyAuth_spec now auth method with ⟨hpasses, hstored, -⟩ | ⟨-, failure, hfailed⟩
  · have hmem : ∀ k, k ∈ (s.interceptor.validateAPIKeyAuth now auth method).1.seenRequests ↔
        k = replayKey auth.apiKey auth.timestamp ∨ k ∈ s.interceptor.seenRequests := by
      intro k
      rw [hstored, AList.mem_insert]
    generalize s.interceptor.validateAPIKeyAuth now auth method = result at hmem
    by_cases hpair : (auth.apiKey, auth.timestamp) = (apiKey, timestamp)
    · -- the pair of this request: its key was not there before and is there now
      obtain ⟨rfl, rfl⟩ := Prod.mk.inj hpair
      have hbefore := h.forgotten hpasses.unseen (hearlier hpasses.time)
      refine ⟨?_, fun hkey => absurd ((hmem _).2 (.inl rfl)) hkey⟩
      cases result.2 with
      | ok => simp only [List.count_cons_self]; omega
      | error failure => exact h.le
    · have hcount : (match result.2 with
          | .ok () => (auth.apiKey, auth.timestamp) :: s.accepted
          | .error _ => s.accepted).count (apiKey, timestamp) = s.accepted.count (apiKey, timestamp) := by
        cases result.2 with
        | ok => exact List.count_cons_of_ne hpair
        | error failure => rfl
      exact ⟨hcount ▸ h.le,
        fun hkey hnow => hcount ▸ h.forgotten (fun hseen => hkey ((hmem _).2 (.inr hseen))) (hearlier hnow)⟩
  · rw [hfailed]
    exact ⟨h.le, fun hkey hnow => h.forgotten hkey (hearlier hnow)⟩

theorem bounded_cleanup {s : ReplayRun} {now : Time} {sort : SortSlice} {apiKey : String} {timestamp : Int64}
    (h : s.Bounded apiKey timestamp) (hclock : s.clock ≤ now) :
    (s.step (.cleanup now sort)).Bounded apiKey timestamp := by
  have hle := h.le
  constructor
  · simp only [step, List.count_append]
    omega
  · intro hkey htime
    have hearlier : ¬ Expired s.clock timestamp := fun hexp => htime (hexp.mono hclock)
    simp only [step, List.count_append] at hkey htime ⊢
    by_cases hseen : replayKey apiKey timestamp ∈ s.interceptor.seenRequests
    · -- in time and forgotten: removed by size
      have hevicted := not_imp_comm.1 (AuthInterceptor.mem_cleanupOldTimestamps hseen htime) hkey
      have hpos := List.count_pos_iff.2 hevicted
      omega
    · have := h.forgotten hseen hearlier
      omega

theorem bounded_step {s : ReplayRun} {e : Event} {apiKey : String} {timestamp : Int64}
    (h : s.Bounded apiKey timestamp) (he : InOrder s e) : (s.step e).Bounded apiKey timestamp := by
  cases e with
  | call now auth method => exact bounded_call h he
  | cleanup now sort => exact bounded_cleanup h he

theorem bounded_exec {a : AuthInterceptor} {clock : Time} {es : List Event}
    (h : Run.Admits step InOrder (start a clock) es) (apiKey : String) (timestamp : Int64) :
    (Run.exec step (start a clock) es).Bounded apiKey timestamp := by
  have hstep : ∀ (s : ReplayRun) (e : Event), s.Bounded apiKey timestamp → InOrder s e →
      (s.step e).Bounded apiKey timestamp := fun _ _ => bounded_step
  exact Run.invariant hstep (bounded_start a clock apiKey timestamp) h

/-- A pair is accepted at most once, and once more for every time that its key was removed by size. -/
theorem count_accepted_le {a : AuthInterceptor} {clock : Time} {es : List Event}
    (h : Run.Admits step InOrder (start a clock) es) (apiKey : String) (timestamp : Int64) :
    (Run.exec step (start a clock) es).accepted.count (apiKey, timestamp) ≤
      (Run.exec step (start a clock) es).evicted.count (replayKey apiKey timestamp) + 1 :=
  (bounded_exec h apiKey timestamp).le

/-! ### Runs in which no cleanup finds too many keys -/

def Small (s : ReplayRun) : Event → Prop
  | .call .. => True
  | .cleanup .. => s.interceptor.seenRequests.keys.length ≤ maxTimestampMapSize

theorem evicted_step {s : ReplayRun} {e : Event} (h : s.evicted = []) (he : Small s e) : (s.step e).evicted = [] := by
  cases e with
  | call now auth method => exact h
  | cleanup now sort =>
    have hnone : s.interceptor.evictedBySize now sort = [] := if_neg (Nat.not_lt.2 he)
    simp only [step, hnone, h, List.map_nil, List.append_nil]

theorem nodup_accepted {a : AuthInterceptor} {clock : Time} {es : List Event}
    (h : Run.Admits step (fun s e => InOrder s e ∧ Small s e) (start a clock) es) :
    (Run.exec step (start a clock) es).accepted.Nodup := by
  have hstep : ∀ (s : ReplayRun) (e : Event), (∀ k t, s.Bounded k t) ∧ s.evicted = [] → InOrder s e ∧ Small s e →
      (∀ k t, (s.step e).Bounded k t) ∧ (s.step e).evicted = [] :=
    fun _ _ hs he => ⟨fun k t => bounded_step (hs.1 k t) he.1, evicted_step hs.2 he.2⟩
  obtain ⟨hbounded, hevicted⟩ := Run.invariant hstep ⟨bounded_start a clock, rfl⟩ h
  rw [List.nodup_iff_count_le_one]
  intro pair
  have hle := (hbounded pair.1 pair.2).le
  rwa [hevicted, List.count_nil] at hle

/-! ### Removed by age -/

/-- The check of this request stores its key, which was not there. -/
def Stores (a : AuthInterceptor) (now : Time) (auth : APIMetadata) (method : String) : Prop :=
  replayKey auth.apiKey auth.timestamp ∉ a.seenRequests ∧
    replayKey auth.apiKey auth.timestamp ∈ (a.validateAPIKeyAuth now auth method).1.seenRequests

/-- The key is there, and the first pass of a cleanup at this time deletes it. -/
def DeletedByAge (a : AuthInterceptor) (now : Time) (key : String) : Prop :=
  key ∈ a.seenRequests ∧ key ∉ AuthInterceptor.deleteAll a.seenRequests (a.oldEntries now)

theorem passes_of_stores {a : AuthInterceptor} {now : Time} {auth : APIMetadata} {method : String}
    (h : Stores a now auth method) : a.Passes now auth := by
  rcases a.validateAPIKeyAuth_spec now auth method with ⟨hpasses, -⟩ | ⟨-, failure, hfailed⟩
  · exact hpasses
  · have hmem := h.2
    rw [hfailed] at hmem
    exact absurd hmem h.1

/-- The first pass deletes the keys with timestamps in the seconds before `maxRequestAge`. -/
theorem deletedByAge_iff {a : AuthInterceptor} {now : Time} {apiKey : String} {timestamp : Int64} :
    DeletedByAge a now (replayKey apiKey timestamp) ↔
      replayKey apiKey timestamp ∈ a.seenRequests ∧ timestamp.toInt < (now - maxRequestAge) / 1000000000 := by
  rw [DeletedByAge, AuthInterceptor.mem_deleteAll, not_and_not_right]
  refine and_congr_right fun hseen =>
    ⟨fun hgone => AuthInterceptor.mem_map_key_oldEntries (hgone hseen), fun hold _ => ?_⟩
  have hmem : (⟨replayKey apiKey timestamp, timestamp⟩ : TimestampEntry) ∈ a.oldEntries now :=
    List.mem_filter.2 ⟨List.mem_filterMap.2 ⟨_, hseen, timestampEntry_replayKey apiKey timestamp⟩,
      decide_eq_true hold⟩
  exact List.mem_map_of_mem hmem

theorem deletedByAge_of_stores {a : AuthInterceptor} {stored now : Time} {auth : APIMetadata} {method : String}
    (h : Stores a stored auth method) (hold : auth.timestamp.toInt < (now - maxRequestAge) / 1000000000) :
    DeletedByAge ((start a stored).step (.call stored auth method)).interceptor now
      (replayKey auth.apiKey auth.timestamp) :=
  deletedByAge_iff.2 ⟨h.2, hold⟩

/-- The secrets stay as they are. -/
theorem secretOf_step (s : ReplayRun) (e : Event) : (s.step e).interceptor.secretOf = s.interceptor.secretOf := by
  cases e with
  | call now auth method =>
    simp only [step]
    rcases s.interceptor.validateAPIKeyAuth_spec now auth method with ⟨-, hstored, -⟩ | ⟨-, failure, hfailed⟩
    · rw [hstored]; rfl
    · rw [hfailed]
  | cleanup now sort =>
    funext apiKey
    simp only [step, AuthInterceptor.secretOf, AuthInterceptor.keyStore_cleanupOldTimestamps]

theorem secretOf_exec (s : ReplayRun) (es : List Event) :
    (Run.exec step s es).interceptor.secretOf = s.interceptor.secretOf := by
  have hstep : ∀ (t : ReplayRun) (e : Event), t.interceptor.secretOf = s.interceptor.secretOf →
      (t.step e).interceptor.secretOf = s.interceptor.secretOf := fun t e ht => (secretOf_step t e).trans ht
  exact Run.keeps hstep rfl es

/-- A request has been stored, and some time later, whatever has happened in between, the first pass of a cleanup
deletes its key.  From the time of that cleanup on its API key is refused with this timestamp for being too old, with
whatever signature and whatever happens in between. -/
theorem tooOld_of_deletedByAge {a : AuthInterceptor} {stored : Time} {auth : APIMetadata} {method : String}
    (hstored : Stores a stored auth method) (before : List Event) {now : Time}
    (hdeleted : DeletedByAge (Run.exec step (start a stored) (.call stored auth method :: before)).interceptor now
      (replayKey auth.apiKey auth.timestamp))
    (sort : SortSlice) (after : List Event) {later : Time} (hlater : now ≤ later) (signature method' : String) :
    let s := Run.exec step (start a stored) (.call stored auth method :: before ++ .cleanup now sort :: after)
    s.interceptor.validateAPIKeyAuth later { auth with signature := signature } method' =
      (s.interceptor, unauthenticated "request timestamp too old") := by
  intro s
  have hpasses := passes_of_stores hstored
  have hsecret : s.interceptor.secretOf auth.apiKey ≠ "" := by
    rw [secretOf_exec]
    exact hpasses.secret
  have hexpired : Expired later auth.timestamp := (expired_of_lt_cutoff (deletedByAge_iff.1 hdeleted).2).mono hlater
  exact @AuthInterceptor.validateAPIKeyAuth_of_expired _ _ { auth with signature := signature } hpasses.apiKey hsecret
    hexpired method'

/-! ### A flood -/

theorem accepted_suffix_exec (s : ReplayRun) (es : List Event) : s.accepted <:+ (Run.exec step s es).accepted := by
  induction es generalizing s with
  | nil => exact List.suffix_refl _
  | cons e es ih =>
    refine List.IsSuffix.trans ?_ (ih (s.step e))
    cases e with
    | call now auth method =>
      simp only [step]
      split
      · exact List.suffix_cons ..
      · exact List.suffix_refl _
    | cleanup now sort => exact List.suffix_refl _

def requestKey (auth : APIMetadata) : String := replayKey auth.apiKey auth.timestamp

/-- A request that reaches the signature. -/
structure Fresh (keyStore : MemoryAPIKeyStore) (now : Time) (auth : APIMetadata) : Prop where
  apiKey : auth.apiKey ≠ ""
  secret : keyStore.getSecret auth.apiKey ≠ ""
  time : ¬ Expired now auth.timestamp

/-- New requests in time all leave their keys, whether they are accepted or not. -/
theorem keys_exec_calls {keyStore : MemoryAPIKeyStore} {now : Time} {method : String} {auths : List APIMetadata}
    (hfresh : ∀ auth ∈ auths, Fresh keyStore now auth) (hnodup : (auths.map requestKey).Nodup) {s : ReplayRun}
    (hstore : s.interceptor.keyStore = some keyStore)
    (hnew : ∀ auth ∈ auths, requestKey auth ∉ s.interceptor.seenRequests) :
    let s' := Run.exec step s (auths.map fun auth => .call now auth method)
    s'.interceptor.keyStore = some keyStore ∧
      s'.interceptor.seenRequests.keys = (auths.map requestKey).reverse ++ s.interceptor.seenRequests.keys := by
  induction auths generalizing s with
  | nil => exact ⟨hstore, rfl⟩
  | cons auth auths ih =>
    obtain ⟨hauth, hfresh⟩ := List.forall_mem_cons.1 hfresh
    obtain ⟨hkey, hnew⟩ := List.forall_mem_cons.1 hnew
    rw [List.map_cons, List.nodup_cons] at hnodup
    have hpasses : s.interceptor.Passes now auth :=
      ⟨hauth.apiKey, (AuthInterceptor.secretOf_eq hstore _).symm ▸ hauth.secret, hauth.time, hkey⟩
    have hstep := (AuthInterceptor.validateAPIKeyAuth_of_passes hpasses method).1
    have hkeys : (s.step (.call now auth method)).interceptor.seenRequests.keys =
        requestKey auth :: s.interceptor.seenRequests.keys := by
      simp only [step, hstep, AList.keys_insert]
      exact congrArg (requestKey auth :: ·) (List.erase_of_not_mem hkey)
    have hlater : ∀ auth' ∈ auths, requestKey auth' ∉ (s.step (.call now auth method)).interceptor.seenRequests := by
      intro auth' hmem
      rw [AList.mem_keys, hkeys, List.mem_cons, not_or]
      exact ⟨fun h => hnodup.1 (h ▸ List.mem_map_of_mem hmem), hnew auth' hmem⟩
    obtain ⟨hstore', hkeys'⟩ := ih hfresh hnodup.2 (by simp only [step, hstep]; exact hstore) hlater
    have hreverse : ((auth :: auths).map requestKey).reverse ++ s.interceptor.seenRequests.keys =
        (auths.map requestKey).reverse ++ requestKey auth :: s.interceptor.seenRequests.keys := by simp
    rw [hreverse, ← hkeys]
    exact ⟨hstore', hkeys'⟩

/-- What the cleanup reads of a request. -/
def entryOf (auth : APIMetadata) : TimestampEntry := { key := requestKey auth, timestamp := auth.timestamp }

theorem filterMap_timestampEntry (auths : List APIMetadata) :
    (auths.map requestKey).reverse.filterMap timestampEntry = (auths.map entryOf).reverse := by
  rw [List.filterMap_reverse, List.filterMap_map]
  congr 1
  exact List.filterMap_eq_map_iff_forall_eq_some.2 fun auth _ => timestampEntry_replayKey ..

/-- The entry with the least timestamp is in the older half. -/
theorem mem_take_half {entries : List TimestampEntry} {e : TimestampEntry}
    (hsorted : entries.Pairwise fun e f => e.timestamp.toInt ≤ f.timestamp.toInt) (he : e ∈ entries)
    (hleast : ∀ f ∈ entries, f = e ∨ e.timestamp.toInt < f.timestamp.toInt) (hlen : 2 ≤ entries.length) :
    e ∈ entries.take (entries.length / 2) := by
  cases entries with
  | nil => cases he
  | cons f rest =>
    obtain rfl : f = e := by
      rcases hleast f (List.mem_cons_self ..) with rfl | hlt
      · rfl
      · rcases List.mem_cons.1 he with rfl | hmem
        · rfl
        · have := (List.pairwise_cons.1 hsorted).1 e hmem
          omega
    obtain ⟨n, hn⟩ : ∃ n, (f :: rest).length / 2 = n + 1 := ⟨(f :: rest).length / 2 - 1, by omega⟩
    rw [hn, List.take_succ_cons]
    exact List.mem_cons_self ..

/-- The request with the earliest timestamp is forgotten when enough later ones have come. -/
theorem requestKey_mem_evictedBySize {a : AuthInterceptor} {now : Time} {v : APIMetadata} {rest : List APIMetadata}
    (hkeys : a.seenRequests.keys = ((v :: rest).map requestKey).reverse) (hsize : maxTimestampMapSize ≤ rest.length)
    (htime : (now - maxRequestAge) / 1000000000 ≤ v.timestamp.toInt)
    (hlater : ∀ auth ∈ rest, v.timestamp.toInt < auth.timestamp.toInt) (sort : SortSlice) :
    requestKey v ∈ (a.evictedBySize now sort).map TimestampEntry.key := by
  have hentries : a.seenRequests.keys.filterMap timestampEntry = ((v :: rest).map entryOf).reverse := by
    rw [hkeys, filterMap_timestampEntry]
  have hleast : ∀ e ∈ ((v :: rest).map entryOf).reverse, e = entryOf v ∨ v.timestamp.toInt < e.timestamp.toInt := by
    intro e he
    obtain ⟨auth, hauth, rfl⟩ := List.mem_map.1 (List.mem_reverse.1 he)
    rcases List.mem_cons.1 hauth with rfl | hauth
    · exact .inl rfl
    · exact .inr (hlater auth hauth)
  have hold : a.oldEntries now = [] := by
    unfold AuthInterceptor.oldEntries
    rw [hentries, List.filter_eq_nil_iff]
    intro e he hlt
    have hlt := of_decide_eq_true hlt
    rcases hleast e he with rfl | hless
    · exact Int.not_lt.2 htime hlt
    · exact Int.not_lt.2 (Int.le_trans htime (Int.le_of_lt hless)) hlt
  have hperm := sort.perm ((v :: rest).map entryOf).reverse
  have hmax : 2 ≤ maxTimestampMapSize := by decide
  have hevicted : a.evictedBySize now sort = (sort.sort ((v :: rest).map entryOf).reverse).take
      ((sort.sort ((v :: rest).map entryOf).reverse).length / 2) := by
    unfold AuthInterceptor.evictedBySize AuthInterceptor.oldestEntries
    rw [hold, if_pos (by rw [hkeys]; simpa [Nat.lt_succ_iff] using hsize)]
    simp only [AuthInterceptor.deleteAll, List.foldl_nil, hentries]
  rw [hevicted]
  refine List.mem_map.2 ⟨entryOf v, mem_take_half (sort.sorted _) (hperm.mem_iff.2 (by simp)) ?_ ?_, rfl⟩
  · exact fun f hf => hleast f (hperm.mem_iff.1 hf)
  · rw [hperm.length_eq, List.length_reverse, List.length_map, List.length_cons]
    omega

/-! ### A replay -/

theorem accepted_call {s : ReplayRun} {now : Time} {auth : APIMetadata} {method : String}
    (h : (s.interceptor.validateAPIKeyAuth now auth method).2 = .ok ()) :
    (s.step (.call now auth method)).accepted = (auth.apiKey, auth.timestamp) :: s.accepted := by
  simp only [step, h]

theorem admits_of_now_eq {now : Time} {es : List Event} (h : ∀ e ∈ es, e.now = now) {s : ReplayRun}
    (hs : s.clock ≤ now) : Run.Admits step InOrder s es := by
  induction es generalizing s with
  | nil => trivial
  | cons e es ih =>
    obtain ⟨he, hes⟩ := List.forall_mem_cons.1 h
    refine ⟨by rw [InOrder, he]; exact hs, ih hes ?_⟩
    cases e <;> exact Int.le_of_eq he

def floodTime : Time := 1700000000 * 1000000000

def victim : APIMetadata := generateAPIKeyToken floodTime "k" "s" "/m"

/-- A later request, without a signature. -/
def later (i : Nat) : APIMetadata := { apiKey := "k", timestamp := Int64.ofNat (1700000001 + i), signature := "" }

/-- A request, `n` later ones, a cleanup, and the request again, all within one second. -/
def floodRun (n : Nat) (sort : SortSlice) : List Event :=
  ((victim :: (List.range n).map later).map fun auth => .call floodTime auth "/m") ++
    [.cleanup floodTime sort, .call floodTime victim "/m"]

theorem toInt_victim : victim.timestamp.toInt = 1700000000 := rfl

theorem toInt_later {i : Nat} (hi : i < 2 ^ 32) : (later i).timestamp.toInt = 1700000001 + i := by
  rw [later, Int64.toInt_ofNat_of_lt (by omega)]
  omega

private theorem not_expired_of_le {auth : APIMetadata} (hlo : 1700000000 ≤ auth.timestamp.toInt)
    (hhi : auth.timestamp.toInt < 2 ^ 62) : ¬ Expired floodTime auth.timestamp := by
  rw [expired_iff, unixTime_eq (by omega)]
  delta floodTime maxRequestAge Time
  omega

theorem fresh_flood {keyStore : MemoryAPIKeyStore} (hsecret : keyStore.getSecret "k" = "s") {n : Nat}
    (hn : n < 2 ^ 32) : ∀ auth ∈ victim :: (List.range n).map later, Fresh keyStore floodTime auth := by
  have hk : "k" ≠ "" := by decide
  have hs : keyStore.getSecret "k" ≠ "" := by rw [hsecret]; decide
  intro auth hauth
  rcases List.mem_cons.1 hauth with rfl | hauth
  · exact ⟨hk, hs, not_expired_of_le (by rw [toInt_victim]) (by rw [toInt_victim]; decide)⟩
  · obtain ⟨i, hi, rfl⟩ := List.mem_map.1 hauth
    have hint := toInt_later (Nat.lt_trans (List.mem_range.1 hi) hn)
    rw [List.mem_range] at hi
    exact ⟨hk, hs, not_expired_of_le (by omega) (by omega)⟩

private theorem lt_later {n : Nat} (hn : n < 2 ^ 32) :
    ∀ auth ∈ (List.range n).map later, victim.timestamp.toInt < auth.timestamp.toInt := by
  intro auth hauth
  obtain ⟨i, hi, rfl⟩ := List.mem_map.1 hauth
  rw [toInt_victim, toInt_later (Nat.lt_trans (List.mem_range.1 hi) hn)]
  omega

theorem nodup_flood {n : Nat} (hn : n < 2 ^ 32) :
    ((victim :: (List.range n).map later).map requestKey).Nodup := by
  have hlater : ((List.range n).map later).Pairwise fun a b => a.timestamp.toInt < b.timestamp.toInt := by
    refine List.pairwise_map.2 (List.pairwise_lt_range.imp_of_mem fun {i j} hi hj hij => ?_)
    rw [toInt_later (Nat.lt_trans (List.mem_range.1 hi) hn), toInt_later (Nat.lt_trans (List.mem_range.1 hj) hn)]
    omega
  refine List.pairwise_map.2 ((List.pairwise_cons.2 ⟨lt_later hn, hlater⟩).imp fun {a b} hlt heq => ?_)
  rw [(replayKey_inj heq).2] at hlt
  exact Int.lt_irrefl _ hlt

/-- With enough later requests, whatever the order in which the cleanup sorts them, the first one is accepted
again. -/
theorem two_le_count_floodRun {a : AuthInterceptor} {keyStore : MemoryAPIKeyStore}
    (hstore : a.keyStore = some keyStore) (hsecret : keyStore.getSecret "k" = "s")
    (hnew : a.seenRequests = ∅) {n : Nat}
    (hmax : maxTimestampMapSize ≤ n) (hn : n < 2 ^ 32) (sort : SortSlice) :
    2 ≤ (Run.exec step (start a floodTime) (floodRun n sort)).accepted.count (victim.apiKey, victim.timestamp) := by
  -- the victim is accepted whenever its key is not there
  have haccept : ∀ {b : AuthInterceptor}, b.keyStore = some keyStore → requestKey victim ∉ b.seenRequests →
      (b.validateAPIKeyAuth floodTime victim "/m").2 = .ok () := fun hb hkey =>
    AuthInterceptor.validateAPIKeyAuth_generateAPIKeyToken (by decide) hb hsecret (by decide) (by decide)
      (by decide) hkey
  have hempty : ∀ key, key ∉ (start a floodTime).interceptor.seenRequests := by
    intro key
    simp only [start, hnew]
    exact AList.notMem_empty key
  have hflood := @keys_exec_calls keyStore floodTime "/m" _ (fresh_flood hsecret hn) (nodup_flood hn)
    (start a floodTime) hstore fun auth _ => hempty (requestKey auth)
  have hfirst : [(victim.apiKey, victim.timestamp)] <:+ (Run.exec step (start a floodTime)
      ((victim :: (List.range n).map later).map fun auth => .call floodTime auth "/m")).accepted := by
    have hcall := accepted_call (haccept hstore (hempty (requestKey victim)))
    have hsuffix := accepted_suffix_exec ((start a floodTime).step (.call floodTime victim "/m"))
      (((List.range n).map later).map fun auth => .call floodTime auth "/m")
    rw [hcall] at hsuffix
    exact hsuffix
  rw [floodRun, Run.exec_append]
  generalize Run.exec step (start a floodTime) _ = s at hflood hfirst ⊢
  obtain ⟨hstore', hkeys⟩ := hflood
  have hevicted : requestKey victim ∉ (s.interceptor.cleanupOldTimestamps floodTime sort).seenRequests := by
    have hnil : (start a floodTime).interceptor.seenRequests.keys = [] := by simp only [start, hnew]; rfl
    rw [hnil, List.append_nil] at hkeys
    rw [AuthInterceptor.seenRequests_cleanupOldTimestamps, AuthInterceptor.mem_deleteAll, not_and_not_right]
    exact fun _ => requestKey_mem_evictedBySize hkeys (by simpa using hmax) (by decide) (lt_later hn) sort
  have hsecond := @accepted_call (s.step (.cleanup floodTime sort)) floodTime victim "/m"
    (haccept ((AuthInterceptor.keyStore_cleanupOldTimestamps ..).trans hstore') hevicted)
  rw [Run.exec_cons, Run.exec_cons, Run.exec_nil, hsecond, List.count_cons_self]
  have hone := hfirst.sublist.count_le (victim.apiKey, victim.timestamp)
  rw [List.count_singleton_self] at hone
  exact Nat.succ_le_succ hone

/-- Insertion sort is one of the sorts that `sort.Slice` may be. -/
def stableSort : SortSlice where
  sort := List.insertionSort fun e f => e.timestamp.toInt ≤ f.timestamp.toInt
  perm := List.perm_insertionSort _
  sorted := fun entries => by
    have : Std.Total fun e f : TimestampEntry => e.timestamp.toInt ≤ f.timestamp.toInt := ⟨fun _ _ => Int.le_total ..⟩
    have : IsTrans TimestampEntry fun e f => e.timestamp.toInt ≤ f.timestamp.toInt := ⟨fun _ _ _ => Int.le_trans⟩
    exact List.pairwise_insertionSort _ entries

theorem replay_accepted :
    Run.Admits step InOrder (start keyInterceptor floodTime) (floodRun maxTimestampMapSize stableSort) ∧
      2 ≤ (Run.exec step (start keyInterceptor floodTime) (floodRun maxTimestampMapSize stableSort)).accepted.count
        (victim.apiKey, victim.timestamp) := by
  refine ⟨@admits_of_now_eq floodTime _ ?_ _ (Int.le_refl _), ?_⟩
  · intro e he
    rcases List.mem_append.1 he with he | he
    · obtain ⟨auth, -, rfl⟩ := List.mem_map.1 he
      rfl
    · rcases List.mem_pair.1 he with rfl | rfl <;> rfl
  · exact two_le_count_floodRun rfl rfl rfl (Nat.le_refl _) (by decide) stableSort

/-- A request, a cleanup six minutes later and the same request again. -/
def sampleRun : List Event :=
  [.call floodTime victim "/m", .cleanup (floodTime + 360000000000) stableSort,
    .call (floodTime + 360000000000) victim "/m"]

theorem count_accepted_sampleRun :
    Run.Admits step InOrder (start keyInterceptor floodTime) sampleRun ∧
      (Run.exec step (start keyInterceptor floodTime) sampleRun).accepted = [("k", 1700000000)] ∧
      (Run.exec step (start keyInterceptor floodTime) sampleRun).accepted.count ("k", 1700000000) ≤
        (Run.exec step (start keyInterceptor floodTime) sampleRun).evicted.count (replayKey "k" 1700000000) + 1 :=
  ⟨by decide, by decide +kernel, count_accepted_le (by decide) _ _⟩

theorem stores_victim : Stores keyInterceptor floodTime victim "/m" := by
  have hfresh : Fresh ⟨AList.singleton "k" "s"⟩ floodTime victim :=
    fresh_flood rfl (by decide : 0 < 2 ^ 32) victim (List.mem_cons_self ..)
  have hunseen : replayKey victim.apiKey victim.timestamp ∉ keyInterceptor.seenRequests := AList.notMem_empty _
  have hpasses : keyInterceptor.Passes floodTime victim := ⟨hfresh.apiKey, hfresh.secret, hfresh.time, hunseen⟩
  refine ⟨hunseen, ?_⟩
  rw [(AuthInterceptor.validateAPIKeyAuth_of_passes hpasses "/m").1, AList.mem_insert]
  exact .inl rfl

/-- Six minutes later the key is deleted, and the request is refused. -/
theorem tooOld_of_deletedByAge_six_minutes :
    let s := Run.exec step (start keyInterceptor floodTime)
      [.call floodTime victim "/m", .cleanup (floodTime + 360000000000) stableSort]
    s.interceptor.validateAPIKeyAuth (floodTime + 360000000000) victim "/m" =
      (s.interceptor, unauthenticated "request timestamp too old") := by
  have hstored := stores_victim
  have hdeleted := @deletedByAge_of_stores _ _ (floodTime + 360000000000) _ _ hstored (by decide)
  exact tooOld_of_deletedByAge hstored [] hdeleted stableSort [] (Int.le_refl _) victim.signature "/m"

end ReplayRun

end DistributedBloomFilter
