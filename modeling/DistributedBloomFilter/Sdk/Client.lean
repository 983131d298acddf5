import DistributedBloomFilter.Grpc.Server
import DistributedBloomFilter.Lib.Retry

/-!
# The client library

`Client` of `sdk/client.go`: connecting, the retry loop with its redirection to a leader, and the operations `Add`,
`Remove` and `BatchAdd`.  An operation is a function of the number of the attempt, which stands for what the network
does at that time, of the address the client is connected to, and of the state `σ` of the servers.
-/

namespace DistributedBloomFilter

structure ClientConfig where
  addresses : List String
  tlsCertFile : String
  enableTLS : Bool
  maxRetries : Int
  retryDelay : Int
  timeout : Int
deriving DecidableEq, Repr

/-- `client` is the address of the current connection, `connections` has those of the pool. -/
structure Client where
  config : ClientConfig
  client : Option String
  connections : List String
  leaderAddress : String
deriving DecidableEq, Repr

/-- The errors of an operation: `ErrLeaderRedirect`, or any other. -/
inductive CallError where
  | leaderRedirect (message : String)
  | other (message : String)
deriving DecidableEq, Repr

/-- What loading a certificate and dialling an address end with. -/
structure Dialer where
  loadTLS : String → Option String
  dial : String → Option String

/-- What a call returns, with the client and the servers after it. -/
structure CallResult (σ : Type) where
  err : Option CallError
  client : Client
  state : σ

/-- The first 14 characters decide; both texts are ASCII, so they are the first 14 bytes. -/
def isLeaderRedirect (msg : String) : Bool :=
  if msg.toList.length < 14 then false
  else msg.toList.take 14 = "not the leader".toList || msg.toList.take 14 = "Not the leader".toList

/-- The loop of `extractLeaderAddress`: where the text between the parentheses starts and ends. -/
def addressLoop : List Char → Nat → Option Nat → Option (Nat × Nat)
  | [], _, _ => none
  | ch :: rest, i, start =>
    if ch = '(' then addressLoop rest (i + 1) (some (i + 1))
    else
      match start with
      | none => addressLoop rest (i + 1) none
      | some s => if ch = ')' then some (s, i) else addressLoop rest (i + 1) (some s)

def extractLeaderAddress (errorMsg : String) : String :=
  match addressLoop errorMsg.toList 0 none with
  | none => ""
  | some (start, stop) => if stop > start then String.ofList ((errorMsg.toList.take stop).drop start) else ""

namespace Client

def connect (d : Dialer) (c : Client) (address : String) : Client × Option String :=
  if address ∈ c.connections then ({ c with client := some address }, none)
  else
    match if c.config.enableTLS ∧ c.config.tlsCertFile ≠ "" then d.loadTLS c.config.tlsCertFile else none with
    | some err => (c, some ("failed to load TLS credentials: " ++ err))
    | none =>
      match d.dial address with
      | some err => (c, some ("failed to dial " ++ address ++ ": " ++ err))
      | none => ({ c with client := some address, connections := address :: c.connections }, none)

/-- The loop of `connectToFirstAvailable`. -/
def connectToFirst (d : Dialer) : List String → Client → Client × Option String
  | [], c => (c, some "failed to connect to any address")
  | addr :: addrs, c =>
    match c.connect d addr with
    | (c', none) => (c', none)
    | (c', some _) => connectToFirst d addrs c'

/-- The defaults `NewClient` fills in. -/
def withDefaults (config : ClientConfig) : ClientConfig :=
  { config with
    maxRetries := if config.maxRetries = 0 then 3 else config.maxRetries
    retryDelay := if config.retryDelay = 0 then 100000000 else config.retryDelay
    timeout := if config.timeout = 0 then 5000000000 else config.timeout }

def newClient (config : ClientConfig) (d : Dialer) : Except String Client :=
  if config.addresses.length = 0 then .error "no addresses provided"
  else
    match connectToFirst d config.addresses
        { config := withDefaults config, client := none, connections := [], leaderAddress := "" } with
    | (c, none) => .ok c
    | (_, some err) => .error ("failed to connect: " ++ err)

def switchToLeader (d : Dialer) (c : Client) (errorMsg : String) : Client × Option String :=
  let leaderAddr := extractLeaderAddress errorMsg
  if leaderAddr = "" then (c, some ("could not extract leader address from: " ++ errorMsg))
  else { c with leaderAddress := leaderAddr }.connect d leaderAddr

section Retry

variable {σ : Type} (dialer : Nat → Dialer) (ctxErr : Nat → Option String)
  (fn : Nat → String → σ → Option CallError × σ)

/-- The loop of `executeWithRetry`, with the number of attempts that are left.  `ctxErr` is the error of the context
if it is done while the client waits after an attempt. -/
def retryLoop : Nat → Nat → Option CallError → Client → σ → CallResult σ
  | 0, _, lastErr, c, s => ⟨lastErr, c, s⟩
  | n + 1, attempt, _, c, s =>
    match c.client with
    | none => ⟨some (.other "no connection available"), c, s⟩
    | some address =>
      match fn attempt address s with
      | (none, s') => ⟨none, c, s'⟩
      | (some (.leaderRedirect msg), s') =>
        match c.switchToLeader (dialer attempt) msg with
        | (c', some err) => ⟨some (.other ("failed to switch to leader: " ++ err)), c', s'⟩
        | (c', none) => retryLoop n (attempt + 1) (some (.leaderRedirect msg)) c' s'
      | (some (.other msg), s') =>
        match if (attempt : Int) < c.config.maxRetries then ctxErr attempt else none with
        | some err => ⟨some (.other err), c, s'⟩
        | none => retryLoop n (attempt + 1) (some (.other msg)) c s'

def executeWithRetry (c : Client) (s : σ) : CallResult σ :=
  retryLoop dialer ctxErr fn (c.config.maxRetries + 1).toNat 0 none c s

end Retry

/-! ### The operations -/

/-- What `Add` and `Remove` make of the answer to their call. -/
def mutateError (verb : String) : Except String MutateResponse → Option CallError
  | .error err => some (.other err)
  | .ok resp =>
    if resp.success then none
    else if isLeaderRedirect resp.error then some (.leaderRedirect resp.error)
    else some (.other (verb ++ " failed: " ++ resp.error))

/-- What `BatchAdd` makes of it. -/
def batchAddError (count : Nat) : Except String BatchAddResponse → Option CallError
  | .error err => some (.other err)
  | .ok resp =>
    match if resp.failureCount = Int32.ofNat count then resp.errors.head?.filter isLeaderRedirect else none with
    | some msg => some (.leaderRedirect msg)
    | none =>
      if resp.failureCount > 0 then
        some (.other ("batch add partially failed: " ++ toString resp.successCount ++ " successes, " ++
          toString resp.failureCount ++ " failures"))
      else none

end Client

/-! ### A call that is never redirected -/

/-- The text of a redirect starts with `n` or `N`. -/
theorem not_isLeaderRedirect_append {pre : String} {ch : Char} (hpre : pre.toList.head? = some ch) (hn : ch ≠ 'n')
    (hN : ch ≠ 'N') (rest : String) : isLeaderRedirect (pre ++ rest) = false := by
  obtain ⟨chars, hchars⟩ := List.head?_eq_some_iff.1 hpre
  unfold isLeaderRedirect
  split
  · rfl
  · rw [String.toList_append, hchars, List.cons_append, List.take_succ_cons]
    have hlower : ch :: (chars ++ rest.toList).take 13 ≠ "not the leader".toList := fun h => hn (List.cons.inj h).1
    have hupper : ch :: (chars ++ rest.toList).take 13 ≠ "Not the leader".toList := fun h => hN (List.cons.inj h).1
    rw [decide_eq_false hlower, decide_eq_false hupper]
    rfl

namespace Client

section Spec

variable {τ : Type} (dialer : Nat → Dialer) (ctxErr : Nat → Option String)
  {fn : Nat → String → List τ → Option CallError × List τ} {out : Nat → Option String} {log : Nat → List τ}

/-- The attempt fails, and the wait after it is not cut short. -/
def Again (out ctxErr : Nat → Option String) (i : Nat) : Prop := out i ≠ none ∧ ctxErr i = none

instance (out ctxErr : Nat → Option String) : DecidablePred (Again out ctxErr) :=
  fun _ => inferInstanceAs (Decidable (_ ∧ _))

/-- After a first attempt that failed, the last attempt is the last of the others. -/
private theorem last_succ {out : Nat → Option String} {attempt made : Nat} (hout : out attempt ≠ none) :
    (∃ i, made = i + 1 ∧ out (attempt + 1 + i) = none) ↔ ∃ i, made + 1 = i + 1 ∧ out (attempt + i) = none := by
  constructor
  · rintro ⟨i, hi, hnone⟩
    exact ⟨i + 1, by rw [hi], by rwa [Nat.add_assoc, Nat.add_comm 1] at hnone⟩
  · rintro ⟨i, hi, hnone⟩
    cases i with
    | zero => exact absurd hnone hout
    | succ i => exact ⟨i, Nat.succ.inj hi, by rwa [Nat.add_assoc, Nat.add_comm 1]⟩

/-- When every attempt `i` ends in `out i` and adds `log i` to what the servers have done, whatever they did
before. -/
theorem retryLoop_spec (hfn : ∀ i address s, fn i address s = ((out i).map .other, s ++ log i)) {c : Client}
    (hclient : c.client ≠ none) {n attempt : Nat} (hn : c.config.maxRetries = attempt + n - 1)
    (lastErr : Option CallError) (s : List τ) :
    (retryLoop dialer ctxErr fn n attempt lastErr c s).state =
        s ++ (List.range (Retry.made (Again out ctxErr) attempt n)).flatMap (fun i => log (attempt + i)) ∧
      ((retryLoop dialer ctxErr fn n attempt lastErr c s).err = none ↔
        (n = 0 ∧ lastErr = none) ∨
          ∃ i, Retry.made (Again out ctxErr) attempt n = i + 1 ∧ out (attempt + i) = none) := by
  induction n generalizing attempt lastErr s with
  | zero => simp [retryLoop, Retry.made]
  | succ n ih =>
    obtain ⟨address, haddress⟩ := Option.ne_none_iff_exists'.1 hclient
    rw [retryLoop, haddress, Retry.made]
    simp only [hfn]
    cases hout : out attempt with
    | none =>
      have hstop : ¬ Again out ctxErr attempt := fun h => h.1 hout
      rw [if_neg hstop]
      simp [hout]
    | some msg =>
      dsimp only [Option.map_some]
      cases hctx : ctxErr attempt with
      | none =>
        have hagain : Again out ctxErr attempt := ⟨by rw [hout]; exact Option.some_ne_none msg, hctx⟩
        have hn' : c.config.maxRetries = (attempt + 1 : Nat) + n - 1 := by push_cast at hn ⊢; omega
        obtain ⟨hstate, herr⟩ := ih hn' (some (.other msg)) (s ++ log attempt)
        rw [ite_self, if_pos hagain]
        refine ⟨?_, herr.trans ?_⟩
        · rw [hstate, List.range_succ_eq_map, List.flatMap_cons, List.flatMap_map, List.append_assoc]
          simp only [Nat.add_zero, Nat.add_assoc, Nat.add_comm 1]
        · rw [last_succ hagain.1, or_iff_right (by simp), or_iff_right (by simp)]
      | some err =>
        have hstop : ¬ Again out ctxErr attempt := fun h => absurd (hctx.symm.trans h.2) (Option.some_ne_none err)
        rw [if_neg hstop]
        split
        · simp [hout]
        · -- the last attempt is not followed by a wait
          rename_i hlast
          have hzero : n = 0 := by
            by_contra hpos
            rw [if_pos (by omega)] at hlast
            cases hlast
          subst hzero
          simp [retryLoop, hout]

/-- There are `n` attempts: every attempt before which all were to be repeated.  The call returns nil if the last of
them does. -/
theorem executeWithRetry_spec (out : Nat → Option String) (log : Nat → List τ)
    (hfn : ∀ i address s, fn i address s = ((out i).map .other, s ++ log i)) {c : Client} (hclient : c.client ≠ none)
    (hmax : 0 ≤ c.config.maxRetries) :
    ∃ n, (∀ i : Nat, i < n ↔ (i : Int) ≤ c.config.maxRetries ∧ ∀ j < i, out j ≠ none ∧ ctxErr j = none) ∧
      (executeWithRetry dialer ctxErr fn c []).state = (List.range n).flatMap log ∧
      ((executeWithRetry dialer ctxErr fn c []).err = none ↔ ∃ i, n = i + 1 ∧ out i = none) := by
  have hn : c.config.maxRetries = (0 : Nat) + ((c.config.maxRetries + 1).toNat : Int) - 1 := by
    push_cast
    omega
  obtain ⟨hstate, herr⟩ := retryLoop_spec dialer ctxErr hfn hclient hn none []
  simp only [Nat.zero_add] at hstate herr
  refine ⟨Retry.made (Again out ctxErr) 0 (c.config.maxRetries + 1).toNat, fun i => ?_, hstate,
    herr.trans ⟨fun h => h.resolve_left ?_, .inr⟩⟩
  · have hlt : i < (c.config.maxRetries + 1).toNat ↔ (i : Int) ≤ c.config.maxRetries := by omega
    rw [Retry.lt_made_iff, hlt]
    simp only [Nat.zero_add, Again]
  · rintro ⟨hzero, _⟩
    omega

end Spec

variable {σ : Type} (dialer : Nat → Dialer) (ctxErr : Nat → Option String)
  (fn : Nat → String → σ → Option CallError × σ)

/-- A negative `MaxRetries` leaves no attempt at all. -/
theorem executeWithRetry_of_neg {c : Client} (hneg : c.config.maxRetries < 0) (s : σ) :
    c.executeWithRetry dialer ctxErr fn s = ⟨none, c, s⟩ := by
  have hzero : (c.config.maxRetries + 1).toNat = 0 := by omega
  rw [executeWithRetry, hzero, retryLoop]

/-- A client without a connection fails at the first attempt. -/
theorem executeWithRetry_of_closed {c : Client} (hclient : c.client = none) (hmax : 0 ≤ c.config.maxRetries) (s : σ) :
    c.executeWithRetry dialer ctxErr fn s = ⟨some (.other "no connection available"), c, s⟩ := by
  obtain ⟨n, hn⟩ : ∃ n, (c.config.maxRetries + 1).toNat = n + 1 := ⟨c.config.maxRetries.toNat, by omega⟩
  rw [executeWithRetry, hn, retryLoop, hclient]

/-! ### What nil says about the attempts -/

/-- The operation, with what every call of it returned. -/
def recorded (attempt : Nat) (address : String) (s : σ × List (Option CallError)) :
    Option CallError × (σ × List (Option CallError)) :=
  let (err, s') := fn attempt address s.1
  (err, s', s.2 ++ [err])

/-- Recording the calls does not change the loop, which returns nil after a call that did, or without a call. -/
theorem retryLoop_recorded (n attempt : Nat) (lastErr : Option CallError) (c : Client) (s : σ)
    (results : List (Option CallError)) :
    let r := retryLoop dialer ctxErr (recorded fn) n attempt lastErr c (s, results)
    retryLoop dialer ctxErr fn n attempt lastErr c s = ⟨r.err, r.client, r.state.1⟩ ∧
      (r.err = none → (n = 0 ∧ lastErr = none) ∨ none ∈ r.state.2) := by
  induction n generalizing attempt lastErr c s results with
  | zero => exact ⟨rfl, fun h => .inl ⟨rfl, h⟩⟩
  | succ n ih =>
    unfold retryLoop
    cases hclient : c.client with
    | none => exact ⟨rfl, nofun⟩
    | some address =>
      obtain ⟨err, s', hfn⟩ : ∃ err s', fn attempt address s = (err, s') := ⟨_, _, rfl⟩
      have hrec : recorded fn attempt address (s, results) = (err, s', results ++ [err]) := by simp [recorded, hfn]
      dsimp only
      rw [hfn, hrec]
      -- where the loop goes on, the last error is not nil
      rcases err with _ | (msg | msg)
      · exact ⟨rfl, fun _ => .inr (by simp)⟩
      · dsimp only
        split
        · exact ⟨rfl, nofun⟩
        · exact ⟨(ih ..).1, fun hnil => .inr (((ih ..).2 hnil).resolve_left (by simp))⟩
      · dsimp only
        split
        · exact ⟨rfl, nofun⟩
        · exact ⟨(ih ..).1, fun hnil => .inr (((ih ..).2 hnil).resolve_left (by simp))⟩

/-- Recording the calls does not change what a call returns, the client or the servers. -/
theorem executeWithRetry_recorded (c : Client) (s : σ) :
    let r := c.executeWithRetry dialer ctxErr (recorded fn) (s, [])
    c.executeWithRetry dialer ctxErr fn s = ⟨r.err, r.client, r.state.1⟩ :=
  (retryLoop_recorded dialer ctxErr fn _ 0 none c s []).1

/-! The configuration of a client is that of `NewClient` for good. -/

theorem config_connect (d : Dialer) (c : Client) (address : String) : (c.connect d address).1.config = c.config := by
  unfold connect
  split
  · rfl
  · split
    · rfl
    · split <;> rfl

/-- A connection that was made is the current one. -/
theorem client_connect {d : Dialer} {c : Client} {address : String} (h : (c.connect d address).2 = none) :
    (c.connect d address).1.client = some address := by
  revert h
  unfold connect
  split
  · exact fun _ => rfl
  · split
    · exact nofun
    · split
      · exact nofun
      · exact fun _ => rfl

theorem config_connectToFirst (d : Dialer) (addresses : List String) (c : Client) :
    (connectToFirst d addresses c).1.config = c.config := by
  induction addresses generalizing c with
  | nil => rfl
  | cons addr addrs ih =>
    have hconnect := config_connect d c addr
    unfold connectToFirst
    split
    · rename_i heq
      rwa [heq] at hconnect
    · rename_i heq
      rw [heq] at hconnect
      rw [ih, hconnect]

theorem config_of_newClient {config : ClientConfig} {d : Dialer} {c : Client} (h : newClient config d = .ok c) :
    c.config = withDefaults config := by
  unfold newClient at h
  split at h
  · cases h
  · split at h
    · rename_i hconnect
      cases h
      exact (congrArg (fun p => p.1.config) hconnect).symm.trans (config_connectToFirst ..)
    · cases h

/-- With the configuration that a client was made with, nil is returned only after a call that returned nil if
`MaxRetries` is not negative; otherwise nil is returned without any call. -/
theorem nil_of_success_iff {config : ClientConfig} {d : Dialer} {c₀ c : Client} (hnew : newClient config d = .ok c₀)
    (hconfig : c.config = c₀.config) (s : σ) :
    let r := c.executeWithRetry dialer ctxErr (recorded fn) (s, [])
    ((c.executeWithRetry dialer ctxErr fn s).err = none → none ∈ r.state.2) ↔ 0 ≤ config.maxRetries := by
  have hmax : 0 ≤ c.config.maxRetries ↔ 0 ≤ config.maxRetries := by
    rw [hconfig, config_of_newClient hnew, withDefaults]
    dsimp only
    split <;> omega
  dsimp only
  rw [executeWithRetry_recorded, ← hmax]
  constructor
  · intro h
    by_contra hneg
    rw [executeWithRetry_of_neg dialer ctxErr (recorded fn) (by omega)] at h
    exact absurd (h rfl) (by simp)
  · intro hnonneg hnone
    exact ((retryLoop_recorded dialer ctxErr fn _ 0 none c s []).2 hnone).resolve_left (by omega)

/-- A network without errors. -/
def quietDialer : Dialer := { loadTLS := fun _ => none, dial := fun _ => none }

/-- A client of one server, made with the given `MaxRetries`. -/
def oneServer (maxRetries : Int) : Except String Client :=
  newClient ⟨["127.0.0.1:7000"], "", false, maxRetries, 0, 0⟩ quietDialer

/-- The operation fails at every attempt. -/
def failing (_ : Nat) (_ : String) (_ : Unit) : Option CallError × Unit := (some (.other "unavailable"), ())

theorem nil_of_success_iff_failing : ∃ c, oneServer 0 = .ok c ∧
    (c.executeWithRetry (fun _ => quietDialer) (fun _ => none) failing ()).err ≠ none := by
  refine ⟨_, rfl, fun hnil => ?_⟩
  exact absurd ((nil_of_success_iff _ _ failing (show oneServer 0 = _ from rfl) rfl ()).2 (by decide) hnil)
    (by decide)

/-- With `MaxRetries` of -1 `NewClient` makes a client that reports success for an operation that can only fail. -/
theorem nil_without_success : ∃ c, oneServer (-1) = .ok c ∧
    (c.executeWithRetry (fun _ => quietDialer) (fun _ => none) failing ()).err = none ∧
    (c.executeWithRetry (fun _ => quietDialer) (fun _ => none) (recorded failing) ((), [])).state.2 = [] :=
  ⟨_, rfl, by decide, by decide⟩

end Client

end DistributedBloomFilter
