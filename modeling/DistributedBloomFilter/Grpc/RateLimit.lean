import DistributedBloomFilter.Basic
import DistributedBloomFilter.Lib.TokenBucket
import Mathlib.Algebra.Order.Field.Rat

/-!
# The rate limit interceptor

`RateLimitInterceptor` of `internal/grpc/ratelimit.go`.  A request takes a token of the global limiter and, if limits
for each client are enabled, one of the limiter of its client, which is made on the first request.  The limiters are
exact token buckets that start full.

A client is known by the text that `getClientID` finds.  Behind a trusted proxy this is the first element of
`X-Forwarded-For`, which the client itself has written: the proxy adds the address that it sees at the end.  A client
is charged to its address exactly if it sent no such header or one whose first element is this address
(`chargedToAddress_iff`).  With an empty first element it is charged to nobody.
-/

namespace DistributedBloomFilter

open TokenBucket (Bucket)

/-! ### Trusted proxies -/

abbrev IP := Bytes

structure IPNet where
  ip : IP
  mask : Bytes
deriving DecidableEq, Repr

/-- The list `TrustedProxies` and what the package `net` does with texts. -/
structure ProxyEnv where
  trustedProxies : List String
  parseIP : String → Option IP
  parseCIDR : String → Option IPNet
  ipString : IP → Bytes

/-- `To4`: the four bytes of an IPv4 address, which may be stored in sixteen. -/
def IP.to4 (ip : IP) : Option IP :=
  if ip.length = 4 then some ip
  else if ip.length = 16 ∧ ip.take 12 = List.replicate 10 0 ++ [0xff, 0xff] then some (ip.drop 12)
  else none

namespace IPNet

def networkNumberAndMask (n : IPNet) : IP × Bytes :=
  match IP.to4 n.ip with
  | some ip =>
    if n.mask.length = 4 then (ip, n.mask)
    else if n.mask.length = 16 then (ip, n.mask.drop 12)
    else ([], [])
  | none => if n.ip.length = 16 ∧ n.mask.length = 16 then (n.ip, n.mask) else ([], [])

def contains (n : IPNet) (ip : IP) : Bool :=
  let (nn, m) := n.networkNumberAndMask
  let ip := (IP.to4 ip).getD ip
  ip.length = nn.length ∧ List.zipWith (· &&& ·) nn m = List.zipWith (· &&& ·) ip m

end IPNet

def defaultRanges : List String :=
  ["127.0.0.0/8", "::1/128", "10.0.0.0/8", "172.16.0.0/12", "192.168.0.0/16", "fc00::/7", "fe80::/10"]

/-- The networks; what cannot be parsed is left out. -/
def initTrustedProxies (env : ProxyEnv) : List IPNet :=
  if env.trustedProxies.length = 0 then defaultRanges.filterMap env.parseCIDR
  else
    env.trustedProxies.filterMap fun proxy =>
      if '/' ∈ proxy.toList then env.parseCIDR proxy
      else
        match env.parseIP proxy with
        | none => none
        | some ip => if (IP.to4 ip).isSome then env.parseCIDR (proxy ++ "/32") else env.parseCIDR (proxy ++ "/128")

def isTrustedProxy (env : ProxyEnv) (ip : IP) : Bool :=
  (initTrustedProxies env).any fun network => network.contains ip

/-! ### The identity of a client -/

/-- The address of a peer with its text: that of a TCP connection, where the IP can be missing, or another one. -/
inductive Addr where
  | tcp (ip : Option IP) (text : Bytes)
  | other (text : Bytes)
deriving DecidableEq, Repr

namespace Addr

def ip : Addr → Option IP
  | tcp ip _ => ip
  | other _ => none

def text : Addr → Bytes
  | tcp _ text => text
  | other text => text

end Addr

/-- The header fields by their names in lower case. -/
abbrev MD := List (String × List Bytes)

/-- What the interceptor reads from the context of a call. -/
structure CallContext where
  peer : Option Addr
  incoming : Option MD
deriving DecidableEq, Repr

def MD.get (md : MD) (key : String) : List Bytes := (md.lookup key).getD []

def comma : UInt8 := 0x2c

/-- The characters of `unicode.IsSpace`, in UTF-8. -/
def whiteSpace : List Bytes :=
  [[0x09], [0x0a], [0x0b], [0x0c], [0x0d], [0x20], [0xc2, 0x85], [0xc2, 0xa0], [0xe1, 0x9a, 0x80]] ++
    (List.range 11).map (fun i => [0xe2, 0x80, 0x80 + i.toUInt8]) ++
    [[0xe2, 0x80, 0xa8], [0xe2, 0x80, 0xa9], [0xe2, 0x80, 0xaf], [0xe2, 0x81, 0x9f], [0xe3, 0x80, 0x80]]

/-- The text without the characters at its front; of one that was found, `skip` more bytes are to be dropped. -/
def dropLeading (chars : List Bytes) : Nat → Bytes → Bytes
  | _, [] => []
  | skip + 1, _ :: rest => dropLeading chars skip rest
  | 0, b :: rest =>
    match chars.find? fun c => c.isPrefixOf (b :: rest) with
    | some c => dropLeading chars (c.length - 1) rest
    | none => b :: rest

/-- `strings.TrimSpace`. -/
def trimSpace (s : Bytes) : Bytes :=
  (dropLeading (whiteSpace.map List.reverse) 0 (dropLeading whiteSpace 0 s).reverse).reverse

/-- What the headers say about the client. -/
def headerIP (md : MD) : Option Bytes :=
  ((MD.get md "x-forwarded-for").head?.bind fun xff => (xff.splitOn comma).head?.map trimSpace).or
    (MD.get md "x-real-ip").head?

/-- `getClientID` and `GetClientIP`, which differ in the answer for a call without a peer. -/
def clientAddress (unknown : Bytes) (env : ProxyEnv) (ctx : CallContext) : Bytes :=
  let peerIP := ctx.peer.bind Addr.ip
  match ctx.incoming.bind fun md => if peerIP.any (isTrustedProxy env) then headerIP md else none with
  | some id => id
  | none =>
    match peerIP, ctx.peer with
    | some ip, _ => env.ipString ip
    | none, some addr => addr.text
    | none, none => unknown

def getClientID : ProxyEnv → CallContext → Bytes := clientAddress (utf8 "unknown")

def getClientIP : ProxyEnv → CallContext → Bytes := clientAddress []

/-! ### The interceptor -/

def defaultRateLimit : Int := 100

def defaultBurstSize : Int := 200

def perClientRateLimit : Int := 20

def perClientBurstSize : Int := 40

/-- Ten minutes. -/
def clientLimiterTimeout : Int := 10 * 60 * 1000000000

structure RateLimitConfig where
  requestsPerSecond : Int
  burstSize : Int
  perClientRPS : Int
  perClientBurst : Int
  enablePerClient : Bool
deriving DecidableEq, Repr

/-- The seconds of an instant or a duration. -/
def seconds (t : Int) : ℚ := t / 1000000000

theorem seconds_le_seconds {t u : Int} : seconds t ≤ seconds u ↔ t ≤ u := by
  unfold seconds
  rw [div_le_div_iff_of_pos_right (by norm_num), Int.cast_le]

theorem seconds_lt_seconds {t u : Int} : seconds t < seconds u ↔ t < u := lt_iff_lt_of_le_iff_le seconds_le_seconds

theorem seconds_add (t u : Int) : seconds (t + u) = seconds t + seconds u := by
  unfold seconds
  rw [Int.cast_add, add_div]

/-- `rate.NewLimiter`. -/
def newLimiter (rps burst : Int) (hrps : 0 < rps) (hburst : 0 < burst) : Bucket ℚ :=
  Bucket.full (rps : ℚ) burst 0 (Int.cast_nonneg hrps.le) (Int.cast_nonneg hburst.le)

/-- The limiters of the clients lie in `limiters` by their references, and from `next` on there are none yet: a client
that `clientLimiters` has forgotten may still have a request that holds a reference. -/
structure RateLimitInterceptor where
  globalLimiter : Bucket ℚ
  limiters : Nat → Bucket ℚ
  next : Nat
  clientLimiters : Bytes → Option Nat
  clientLastSeen : Bytes → Option Time
  perClientRPS : Int
  perClientBurst : Int
  enablePerClient : Bool
  perClientRPS_pos : 0 < perClientRPS
  perClientBurst_pos : 0 < perClientBurst
  limiters_config : ∀ limiter, (limiters limiter).rate = perClientRPS ∧ (limiters limiter).burst = perClientBurst

/-- A value of the configuration, or the default in the place of one that is not positive. -/
def orDefault (value default : Int) : Int := if value ≤ 0 then default else value

theorem orDefault_pos {value default : Int} (h : 0 < default) : 0 < orDefault value default := by
  unfold orDefault
  split <;> omega

def newRateLimitInterceptorWithConfig (config : RateLimitConfig) : RateLimitInterceptor :=
  have hrps := orDefault_pos (by decide : 0 < perClientRateLimit)
  have hburst := orDefault_pos (by decide : 0 < perClientBurstSize)
  { globalLimiter := newLimiter (orDefault config.requestsPerSecond defaultRateLimit)
      (orDefault config.burstSize defaultBurstSize) (orDefault_pos (by decide)) (orDefault_pos (by decide))
    limiters := fun _ => newLimiter (orDefault config.perClientRPS perClientRateLimit)
      (orDefault config.perClientBurst perClientBurstSize) hrps hburst
    next := 0
    clientLimiters := fun _ => none
    clientLastSeen := fun _ => none
    perClientRPS := orDefault config.perClientRPS perClientRateLimit
    perClientBurst := orDefault config.perClientBurst perClientBurstSize
    enablePerClient := config.enablePerClient
    perClientRPS_pos := hrps
    perClientBurst_pos := hburst
    limiters_config := fun _ => ⟨rfl, rfl⟩ }

/-- The code is `ResourceExhausted` for every rejection. -/
inductive LimitDecision where
  | reject (msg : Bytes)
  | handle
deriving DecidableEq, Repr

/-- The readings of the clock in one request: by the global limiter, for `clientLastSeen`, by the client's limiter. -/
structure Readings where
  global : Time
  seen : Time
  client : Time
deriving DecidableEq, Repr

namespace RateLimitInterceptor

variable (r : RateLimitInterceptor)

/-- A new limiter for a client. -/
def clientLimiter : Bucket ℚ :=
  newLimiter r.perClientRPS r.perClientBurst r.perClientRPS_pos r.perClientBurst_pos

theorem config_update {limiter : Nat} {bucket : Bucket ℚ}
    (h : bucket.rate = r.perClientRPS ∧ bucket.burst = r.perClientBurst) (other : Nat) :
    (Function.update r.limiters limiter bucket other).rate = r.perClientRPS ∧
      (Function.update r.limiters limiter bucket other).burst = r.perClientBurst := by
  rcases eq_or_ne other limiter with rfl | hne
  · rw [Function.update_self]
    exact h
  · rw [Function.update_of_ne hne]
    exact r.limiters_config other

/-- The part of `allowClient` under the lock for writing: another request can have made the limiter by now. -/
def create (clientID : Bytes) : RateLimitInterceptor × Nat :=
  match r.clientLimiters clientID with
  | some limiter => (r, limiter)
  | none =>
    ({ r with
        limiters := Function.update r.limiters r.next r.clientLimiter
        next := r.next + 1
        clientLimiters := Function.update r.clientLimiters clientID (some r.next)
        limiters_config := r.config_update ⟨rfl, rfl⟩ },
      r.next)

/-- The update of the time at which the client was last seen. -/
def see (now : Time) (clientID : Bytes) : RateLimitInterceptor :=
  { r with clientLastSeen := Function.update r.clientLastSeen clientID (some now) }

/-- `Allow` of the limiter at a reference. -/
def allow (now : Time) (limiter : Nat) : RateLimitInterceptor × Bool :=
  ({ r with
      limiters := Function.update r.limiters limiter ((r.limiters limiter).take (seconds now)).1
      limiters_config := r.config_update (by
        rw [Bucket.take_rate, Bucket.take_burst]
        exact r.limiters_config limiter) },
    ((r.limiters limiter).take (seconds now)).2)

def allowClient (now : Readings) (clientID : Bytes) : RateLimitInterceptor × Bool :=
  let (r, limiter) :=
    match r.clientLimiters clientID with
    | some limiter => (r, limiter)
    | none => r.create clientID
  (r.see now.seen clientID).allow now.client limiter

/-- The client was last seen more than `clientLimiterTimeout` before the time. -/
def inactive (now : Time) (clientID : Bytes) : Bool :=
  (r.clientLastSeen clientID).any (· < now - clientLimiterTimeout)

def cleanupInactiveClients (now : Time) : RateLimitInterceptor :=
  { r with
    clientLimiters := fun clientID => if r.inactive now clientID then none else r.clientLimiters clientID
    clientLastSeen := fun clientID => if r.inactive now clientID then none else r.clientLastSeen clientID }

/-- `Allow` of the global limiter. -/
def allowGlobal (now : Time) : RateLimitInterceptor × Bool :=
  let (bucket, allowed) := r.globalLimiter.take (seconds now)
  ({ r with globalLimiter := bucket }, allowed)

/-- A request is charged to a client. -/
def chargeClient (now : Readings) (clientID : Bytes) : RateLimitInterceptor × LimitDecision :=
  let (r, allowed) := r.allowClient now clientID
  if allowed then (r, .handle) else (r, .reject (utf8 "per-client rate limit exceeded for " ++ clientID))

/-- The interceptors of unary calls and of streams, which differ in the handler that they call. -/
def intercept (env : ProxyEnv) (now : Readings) (ctx : CallContext) : RateLimitInterceptor × LimitDecision :=
  let (r, allowed) := r.allowGlobal now.global
  if ¬ allowed then (r, .reject (utf8 "global rate limit exceeded"))
  else if r.enablePerClient then
    let clientID := getClientID env ctx
    if clientID ≠ [] then r.chargeClient now clientID else (r, .handle)
  else (r, .handle)

def unaryInterceptor (env : ProxyEnv) (now : Readings) (ctx : CallContext) : RateLimitInterceptor × LimitDecision :=
  r.intercept env now ctx

def streamInterceptor (env : ProxyEnv) (now : Readings) (ctx : CallContext) : RateLimitInterceptor × LimitDecision :=
  r.intercept env now ctx

/-! ### A limiter takes part -/

/-- After `create` the client has a limiter: the one it had, or a new one. -/
theorem create_spec (clientID : Bytes) :
    (r.create clientID).1.clientLimiters clientID = some (r.create clientID).2 ∧
      (∀ other, other ≠ clientID → (r.create clientID).1.clientLimiters other = r.clientLimiters other) := by
  unfold create
  split
  · rename_i limiter h
    exact ⟨h, fun _ _ => rfl⟩
  · exact ⟨Function.update_self .., fun other h => Function.update_of_ne h ..⟩

theorem create_cases (clientID : Bytes) :
    (r.clientLimiters clientID = some (r.create clientID).2 ∧ (r.create clientID).1 = r) ∨
      (r.clientLimiters clientID = none ∧ (r.create clientID).2 = r.next ∧
        (r.create clientID).1.next = r.next + 1) := by
  unfold create
  cases h : r.clientLimiters clientID with
  | some limiter => exact .inl ⟨rfl, rfl⟩
  | none => exact .inr ⟨rfl, rfl, rfl⟩

theorem create_config (clientID : Bytes) :
    (r.create clientID).1.perClientRPS = r.perClientRPS ∧
    (r.create clientID).1.perClientBurst = r.perClientBurst := by
  unfold create
  split <;> exact ⟨rfl, rfl⟩

/-- The limiter of a client, which is a new one for a client that has none. -/
def limiterOf (clientID : Bytes) : Bucket ℚ := ((r.clientLimiters clientID).map r.limiters).getD r.clientLimiter

theorem limiterOf_config (clientID : Bytes) :
    (r.limiterOf clientID).rate = r.perClientRPS ∧ (r.limiterOf clientID).burst = r.perClientBurst := by
  unfold limiterOf
  cases r.clientLimiters clientID with
  | some limiter => exact r.limiters_config limiter
  | none => exact ⟨rfl, rfl⟩

/-- A client without a limiter gets a full one. -/
theorem level_limiterOf_of_none {clientID : Bytes} (h : r.clientLimiters clientID = none) (t : ℚ) :
    (r.limiterOf clientID).level t = r.perClientBurst := by
  rw [limiterOf, h]
  exact Bucket.level_full ..

theorem limiterOf_create_self (clientID : Bytes) :
    (r.create clientID).1.limiterOf clientID = r.limiterOf clientID := by
  unfold create
  split
  · rfl
  · rename_i h
    unfold limiterOf
    dsimp only
    rw [Function.update_self, h]
    exact Function.update_self ..

/-- To make a limiter for one client does not change what another client has, nor what the client has: what it gets is
full. -/
theorem limiterOf_create_of_lt {client : Bytes} (hlt : ∀ limiter, r.clientLimiters client = some limiter →
    limiter < r.next) (clientID : Bytes) : (r.create clientID).1.limiterOf client = r.limiterOf client := by
  rcases eq_or_ne client clientID with rfl | hne
  · exact r.limiterOf_create_self client
  · unfold create
    split
    · rfl
    · unfold limiterOf
      dsimp only
      rw [Function.update_of_ne hne]
      cases hclient : r.clientLimiters client with
      | none => rfl
      | some limiter => exact Function.update_of_ne (hlt limiter hclient).ne ..

theorem limiterOf_allow {client : Bytes} {limiter : Nat} (h : r.clientLimiters client = some limiter) (now : Time) :
    (r.allow now limiter).1.limiterOf client = ((r.limiterOf client).take (seconds now)).1 ∧
      (r.allow now limiter).2 = ((r.limiterOf client).take (seconds now)).2 := by
  unfold limiterOf allow
  dsimp only
  rw [h]
  exact ⟨Function.update_self .., rfl⟩

theorem limiterOf_allow_of_ne {client : Bytes} {limiter : Nat} (h : r.clientLimiters client ≠ some limiter)
    (now : Time) : (r.allow now limiter).1.limiterOf client = r.limiterOf client := by
  unfold limiterOf allow
  dsimp only
  cases hclient : r.clientLimiters client with
  | none => rfl
  | some other => exact Function.update_of_ne (fun heq => h (by rw [hclient, heq])) ..

theorem allowClient_eq (now : Readings) (clientID : Bytes) :
    r.allowClient now clientID =
      ((r.create clientID).1.see now.seen clientID).allow now.client (r.create clientID).2 := by
  unfold allowClient
  cases h : r.clientLimiters clientID with
  | some limiter =>
    have hcreate : r.create clientID = (r, limiter) := by rw [create, h]
    rw [hcreate]
  | none => rfl

/-- A request is allowed exactly if there is a token for it, and then takes one. -/
theorem allowClient_spec (now : Readings) (clientID : Bytes) :
    (r.allowClient now clientID).1.limiterOf clientID = ((r.limiterOf clientID).take (seconds now.client)).1 ∧
      (r.allowClient now clientID).2 = ((r.limiterOf clientID).take (seconds now.client)).2 := by
  have hself : ((r.create clientID).1.see now.seen clientID).clientLimiters clientID = some (r.create clientID).2 :=
    (r.create_spec clientID).1
  have hsame : ((r.create clientID).1.see now.seen clientID).limiterOf clientID = r.limiterOf clientID :=
    r.limiterOf_create_self clientID
  rw [allowClient_eq, ← hsame]
  exact limiterOf_allow _ hself now.client

/-- A request makes a limiter for its own client only. -/
theorem clientLimiters_allowClient (now : Readings) (clientID : Bytes) :
    (r.allowClient now clientID).1.clientLimiters = (r.create clientID).1.clientLimiters := by
  rw [allowClient_eq]
  rfl

/-- The global limiter comes first, and then the limiter of the client. -/
def charge (now : Readings) (clientID : Bytes) : RateLimitInterceptor × LimitDecision :=
  let (r, allowed) := r.allowGlobal now.global
  if allowed then r.chargeClient now clientID else (r, .reject (utf8 "global rate limit exceeded"))

/-- From `r` to `after` the limiter of the client has lost a token. -/
def TokenTaken (now : Time) (clientID : Bytes) (after : RateLimitInterceptor) : Prop :=
  1 ≤ (r.limiterOf clientID).level (seconds now) ∧
    (after.limiterOf clientID).level (seconds now) = (r.limiterOf clientID).level (seconds now) - 1

theorem tokenTaken_of_charge_handle (now : Readings) (clientID : Bytes) (h : (r.charge now clientID).2 = .handle) :
    r.TokenTaken now.client clientID (r.charge now clientID).1 := by
  have hspec := (r.allowGlobal now.global).1.allowClient_spec now clientID
  have hsame : (r.allowGlobal now.global).1.limiterOf clientID = r.limiterOf clientID := rfl
  rw [hsame] at hspec
  unfold TokenTaken
  unfold charge chargeClient at h ⊢
  dsimp only at h ⊢
  split at h
  · rename_i hglobal
    split at h
    · rename_i hclient
      rw [if_pos hglobal, if_pos hclient]
      rw [hspec.2, Bucket.take_eq_true_iff] at hclient
      refine ⟨hclient, ?_⟩
      show Bucket.level (limiterOf (allowClient _ _ _).1 _) _ = _
      rw [hspec.1, Bucket.level_take _ hclient]
    · cases h
  · cases h

theorem intercept_eq_charge {env : ProxyEnv} {ctx : CallContext} (now : Readings) (henable : r.enablePerClient = true)
    (hid : getClientID env ctx ≠ []) : r.intercept env now ctx = r.charge now (getClientID env ctx) := by
  have hsame : (r.allowGlobal now.global).1.enablePerClient = true := henable
  unfold intercept charge
  dsimp only
  rw [if_pos hsame, if_pos hid]
  cases (r.allowGlobal now.global).2 <;> rfl

theorem clientLimiters_of_cleanup {now : Time} {clientID : Bytes} {limiter : Nat}
    (h : (r.cleanupInactiveClients now).clientLimiters clientID = some limiter) :
    r.clientLimiters clientID = some limiter := by
  unfold cleanupInactiveClients at h
  dsimp only at h
  split at h
  · cases h
  · exact h

/-- Nothing is charged to the client without a name. -/
theorem clientLimiters_intercept_of_nil {env : ProxyEnv} {ctx : CallContext} (now : Readings)
    (hid : getClientID env ctx = []) : (r.intercept env now ctx).1.clientLimiters = r.clientLimiters := by
  unfold intercept
  dsimp only
  rw [hid]
  split
  · rfl
  · split <;> rfl

/-- Where the global limiter has a token, a charge leaves the client with a limiter, and no other client with a new
one. -/
theorem clientLimiters_charge (now : Readings) (clientID : Bytes) (h : (r.allowGlobal now.global).2 = true) :
    (r.charge now clientID).1.clientLimiters clientID ≠ none ∧
      ∀ other, other ≠ clientID → (r.charge now clientID).1.clientLimiters other = r.clientLimiters other := by
  have hcreate := (r.allowGlobal now.global).1.create_spec clientID
  have hcharge : (r.charge now clientID).1.clientLimiters =
      ((r.allowGlobal now.global).1.create clientID).1.clientLimiters := by
    rw [← clientLimiters_allowClient _ now]
    unfold charge chargeClient
    dsimp only
    rw [if_pos h]
    split <;> rfl
  rw [hcharge, hcreate.1]
  exact ⟨Option.some_ne_none _, hcreate.2⟩

end RateLimitInterceptor

/-! ### Behind a trusted proxy -/

/-- The text of an address, as a proxy appends it to the header. -/
structure Address where
  text : Bytes
  ne_nil : text ≠ []
  no_comma : comma ∉ text
  trimmed : trimSpace text = text

/-- The header behind the proxy, which appends the address to what the client has sent, or sets it. -/
def forwardedFor (supplied : Option Bytes) (address : Address) : Bytes :=
  match supplied with
  | none => address.text
  | some value => value ++ comma :: 0x20 :: address.text

/-- A request through a trusted proxy. -/
structure ProxiedCall (env : ProxyEnv) where
  proxy : IP
  proxyText : Bytes
  trusted : isTrustedProxy env proxy = true
  /-- what the client has put into `X-Forwarded-For` -/
  supplied : Option Bytes
  /-- where the proxy has the request from -/
  address : Address
  others : MD

namespace ProxiedCall

variable {env : ProxyEnv} (c : ProxiedCall env)

def context : CallContext where
  peer := some (.tcp (some c.proxy) c.proxyText)
  incoming := some (("x-forwarded-for", [forwardedFor c.supplied c.address]) :: c.others)

/-- Every interceptor with limits for each client charges the request to its address, and the handler is not reached
without a token of this address. -/
def ChargedToAddress : Prop :=
  ∀ (r : RateLimitInterceptor) (now : Readings), r.enablePerClient = true →
    r.unaryInterceptor env now c.context = r.charge now c.address.text ∧
      ((r.unaryInterceptor env now c.context).2 = .handle →
        r.TokenTaken now.client c.address.text (r.unaryInterceptor env now c.context).1)

/-- The first element of the header that the client has sent, if any, is its own address. -/
def NamesItself : Prop := ∀ value ∈ c.supplied, trimSpace ((value.splitOn comma).headD []) = c.address.text

theorem getClientID_context :
    getClientID env c.context = trimSpace (((forwardedFor c.supplied c.address).splitOn comma).headD []) := by
  have hne : (forwardedFor c.supplied c.address).splitOn comma ≠ [] := List.splitOnP_ne_nil _ _
  obtain ⟨first, rest, hsplit⟩ := List.exists_cons_of_ne_nil hne
  have hheader : headerIP (("x-forwarded-for", [forwardedFor c.supplied c.address]) :: c.others) =
      some (trimSpace first) := by
    unfold headerIP MD.get
    rw [List.lookup_cons_self, Option.getD_some, List.head?_cons, Option.bind_some, hsplit]
    rfl
  rw [hsplit]
  unfold getClientID clientAddress
  show (match if isTrustedProxy env c.proxy then headerIP _ else none with | some id => id | none => _) = _
  rw [if_pos c.trusted, hheader]
  rfl

/-- The proxy's part comes after the first comma, unless it is all there is. -/
theorem getClientID_eq_address_iff : getClientID env c.context = c.address.text ↔ c.NamesItself := by
  rw [getClientID_context, NamesItself]
  cases c.supplied with
  | none =>
    have hall : ∀ b ∈ c.address.text, (b == comma) = false := by
      intro b hb
      exact beq_eq_false_iff_ne.2 (ne_of_mem_of_not_mem hb c.address.no_comma)
    have hsplit : (forwardedFor none c.address).splitOn comma = [c.address.text] := List.splitOnP_eq_singleton hall
    rw [hsplit]
    exact iff_of_true c.address.trimmed nofun
  | some value =>
    have hsplit : (forwardedFor (some value) c.address).splitOn comma =
        value.splitOn comma ++ (0x20 :: c.address.text).splitOn comma :=
          List.splitOnP_append_cons _ _ (beq_self_eq_true _)
    have hne : value.splitOn comma ≠ [] := List.splitOnP_ne_nil _ _
    obtain ⟨first, rest, hvalue⟩ := List.exists_cons_of_ne_nil hne
    rw [hsplit]
    simp only [Option.mem_def, Option.some.injEq, forall_eq', hvalue, List.cons_append, List.headD_cons]

theorem chargedToAddress_of_eq (h : getClientID env c.context = c.address.text) : c.ChargedToAddress := by
  intro r now henable
  have hne : getClientID env c.context ≠ [] := by
    rw [h]
    exact c.address.ne_nil
  have hcharge : r.unaryInterceptor env now c.context = r.charge now c.address.text := by
    rw [← h]
    exact r.intercept_eq_charge now henable hne
  rw [hcharge]
  exact ⟨rfl, r.tokenTaken_of_charge_handle now c.address.text⟩

/-- A request under another name leaves the address without a limiter, in an interceptor that has seen nobody yet. -/
theorem not_chargedToAddress_of_ne (h : getClientID env c.context ≠ c.address.text) : ¬ c.ChargedToAddress := by
  intro hcharged
  let r := newRateLimitInterceptorWithConfig ⟨0, 0, 0, 0, true⟩
  let now : Readings := ⟨0, 0, 0⟩
  have hglobal : (r.allowGlobal now.global).2 = true := by
    refine (Bucket.take_eq_true_iff _).2 ?_
    show 1 ≤ Bucket.level (Bucket.full _ _ _ _ _) _
    rw [Bucket.level_full]
    decide +kernel
  have heq := (hcharged r now rfl).1
  have hlimiter := (r.clientLimiters_charge now c.address.text hglobal).1
  rw [← heq] at hlimiter
  refine hlimiter ?_
  show (r.intercept env now c.context).1.clientLimiters c.address.text = none
  rcases eq_or_ne (getClientID env c.context) [] with hid | hid
  · rw [r.clientLimiters_intercept_of_nil now hid]
    rfl
  · rw [r.intercept_eq_charge now rfl hid, (r.clientLimiters_charge now _ hglobal).2 _ h.symm]
    rfl

theorem chargedToAddress_iff : c.ChargedToAddress ↔ c.NamesItself := by
  rw [← getClientID_eq_address_iff]
  constructor
  · intro hcharged
    by_contra hne
    exact c.not_chargedToAddress_of_ne hne hcharged
  · exact c.chargedToAddress_of_eq

end ProxiedCall

/-- A server that trusts `10.0.0.0/8`. -/
def tenNet : ProxyEnv where
  trustedProxies := ["10.0.0.0/8"]
  parseIP := fun _ => none
  parseCIDR := fun s => if s = "10.0.0.0/8" then some ⟨[10, 0, 0, 0], [255, 0, 0, 0]⟩ else none
  ipString := fun _ => []

/-- A client at 203.0.113.9 that sends the value through the proxy at 10.0.0.1. -/
def spoofed (value : String) : ProxiedCall tenNet where
  proxy := [10, 0, 0, 1]
  proxyText := utf8 "10.0.0.1:4711"
  trusted := by decide +kernel
  supplied := some (utf8 value)
  address :=
    { text := utf8 "203.0.113.9"
      ne_nil := by decide +kernel
      no_comma := by decide +kernel
      trimmed := by decide +kernel }
  others := []

/-- With `1.2.3.4` in its header the client is charged to that name.  With nothing before the first comma it reaches
the handler without any limiter for a client. -/
theorem charged_to_supplied :
    ¬ (spoofed "1.2.3.4").ChargedToAddress ∧ ¬ (spoofed "").ChargedToAddress ∧
      getClientID tenNet (spoofed "1.2.3.4").context = utf8 "1.2.3.4" ∧
      (let r := newRateLimitInterceptorWithConfig ⟨0, 0, 0, 0, true⟩
       (r.unaryInterceptor tenNet ⟨0, 0, 0⟩ (spoofed "").context).2 = .handle ∧
         (r.unaryInterceptor tenNet ⟨0, 0, 0⟩ (spoofed "").context).1.next = 0) := by
  refine ⟨ProxiedCall.not_chargedToAddress_of_ne _ (by decide +kernel),
    ProxiedCall.not_chargedToAddress_of_ne _ (by decide +kernel), by decide +kernel, ?_⟩
  decide +kernel

end DistributedBloomFilter
