import DistributedBloomFilter.Basic
import DistributedBloomFilter.Lib.Base64
import DistributedBloomFilter.Lib.Decimal
import DistributedBloomFilter.Lib.Sha256
import Mathlib.Data.List.AList
import Mathlib.Data.List.DropRight

/-!
# The authentication interceptor and its API keys

The interceptor of the gRPC server, the store of API keys, and the check of an API key with the set of requests it has
seen.  A request is known by its API key and timestamp: `validateAPIKeyAuth` stores the two in one text before it
looks at the signature, and `cleanupOldTimestamps` reads the timestamp back from behind the last colon.
-/

namespace DistributedBloomFilter

/-- Five minutes. -/
def maxRequestAge : Int := 5 * 60 * 1000000000

def maxTimestampMapSize : Nat := 100000

structure APIMetadata where
  apiKey : String
  timestamp : Int64
  signature : String
deriving DecidableEq, Repr

structure AuthConfig where
  enableMTLS : Bool
  caCertPath : String
  enableTokenAuth : Bool
  jwtSecretKey : String
  enableAPIKeyAuth : Bool
  apiKeys : AList fun _ : String => String

/-! ### The store of API keys -/

structure MemoryAPIKeyStore where
  secrets : AList fun _ : String => String

def newMemoryAPIKeyStore : MemoryAPIKeyStore := ⟨∅⟩

namespace MemoryAPIKeyStore

def addKey (s : MemoryAPIKeyStore) (apiKey secret : String) : MemoryAPIKeyStore := ⟨s.secrets.insert apiKey secret⟩

def getSecret (s : MemoryAPIKeyStore) (apiKey : String) : String := (s.secrets.lookup apiKey).getD ""

end MemoryAPIKeyStore

/-! ### The interceptor -/

structure Certificate where
  raw : Bytes
deriving DecidableEq, Repr

structure TokenClaims where
  nodeID : String
  expiresAt : Option Time
deriving DecidableEq, Repr

/-- A parsed token.  `hmac` says whether its signing method is one of HMAC, and `claims` is the outcome of the type
assertion on the claims. -/
structure Token where
  alg : String
  hmac : Bool
  valid : Bool
  claims : Option TokenClaims
deriving DecidableEq, Repr

/-- The file system, the certificates and the tokens; an error is its text. -/
structure AuthEnv where
  readFile : String → Except String Bytes
  /-- type and bytes of the first block -/
  pemDecode : Bytes → Option (String × Bytes)
  parseCertificate : Bytes → Except String Certificate
  /-- verifies a certificate against one root at a time; `none` when it passes -/
  verify : Time → Certificate → Certificate → Option String
  /-- the key function is called on the token before its signature is checked -/
  parseWithClaims : Time → String → (Token → Except String Bytes) → Except String Token

structure AuthInterceptor where
  config : AuthConfig
  caCert : Option Certificate
  keyStore : Option MemoryAPIKeyStore
  seenRequests : AList fun _ : String => Bool
  timestampCount : Nat
  apiKeyEnabled : Bool
  apiKeyEnabled_eq : apiKeyEnabled = (config.enableAPIKeyAuth && !config.apiKeys.entries.isEmpty)
  keyStore_isSome : keyStore.isSome = apiKeyEnabled

/-- The CA certificate, if mTLS is enabled and a path is given. -/
def loadCACert (env : AuthEnv) (config : AuthConfig) : Except Failure (Option Certificate) :=
  if config.enableMTLS ∧ config.caCertPath ≠ "" then
    match env.readFile config.caCertPath with
    | .error err => .error (.error ("failed to read CA cert: " ++ err))
    | .ok caCertPEM =>
      match env.pemDecode caCertPEM with
      | some ("CERTIFICATE", block) =>
        match env.parseCertificate block with
        | .error err => .error (.error ("failed to parse CA certificate: " ++ err))
        | .ok caCert => .ok (some caCert)
      | _ => .error (.error "failed to decode PEM block containing certificate")
  else .ok none

def newAuthInterceptor (env : AuthEnv) (config : AuthConfig) : Except Failure AuthInterceptor :=
  let apiKeyEnabled := config.enableAPIKeyAuth && !config.apiKeys.entries.isEmpty
  let keyStore := config.apiKeys.entries.foldl (fun s e => s.addKey e.1 e.2) newMemoryAPIKeyStore
  (loadCACert env config).map fun caCert =>
    { config := config
      caCert := caCert
      keyStore := if apiKeyEnabled then some keyStore else none
      seenRequests := ∅
      timestampCount := 0
      apiKeyEnabled := apiKeyEnabled
      apiKeyEnabled_eq := rfl
      keyStore_isSome := by cases apiKeyEnabled <;> rfl }

/-- Every error of an authentication method is a status with the code `Unauthenticated`. -/
def unauthenticated {α : Type} (msg : String) : Except Failure α := .error (.error msg)

/-! ### The time of a request -/

/-- `time.Unix(sec, 0)`: the seconds are counted from the year 1, in 64 bits. -/
def unixTime (sec : Int64) : Int := zeroTime + (sec + 62135596800).toInt * 1000000000

/-- `time.Since(t)`, a duration of 64 bits that stops at its ends. -/
def since (now t : Time) : Int := max (-2 ^ 63) (min (2 ^ 63 - 1) (now - t))

/-- The timestamp is too old at this time. -/
def Expired (now : Time) (timestamp : Int64) : Prop := since now (unixTime timestamp) > maxRequestAge

instance (now : Time) (timestamp : Int64) : Decidable (Expired now timestamp) := inferInstanceAs (Decidable (_ > _))

/-! ### API key authentication -/

/-- The key in `seenRequests`. -/
def replayKey (apiKey : String) (timestamp : Int64) : String :=
  apiKey ++ ":" ++ String.ofList (Decimal.print timestamp.toInt)

/-- The base64 text of the HMAC of API key, timestamp and method. -/
def computeSignature (apiKey : String) (timestamp : Int64) (method secret : String) : String :=
  let message := apiKey ++ String.ofList (Decimal.print timestamp.toInt) ++ method
  String.ofList (Base64.encode (Sha256.hmac (utf8 secret) (utf8 message)))

/-- The credentials that a client makes at the time `now`. -/
def generateAPIKeyToken (now : Time) (apiKey secret method : String) : APIMetadata :=
  let timestamp := Int64.ofInt (now / 1000000000)
  { apiKey := apiKey, timestamp := timestamp, signature := computeSignature apiKey timestamp method secret }

namespace AuthInterceptor

def validateAPIKeyAuth (a : AuthInterceptor) (now : Time) (auth : APIMetadata) (method : String) :
    AuthInterceptor × Except Failure Unit :=
  if auth.apiKey = "" then (a, unauthenticated "missing API key")
  else
    match a.keyStore with
    | none => (a, .error (.panic "invalid memory address or nil pointer dereference"))
    | some keyStore =>
      let secret := keyStore.getSecret auth.apiKey
      if secret = "" then (a, unauthenticated "invalid API key")
      else if Expired now auth.timestamp then (a, unauthenticated "request timestamp too old")
      else if replayKey auth.apiKey auth.timestamp ∈ a.seenRequests then
        (a, unauthenticated "replay attack detected")
      else
        -- the request counts as seen from here on, also when its signature is wrong
        let a := { a with
          seenRequests := a.seenRequests.insert (replayKey auth.apiKey auth.timestamp) true
          timestampCount := a.timestampCount + 1 }
        if auth.signature ≠ computeSignature auth.apiKey auth.timestamp method secret then
          (a, unauthenticated "invalid signature")
        else (a, .ok ())

end AuthInterceptor

/-! ### Cleanup -/

structure TimestampEntry where
  key : String
  timestamp : Int64
deriving DecidableEq, Repr

/-- The timestamp behind the last colon of a key, if there is one. -/
def timestampEntry (keyStr : String) : Option TimestampEntry :=
  if ':' ∈ keyStr.toList then
    (Decimal.scan (keyStr.toList.rtakeWhile (· ≠ ':'))).map fun timestamp => { key := keyStr, timestamp := timestamp }
  else none

/-- What `sort.Slice` may make of the entries.  It is not stable and the entries come in the order of a map, so the
order of entries with one timestamp is open. -/
structure SortSlice where
  sort : List TimestampEntry → List TimestampEntry
  perm : ∀ entries, (sort entries).Perm entries
  sorted : ∀ entries, (sort entries).Pairwise fun e f => e.timestamp.toInt ≤ f.timestamp.toInt

namespace AuthInterceptor

/-- The entries older than `maxRequestAge`, in seconds. -/
def oldEntries (a : AuthInterceptor) (now : Time) : List TimestampEntry :=
  let cutoff := (now - maxRequestAge) / 1000000000
  (a.seenRequests.keys.filterMap timestampEntry).filter fun entry => entry.timestamp.toInt < cutoff

def deleteAll (seen : AList fun _ : String => Bool) (entries : List TimestampEntry) : AList fun _ : String => Bool :=
  entries.foldl (fun seen entry => seen.erase entry.key) seen

/-- The entries to remove by size: the oldest half. -/
def oldestEntries (seen : AList fun _ : String => Bool) (sort : SortSlice) : List TimestampEntry :=
  let allEntries := sort.sort (seen.keys.filterMap timestampEntry)
  let removeCount := allEntries.length / 2
  allEntries.take removeCount

def cleanupOldTimestamps (a : AuthInterceptor) (now : Time) (sort : SortSlice) : AuthInterceptor :=
  let totalCount := a.seenRequests.keys.length
  let seen := deleteAll a.seenRequests (a.oldEntries now)
  if totalCount > maxTimestampMapSize then
    let oldest := oldestEntries seen sort
    if oldest.length > 0 then
      { a with seenRequests := deleteAll seen oldest, timestampCount := totalCount - oldest.length }
    else { a with seenRequests := seen, timestampCount := totalCount }
  else { a with seenRequests := seen, timestampCount := totalCount }

end AuthInterceptor

/-! ### Keys and timestamps -/

theorem toList_replayKey (apiKey : String) (timestamp : Int64) :
    (replayKey apiKey timestamp).toList = apiKey.toList ++ ':' :: Decimal.print timestamp.toInt := by
  simp [replayKey]

/-- Nothing that is printed of a timestamp is taken for the colon. -/
private theorem print_ne_colon (timestamp : Int64) :
    ∀ c ∈ (Decimal.print timestamp.toInt).reverse, (decide (c ≠ ':')) = true := by
  intro c hc
  have hcolon : ':' ∉ Decimal.print timestamp.toInt := Decimal.not_mem_print rfl (by decide) _
  exact decide_eq_true fun h => hcolon (h ▸ List.mem_reverse.1 hc)

/-- The cleanup finds the timestamp, whatever colons the API key has. -/
theorem timestampEntry_replayKey (apiKey : String) (timestamp : Int64) :
    timestampEntry (replayKey apiKey timestamp) =
      some { key := replayKey apiKey timestamp, timestamp := timestamp } := by
  have htail : (replayKey apiKey timestamp).toList.rtakeWhile (· ≠ ':') = Decimal.print timestamp.toInt := by
    rw [toList_replayKey, List.rtakeWhile, List.reverse_append, List.reverse_cons, List.append_assoc,
      List.takeWhile_append_of_pos (print_ne_colon timestamp)]
    simp
  have hcolon : ':' ∈ (replayKey apiKey timestamp).toList := by simp [toList_replayKey]
  rw [timestampEntry, if_pos hcolon, htail, Decimal.scan_print]
  rfl

theorem key_of_timestampEntry {keyStr : String} {entry : TimestampEntry} (h : timestampEntry keyStr = some entry) :
    entry.key = keyStr := by
  unfold timestampEntry at h
  split at h
  · obtain ⟨timestamp, -, rfl⟩ := Option.map_eq_some_iff.1 h
    rfl
  · cases h

theorem replayKey_inj {k l : String} {t u : Int64} (h : replayKey k t = replayKey l u) : k = l ∧ t = u := by
  have hentry := timestampEntry_replayKey k t
  rw [h, timestampEntry_replayKey l u] at hentry
  obtain rfl : u = t := congrArg TimestampEntry.timestamp (Option.some.inj hentry)
  have hlist := congrArg String.toList h
  rw [toList_replayKey, toList_replayKey] at hlist
  exact ⟨String.toList_inj.1 (List.append_cancel_right hlist), rfl⟩

theorem expired_iff {now : Time} {timestamp : Int64} :
    Expired now timestamp ↔ now - unixTime timestamp > maxRequestAge := by
  delta Expired since maxRequestAge Time
  omega

theorem Expired.mono {now later : Time} {timestamp : Int64} (h : Expired now timestamp) (hle : now ≤ later) :
    Expired later timestamp := by
  rw [expired_iff] at h ⊢
  exact Int.lt_of_lt_of_le h (Int.sub_le_sub_right hle _)

private theorem toInt_add_offset (sec : Int64) :
    (sec + 62135596800).toInt = (sec.toInt + 62135596800).bmod (2 ^ 64) := by
  rw [Int64.toInt_add]
  rfl

/-- Where the count of seconds overflows, the time comes out in the past. -/
theorem unixTime_le (sec : Int64) : unixTime sec ≤ sec.toInt * 1000000000 := by
  have hlo := sec.le_toInt
  have hhi := sec.toInt_lt
  delta unixTime zeroTime
  rw [toInt_add_offset, Int.bmod_def]
  omega

theorem unixTime_eq {sec : Int64} (h : sec.toInt + 62135596800 < 2 ^ 63) :
    unixTime sec = sec.toInt * 1000000000 := by
  have hlo := sec.le_toInt
  delta unixTime zeroTime
  rw [toInt_add_offset, Int.bmod_def]
  omega

/-- What the cleanup removes by age, the check refuses by age. -/
theorem expired_of_lt_cutoff {now : Time} {timestamp : Int64}
    (h : timestamp.toInt < (now - maxRequestAge) / 1000000000) : Expired now timestamp := by
  have hle := unixTime_le timestamp
  rw [expired_iff]
  delta maxRequestAge Time at h ⊢
  omega

namespace AuthInterceptor

/-! ### What a check and a cleanup do -/

/-- The secret of an API key; the empty text stands for none. -/
def secretOf (a : AuthInterceptor) (apiKey : String) : String :=
  match a.keyStore with
  | none => ""
  | some keyStore => keyStore.getSecret apiKey

theorem secretOf_eq {a : AuthInterceptor} {keyStore : MemoryAPIKeyStore} (h : a.keyStore = some keyStore)
    (apiKey : String) : a.secretOf apiKey = keyStore.getSecret apiKey := by
  rw [secretOf, h]

/-- The checks before that of the signature: the API key has a secret, the timestamp is in time, and the two have not
been seen together. -/
structure Passes (a : AuthInterceptor) (now : Time) (auth : APIMetadata) : Prop where
  apiKey : auth.apiKey ≠ ""
  secret : a.secretOf auth.apiKey ≠ ""
  time : ¬ Expired now auth.timestamp
  unseen : replayKey auth.apiKey auth.timestamp ∉ a.seenRequests

/-- A request that passes the other checks is stored, and accepted if it has the right signature; any other is refused
and changes nothing. -/
theorem validateAPIKeyAuth_spec (a : AuthInterceptor) (now : Time) (auth : APIMetadata) (method : String) :
    (a.Passes now auth ∧
      (a.validateAPIKeyAuth now auth method).1 = { a with
        seenRequests := a.seenRequests.insert (replayKey auth.apiKey auth.timestamp) true
        timestampCount := a.timestampCount + 1 } ∧
      ((a.validateAPIKeyAuth now auth method).2 = .ok () ↔
        auth.signature = computeSignature auth.apiKey auth.timestamp method (a.secretOf auth.apiKey))) ∨
    (¬ a.Passes now auth ∧ ∃ failure, a.validateAPIKeyAuth now auth method = (a, .error failure)) := by
  unfold validateAPIKeyAuth
  split
  · rename_i hkey
    exact .inr ⟨fun h => h.apiKey hkey, _, rfl⟩
  rename_i hkey
  split
  · rename_i hstore
    have hnone : a.secretOf auth.apiKey = "" := by rw [secretOf, hstore]
    exact .inr ⟨fun h => h.secret hnone, _, rfl⟩
  rename_i keyStore hstore
  dsimp only
  rw [← secretOf_eq hstore]
  split
  · rename_i hsecret
    exact .inr ⟨fun h => h.secret hsecret, _, rfl⟩
  rename_i hsecret
  split
  · rename_i htime
    exact .inr ⟨fun h => h.time htime, _, rfl⟩
  rename_i htime
  split
  · rename_i hseen
    exact .inr ⟨fun h => h.unseen hseen, _, rfl⟩
  rename_i hseen
  refine .inl ⟨⟨hkey, hsecret, htime, hseen⟩, ?_⟩
  split
  · rename_i hsig
    exact ⟨rfl, iff_of_false (fun h => by cases h) hsig⟩
  · rename_i hsig
    exact ⟨rfl, iff_of_true rfl (not_not.1 hsig)⟩

theorem validateAPIKeyAuth_of_passes {a : AuthInterceptor} {now : Time} {auth : APIMetadata} (h : a.Passes now auth)
    (method : String) :
    (a.validateAPIKeyAuth now auth method).1 = { a with
      seenRequests := a.seenRequests.insert (replayKey auth.apiKey auth.timestamp) true
      timestampCount := a.timestampCount + 1 } ∧
    ((a.validateAPIKeyAuth now auth method).2 = .ok () ↔
      auth.signature = computeSignature auth.apiKey auth.timestamp method (a.secretOf auth.apiKey)) :=
  (a.validateAPIKeyAuth_spec now auth method).elim And.right fun hno => absurd h hno.1

theorem passes_of_ok {a : AuthInterceptor} {now : Time} {auth : APIMetadata} {method : String}
    (h : (a.validateAPIKeyAuth now auth method).2 = .ok ()) : a.Passes now auth := by
  rcases a.validateAPIKeyAuth_spec now auth method with ⟨hpasses, -⟩ | ⟨-, failure, hfailed⟩
  · exact hpasses
  · rw [hfailed] at h
    cases h

theorem validateAPIKeyAuth_of_expired {a : AuthInterceptor} {now : Time} {auth : APIMetadata}
    (hkey : auth.apiKey ≠ "") (hsecret : a.secretOf auth.apiKey ≠ "") (htime : Expired now auth.timestamp)
    (method : String) :
    a.validateAPIKeyAuth now auth method = (a, unauthenticated "request timestamp too old") := by
  cases hstore : a.keyStore with
  | none =>
    rw [secretOf, hstore] at hsecret
    exact absurd rfl hsecret
  | some keyStore =>
    rw [secretOf_eq hstore] at hsecret
    simp only [validateAPIKeyAuth, hstore, if_neg hkey, if_neg hsecret, if_pos htime]

/-- What a client makes is accepted at once, if the clock is one that `time.Unix` can count. -/
theorem validateAPIKeyAuth_generateAPIKeyToken {a : AuthInterceptor} {now : Time} {apiKey secret method : String}
    {keyStore : MemoryAPIKeyStore} (hkey : apiKey ≠ "") (hstore : a.keyStore = some keyStore)
    (hsecret : keyStore.getSecret apiKey = secret) (hne : secret ≠ "") (hlo : -2 ^ 63 ≤ now / 1000000000)
    (hhi : now / 1000000000 + 62135596800 < 2 ^ 63)
    (hseen : replayKey apiKey (Int64.ofInt (now / 1000000000)) ∉ a.seenRequests) :
    (a.validateAPIKeyAuth now (generateAPIKeyToken now apiKey secret method) method).2 = .ok () := by
  have htime : ¬ Expired now (Int64.ofInt (now / 1000000000)) := by
    delta Time at hlo hhi
    have hsec : (Int64.ofInt (now / 1000000000)).toInt = now / 1000000000 :=
      Int64.toInt_ofInt_of_le hlo (by omega)
    have hunix := @unixTime_eq (Int64.ofInt (now / 1000000000)) (by rw [hsec]; exact hhi)
    rw [expired_iff, hunix, hsec]
    delta maxRequestAge Time
    omega
  have hsecretOf : a.secretOf apiKey = secret := (secretOf_eq hstore apiKey).trans hsecret
  have hpasses : a.Passes now (generateAPIKeyToken now apiKey secret method) :=
    ⟨hkey, hsecretOf.symm ▸ hne, htime, hseen⟩
  exact (validateAPIKeyAuth_of_passes hpasses method).2.2 (congrArg (computeSignature apiKey _ method) hsecretOf.symm)

theorem mem_deleteAll {seen : AList fun _ : String => Bool} {entries : List TimestampEntry} {k : String} :
    k ∈ deleteAll seen entries ↔ k ∈ seen ∧ k ∉ entries.map TimestampEntry.key := by
  induction entries generalizing seen with
  | nil => simp [deleteAll]
  | cons e entries ih =>
    have hstep : deleteAll seen (e :: entries) = deleteAll (seen.erase e.key) entries := rfl
    rw [hstep, ih, AList.mem_erase, List.map_cons, List.mem_cons]
    tauto

/-- The entries that a cleanup removes because there are too many. -/
def evictedBySize (a : AuthInterceptor) (now : Time) (sort : SortSlice) : List TimestampEntry :=
  if a.seenRequests.keys.length > maxTimestampMapSize then
    oldestEntries (deleteAll a.seenRequests (a.oldEntries now)) sort
  else []

theorem seenRequests_cleanupOldTimestamps (a : AuthInterceptor) (now : Time) (sort : SortSlice) :
    (a.cleanupOldTimestamps now sort).seenRequests =
      deleteAll (deleteAll a.seenRequests (a.oldEntries now)) (a.evictedBySize now sort) := by
  unfold cleanupOldTimestamps evictedBySize
  dsimp only
  split
  · split
    · rfl
    · rename_i hempty
      rw [gt_iff_lt, List.length_pos_iff, not_not] at hempty
      rw [hempty]
      rfl
  · rfl

theorem keyStore_cleanupOldTimestamps (a : AuthInterceptor) (now : Time) (sort : SortSlice) :
    (a.cleanupOldTimestamps now sort).keyStore = a.keyStore := by
  unfold cleanupOldTimestamps
  dsimp only
  split
  · split <;> rfl
  · rfl

theorem mem_map_key_oldEntries {a : AuthInterceptor} {now : Time} {apiKey : String} {timestamp : Int64}
    (h : replayKey apiKey timestamp ∈ (a.oldEntries now).map TimestampEntry.key) :
    timestamp.toInt < (now - maxRequestAge) / 1000000000 := by
  obtain ⟨entry, hentry, hkey⟩ := List.mem_map.1 h
  obtain ⟨hmem, hold⟩ := List.mem_filter.1 hentry
  obtain ⟨keyStr, -, hparse⟩ := List.mem_filterMap.1 hmem
  rw [← key_of_timestampEntry hparse, hkey, timestampEntry_replayKey] at hparse
  obtain rfl := Option.some.inj hparse
  exact of_decide_eq_true hold

/-- A cleanup forgets a request only when it is too old or when there are too many. -/
theorem mem_cleanupOldTimestamps {a : AuthInterceptor} {now : Time} {sort : SortSlice} {apiKey : String}
    {timestamp : Int64} (h : replayKey apiKey timestamp ∈ a.seenRequests) (htime : ¬ Expired now timestamp)
    (hsize : replayKey apiKey timestamp ∉ (a.evictedBySize now sort).map TimestampEntry.key) :
    replayKey apiKey timestamp ∈ (a.cleanupOldTimestamps now sort).seenRequests := by
  rw [seenRequests_cleanupOldTimestamps, mem_deleteAll, mem_deleteAll]
  exact ⟨⟨h, fun hold => htime (expired_of_lt_cutoff (mem_map_key_oldEntries hold))⟩, hsize⟩

end AuthInterceptor

/-! ### A configuration with one API key -/

def keyConfig : AuthConfig where
  enableMTLS := false
  caCertPath := ""
  enableTokenAuth := false
  jwtSecretKey := ""
  enableAPIKeyAuth := true
  apiKeys := AList.singleton "k" "s"

def keyInterceptor : AuthInterceptor where
  config := keyConfig
  caCert := none
  keyStore := some ⟨AList.singleton "k" "s"⟩
  seenRequests := ∅
  timestampCount := 0
  apiKeyEnabled := true
  apiKeyEnabled_eq := rfl
  keyStore_isSome := rfl

/-- No file can be read, and no certificate or token is good. -/
def AuthInterceptor.offlineEnv : AuthEnv where
  readFile := fun _ => .error "no such file or directory"
  pemDecode := fun _ => none
  parseCertificate := fun _ => .error "x509: malformed certificate"
  verify := fun _ _ _ => some "x509: certificate signed by unknown authority"
  parseWithClaims := fun _ _ _ => .error "token is malformed"

example (env : AuthEnv) : newAuthInterceptor env keyConfig = .ok keyInterceptor := rfl

end DistributedBloomFilter
