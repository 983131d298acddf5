import DistributedBloomFilter.Auth.Interceptor

/-!
# The authentication gate

How the interceptor decides whether a handler is called.  A unary request with an API key is decided by
`validateAPIKeyAuth`, if API keys are enabled; everything else, and every stream, by `authenticate`.  The last line of
`authenticate` is `return nil`, and a server that enables API keys only gets there: without mTLS and without tokens
the gate is closed for requests that carry an API key, and open for all others (`failsClosed_iff`).
-/

namespace DistributedBloomFilter

structure TLSInfo where
  peerCertificates : List Certificate
deriving DecidableEq, Repr

/-- `authInfo` is `none` unless the connection uses TLS. -/
structure Peer where
  authInfo : Option TLSInfo
deriving DecidableEq, Repr

/-- The peer and the incoming metadata of a call. -/
structure Context where
  peer : Option Peer
  incoming : Option (List (String × List String))
deriving DecidableEq, Repr

/-- A unary request: `none` if it has no method `GetAuth`, else what that method returns. -/
abbrev Request := Option (Option APIMetadata)

inductive Decision where
  | reject (failure : Failure)
  | handle
deriving DecidableEq, Repr

/-- The credentials that the interceptor looks at: those with an API key. -/
def Request.credentials : Request → Option APIMetadata
  | some (some auth) => if auth.apiKey = "" then none else some auth
  | _ => none

namespace AuthInterceptor

def validateMTLS (a : AuthInterceptor) (env : AuthEnv) (now : Time) (ctx : Context) : Except Failure Unit :=
  match ctx.peer with
  | none => unauthenticated "TLS connection required"
  | some p =>
    match p.authInfo with
    | none => unauthenticated "TLS connection required"
    | some tlsInfo =>
      match tlsInfo.peerCertificates with
      | [] => unauthenticated "client certificate required"
      | clientCert :: _ =>
        match a.caCert with
        | none => .ok ()
        | some caCert =>
          match env.verify now clientCert caCert with
          | some err => unauthenticated ("invalid client certificate: " ++ err)
          | none => .ok ()

/-- The key function given to the parser of tokens. -/
def tokenKey (a : AuthInterceptor) (token : Token) : Except String Bytes :=
  if token.hmac then .ok (utf8 a.config.jwtSecretKey)
  else .error ("unexpected signing method: " ++ token.alg)

def validateToken (a : AuthInterceptor) (env : AuthEnv) (now : Time) (ctx : Context) : Except Failure Unit :=
  match ctx.incoming with
  | none => unauthenticated "missing metadata"
  | some md =>
    match (md.lookup "authorization").getD [] with
    | [] => unauthenticated "missing authorization header"
    | authHeader :: _ =>
      if ¬ "Bearer ".toList <+: authHeader.toList then unauthenticated "invalid authorization format"
      else
        let tokenString := String.ofList (authHeader.toList.drop "Bearer ".length)
        match env.parseWithClaims now tokenString a.tokenKey with
        | .error err => unauthenticated ("invalid token: " ++ err)
        | .ok token =>
          if ¬ token.valid then unauthenticated "invalid token"
          else
            match token.claims with
            | none => unauthenticated "invalid token claims"
            | some claims =>
              if claims.expiresAt.any (· < now) then unauthenticated "token expired"
              else if claims.nodeID = "" then unauthenticated "missing node_id in token"
              else .ok ()

def authenticate (a : AuthInterceptor) (env : AuthEnv) (now : Time) (ctx : Context) : Except Failure Unit :=
  if ¬ a.config.enableMTLS ∧ ¬ a.config.enableTokenAuth ∧ ¬ a.apiKeyEnabled then .ok ()
  else if a.config.enableMTLS ∧ a.validateMTLS env now ctx = .ok () then .ok ()
  else if a.config.enableTokenAuth then a.validateToken env now ctx
  else if a.config.enableMTLS then unauthenticated "mTLS authentication required"
  else .ok ()

/-- The handler is called where an authentication returns no error. -/
def decision : Except Failure Unit → Decision
  | .error failure => .reject failure
  | .ok () => .handle

def unaryInterceptor (a : AuthInterceptor) (env : AuthEnv) (now : Time) (ctx : Context) (req : Request)
    (fullMethod : String) : AuthInterceptor × Decision :=
  match if a.apiKeyEnabled then req.credentials else none with
  | some auth => ((a.validateAPIKeyAuth now auth fullMethod).1, decision (a.validateAPIKeyAuth now auth fullMethod).2)
  | none => (a, decision (a.authenticate env now ctx))

def streamInterceptor (a : AuthInterceptor) (env : AuthEnv) (now : Time) (ctx : Context) : Decision :=
  decision (a.authenticate env now ctx)

/-! ### What the gate should do -/

/-- The call passed mTLS or a token, by a method that the configuration enables. -/
def PassedStream (a : AuthInterceptor) (env : AuthEnv) (now : Time) (ctx : Context) : Prop :=
  a.config.enableMTLS ∧ a.validateMTLS env now ctx = .ok () ∨
    a.config.enableTokenAuth ∧ a.validateToken env now ctx = .ok ()

instance (a : AuthInterceptor) (env : AuthEnv) (now : Time) (ctx : Context) :
    Decidable (a.PassedStream env now ctx) :=
  inferInstanceAs (Decidable (_ ∨ _))

/-- The request passed a method that the configuration enables. -/
def PassedUnary (a : AuthInterceptor) (env : AuthEnv) (now : Time) (ctx : Context) (req : Request)
    (fullMethod : String) : Prop :=
  (a.config.enableAPIKeyAuth ∧
      ∃ auth, req = some (some auth) ∧ (a.validateAPIKeyAuth now auth fullMethod).2 = .ok ()) ∨
    a.PassedStream env now ctx

def UnaryFailsClosed (a : AuthInterceptor) (env : AuthEnv) (now : Time) (ctx : Context) (req : Request)
    (fullMethod : String) : Prop :=
  (a.unaryInterceptor env now ctx req fullMethod).2 = .handle → a.PassedUnary env now ctx req fullMethod

def StreamFailsClosed (a : AuthInterceptor) (env : AuthEnv) (now : Time) (ctx : Context) : Prop :=
  a.streamInterceptor env now ctx = .handle → a.PassedStream env now ctx

/-! ### What the gate does -/

theorem decision_eq_handle_iff {r : Except Failure Unit} : decision r = .handle ↔ r = .ok () := by
  cases r with
  | error failure => simp [decision]
  | ok => simp [decision]

theorem credentials_eq_some_iff {req : Request} {auth : APIMetadata} :
    req.credentials = some auth ↔ req = some (some auth) ∧ auth.apiKey ≠ "" := by
  unfold Request.credentials
  split
  · rename_i auth'
    split
    · rename_i hempty
      simp only [reduceCtorEq, Option.some.injEq, false_iff, not_and, not_not]
      rintro rfl
      exact hempty
    · rename_i hkey
      simp only [Option.some.injEq, iff_self_and]
      rintro rfl
      exact hkey
  · rename_i hnone
    simp only [reduceCtorEq, false_iff, not_and]
    exact fun hreq => absurd hreq (hnone auth)

theorem apiKeyEnabled_iff {a : AuthInterceptor} :
    a.apiKeyEnabled = true ↔ a.config.enableAPIKeyAuth ∧ a.config.apiKeys.entries ≠ [] := by
  rw [a.apiKeyEnabled_eq, Bool.and_eq_true_iff, Bool.not_eq_true', List.isEmpty_eq_false_iff]

/-- `authenticate` lets a call pass that passes mTLS or a token, and every call if neither is enabled. -/
theorem authenticate_eq_ok_iff {a : AuthInterceptor} {env : AuthEnv} {now : Time} {ctx : Context} :
    a.authenticate env now ctx = .ok () ↔
      a.PassedStream env now ctx ∨ ¬ (a.config.enableMTLS ∨ a.config.enableTokenAuth) := by
  unfold authenticate PassedStream
  cases hmtls : a.config.enableMTLS <;> cases htoken : a.config.enableTokenAuth
  · simp
  · simp
  · by_cases h : a.validateMTLS env now ctx = .ok () <;> simp [h, unauthenticated]
  · by_cases h : a.validateMTLS env now ctx = .ok () <;> simp [h]

/-- Only a request with an API key can pass, and only if API keys are enabled and there are some. -/
theorem validateAPIKeyAuth_ok {a : AuthInterceptor} {now : Time} {auth : APIMetadata} {method : String}
    (h : (a.validateAPIKeyAuth now auth method).2 = .ok ()) : auth.apiKey ≠ "" ∧ a.apiKeyEnabled = true := by
  have hpasses := passes_of_ok h
  refine ⟨hpasses.apiKey, ?_⟩
  rw [← a.keyStore_isSome, Option.isSome_iff_ne_none]
  intro hstore
  exact hpasses.secret (by rw [secretOf, hstore])

theorem streamFailsClosed_iff {a : AuthInterceptor} {env : AuthEnv} {now : Time} {ctx : Context} :
    a.StreamFailsClosed env now ctx ↔ a.config.enableMTLS ∨ a.config.enableTokenAuth := by
  unfold StreamFailsClosed streamInterceptor
  rw [decision_eq_handle_iff, authenticate_eq_ok_iff]
  constructor
  · intro h
    by_contra hneither
    rcases h (.inr hneither) with ⟨hmtls, -⟩ | ⟨htoken, -⟩
    · exact hneither (.inl hmtls)
    · exact hneither (.inr htoken)
  · rintro henabled (hpassed | hneither)
    · exact hpassed
    · exact absurd henabled hneither

theorem unaryFailsClosed_of_credentials {a : AuthInterceptor} {env : AuthEnv} {now : Time} {ctx : Context}
    {req : Request} {fullMethod : String} {auth : APIMetadata} (henabled : a.apiKeyEnabled = true)
    (hreq : req.credentials = some auth) : a.UnaryFailsClosed env now ctx req fullMethod := by
  intro hhandle
  simp only [unaryInterceptor, henabled, hreq, if_true, decision_eq_handle_iff] at hhandle
  exact .inl ⟨(apiKeyEnabled_iff.1 henabled).1, auth, (credentials_eq_some_iff.1 hreq).1, hhandle⟩

/-- A request that is not decided by its API key is decided as a stream is, and cannot pass by an API key. -/
theorem unaryFailsClosed_iff_of_none {a : AuthInterceptor} {env : AuthEnv} {now : Time} {ctx : Context}
    {req : Request} {fullMethod : String} (h : (if a.apiKeyEnabled then req.credentials else none) = none) :
    a.UnaryFailsClosed env now ctx req fullMethod ↔ a.StreamFailsClosed env now ctx := by
  have hpassed : a.PassedUnary env now ctx req fullMethod ↔ a.PassedStream env now ctx := by
    refine ⟨?_, .inr⟩
    rintro (⟨-, auth, rfl, hok⟩ | hstream)
    · obtain ⟨hkey, henabled⟩ := validateAPIKeyAuth_ok hok
      rw [if_pos henabled, credentials_eq_some_iff.2 ⟨rfl, hkey⟩] at h
      cases h
    · exact hstream
  unfold UnaryFailsClosed StreamFailsClosed streamInterceptor
  simp only [unaryInterceptor, h, hpassed]

/-- When the gate fails closed: always with mTLS or tokens; without them never for a stream, and for a unary request
exactly if API keys are enabled, there are some, and the request carries one. -/
theorem failsClosed_iff (a : AuthInterceptor) (env : AuthEnv) (now : Time) (ctx : Context) (req : Request)
    (fullMethod : String) :
    (a.UnaryFailsClosed env now ctx req fullMethod ↔
      a.config.enableMTLS ∨ a.config.enableTokenAuth ∨
        a.config.enableAPIKeyAuth ∧ a.config.apiKeys.entries ≠ [] ∧
          ∃ auth, req = some (some auth) ∧ auth.apiKey ≠ "") ∧
    (a.StreamFailsClosed env now ctx ↔ a.config.enableMTLS ∨ a.config.enableTokenAuth) := by
  refine ⟨?_, streamFailsClosed_iff⟩
  rw [← and_assoc, ← apiKeyEnabled_iff, ← or_assoc]
  simp only [← credentials_eq_some_iff]
  cases hreq : if a.apiKeyEnabled then req.credentials else none with
  | some auth =>
    split at hreq
    · rename_i henabled
      exact iff_of_true (unaryFailsClosed_of_credentials henabled hreq) (.inr ⟨henabled, auth, hreq⟩)
    · cases hreq
  | none =>
    rw [unaryFailsClosed_iff_of_none hreq, streamFailsClosed_iff, iff_self_or]
    rintro ⟨henabled, auth, hauth⟩
    rw [if_pos henabled, hauth] at hreq
    cases hreq

/-! ### A call without credentials -/

/-- Nothing is known of the peer, and nothing was sent with the request. -/
def anonymous : Context := { peer := none, incoming := none }

/-- A server with API keys only calls the handlers of a request without credentials and of every stream. -/
theorem gate_open_keyInterceptor :
    keyInterceptor.config.enableAPIKeyAuth = true ∧
      (keyInterceptor.unaryInterceptor offlineEnv 0 anonymous none "/m").2 = .handle ∧
      ¬ keyInterceptor.UnaryFailsClosed offlineEnv 0 anonymous none "/m" ∧
      keyInterceptor.streamInterceptor offlineEnv 0 anonymous = .handle ∧
      ¬ keyInterceptor.StreamFailsClosed offlineEnv 0 anonymous := by
  have hstream : ¬ keyInterceptor.PassedStream offlineEnv 0 anonymous := by decide
  refine ⟨rfl, rfl, ?_, rfl, fun h => hstream (h rfl)⟩
  intro h
  rcases h rfl with ⟨-, auth, hauth, -⟩ | hpassed
  · cases hauth
  · exact hstream hpassed

end AuthInterceptor

end DistributedBloomFilter
