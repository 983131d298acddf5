import DistributedBloomFilter.Auth.Interceptor

/-!
# What a signature is for

The server, `GenerateAPIKeyToken`, the client library and the gateway sign the same text, the API key, the timestamp
and the method one after another.  Nothing stands between the three, so different requests can have one text: an API
key that ends where the timestamp of another request goes on takes over its first digits.  `message_eq_iff` says
exactly which requests share their text.
-/

namespace DistributedBloomFilter

/-! ### The copies of `computeSignature` -/

/-- `APIKey` and `APISecret` of `ClientConfig` and of the gateway's `Config`. -/
structure Credentials where
  apiKey : String
  apiSecret : String
deriving DecidableEq, Repr

/-- `createAuthMetadata`, with the `computeSignature` of the same receiver. -/
def createAuthMetadata (signature : String → Int64 → String → String → String) (config : Credentials) (now : Time)
    (method : String) : APIMetadata :=
  let timestamp := Int64.ofInt (now / 1000000000)
  { apiKey := config.apiKey
    timestamp := timestamp
    signature := signature config.apiKey timestamp method config.apiSecret }

namespace Client

/-- `computeSignature` of `sdk/client.go`. -/
def computeSignature (apiKey : String) (timestamp : Int64) (method secret : String) : String :=
  let message := apiKey ++ String.ofList (Decimal.print timestamp.toInt) ++ method
  String.ofList (Base64.encode (Sha256.hmac (utf8 secret) (utf8 message)))

def createAuthMetadata : Credentials → Time → String → APIMetadata :=
  DistributedBloomFilter.createAuthMetadata computeSignature

end Client

namespace Gateway

/-- `computeSignature` of `internal/gateway/gateway.go`. -/
def computeSignature (apiKey : String) (timestamp : Int64) (method secret : String) : String :=
  let message := apiKey ++ String.ofList (Decimal.print timestamp.toInt) ++ method
  String.ofList (Base64.encode (Sha256.hmac (utf8 secret) (utf8 message)))

def createAuthMetadata : Credentials → Time → String → APIMetadata :=
  DistributedBloomFilter.createAuthMetadata computeSignature

end Gateway

/-! ### The signed text -/

/-- What is signed. -/
structure SignedRequest where
  apiKey : String
  timestamp : Int64
  method : String
deriving DecidableEq, Repr

/-- Who makes the signature. -/
inductive Signer where
  | server
  | token
  | client
  | gateway
deriving DecidableEq, Repr

namespace SignedRequest

def text (r : SignedRequest) : String := r.apiKey ++ String.ofList (Decimal.print r.timestamp.toInt) ++ r.method

/-- The bytes that the HMAC is computed of. -/
def message (r : SignedRequest) : Bytes := utf8 r.text

/-- The method is a path, as those of gRPC are. -/
def HasPath (r : SignedRequest) : Prop := r.method.toList.head? = some '/'

instance (r : SignedRequest) : Decidable r.HasPath := inferInstanceAs (Decidable (_ = _))

/-- The API key of `y` goes further into the text than that of `x`: by the first characters of the timestamp of `x`,
whose other characters are the timestamp of `y`, or by all of it and the beginning of the method of `x`, the rest of
which is the timestamp and the method of `y`. -/
def Shifted (x y : SignedRequest) : Prop :=
  (∃ chars, chars ≠ [] ∧ y.apiKey = x.apiKey ++ String.ofList chars ∧
      Decimal.print x.timestamp.toInt = chars ++ Decimal.print y.timestamp.toInt ∧ x.method = y.method) ∨
    ∃ path, y.apiKey = x.apiKey ++ String.ofList (Decimal.print x.timestamp.toInt) ++ path ∧
      x.method = path ++ String.ofList (Decimal.print y.timestamp.toInt) ++ y.method

end SignedRequest

/-- The signature of a request, made at the time that its timestamp says. -/
def Signer.sign (secret : String) (r : SignedRequest) : Signer → String
  | server => DistributedBloomFilter.computeSignature r.apiKey r.timestamp r.method secret
  | token => (generateAPIKeyToken (r.timestamp.toInt * 1000000000) r.apiKey secret r.method).signature
  | client => (Client.createAuthMetadata ⟨r.apiKey, secret⟩ (r.timestamp.toInt * 1000000000) r.method).signature
  | gateway => (Gateway.createAuthMetadata ⟨r.apiKey, secret⟩ (r.timestamp.toInt * 1000000000) r.method).signature

/-- Every copy signs the same bytes. -/
theorem Signer.sign_eq (secret : String) (r : SignedRequest) (a : Signer) :
    a.sign secret r = String.ofList (Base64.encode (Sha256.hmac (utf8 secret) r.message)) := by
  have hseconds : Int64.ofInt (r.timestamp.toInt * 1000000000 / 1000000000) = r.timestamp := by
    rw [Int.mul_ediv_cancel _ (by decide), Int64.ofInt_toInt]
  cases a with
  | server => rfl
  | token =>
    rw [sign, generateAPIKeyToken, hseconds]
    rfl
  | client =>
    rw [sign, Client.createAuthMetadata, createAuthMetadata, hseconds]
    rfl
  | gateway =>
    rw [sign, Gateway.createAuthMetadata, createAuthMetadata, hseconds]
    rfl

/-- Two signatures under one secret agree when the HMACs do. -/
theorem Signer.sign_eq_sign_iff (secret : String) (x y : SignedRequest) (a b : Signer) :
    a.sign secret x = b.sign secret y ↔
      Sha256.hmac (utf8 secret) x.message = Sha256.hmac (utf8 secret) y.message := by
  rw [sign_eq, sign_eq]
  constructor
  · intro h
    exact Base64.encode_injective (String.ofList_injective h)
  · intro h
    rw [h]

/-! ### Requests with one text -/

private theorem toList_loop (bs : ByteArray) (i : Nat) (acc : List UInt8) :
    ByteArray.toList.loop bs i acc = acc.reverse ++ bs.data.toList.drop i := by
  fun_induction ByteArray.toList.loop bs i acc with
  | case1 i acc hi ih =>
    have hget : bs.get! i = bs.data.toList[i] := by
      rw [Array.getElem_toList]
      exact getElem!_pos bs.data i hi
    have hdrop := List.drop_eq_getElem_cons (l := bs.data.toList) (i := i) (by simpa using hi)
    rw [ih, hget, hdrop]
    simp
  | case2 i acc hi =>
    rw [List.drop_eq_nil_of_le (by simpa using hi), List.append_nil]

/-- Different texts are different bytes. -/
theorem utf8_inj {s t : String} : utf8 s = utf8 t ↔ s = t := by
  constructor
  · intro h
    rw [utf8, utf8, ByteArray.toList, ByteArray.toList, toList_loop, toList_loop] at h
    have hdata : s.toUTF8 = t.toUTF8 := ByteArray.ext (Array.toList_inj.1 (by simpa using h))
    exact String.toByteArray_inj.1 (by simpa using hdata)
  · rintro rfl
    rfl

namespace SignedRequest

variable {x y : SignedRequest}

/-- The timestamp is not part of a path. -/
theorem slash_not_mem_print (i : Int) : '/' ∉ Decimal.print i := Decimal.not_mem_print rfl (by decide) i

/-- A shorter API key, in requests with one text. -/
private theorem eq_or_shifted {chars : List Char} (hx : x.HasPath) (hy : y.HasPath)
    (hkey : y.apiKey.toList = x.apiKey.toList ++ chars)
    (hrest : Decimal.print x.timestamp.toInt ++ x.method.toList =
      chars ++ (Decimal.print y.timestamp.toInt ++ y.method.toList)) : x = y ∨ x.Shifted y := by
  rcases List.append_eq_append_iff.1 hrest with ⟨path, hchars, hmethod⟩ | ⟨digits, hprint, hmethod⟩
  · -- the key goes past the timestamp
    refine .inr (.inr ⟨String.ofList path, ?_, ?_⟩)
    · apply String.toList_injective
      simp [hkey, hchars]
    · apply String.toList_injective
      simp [hmethod]
  · -- it ends within the timestamp
    obtain ⟨restx, hrestx⟩ := List.head?_eq_some_iff.1 hx
    obtain ⟨resty, hresty⟩ := List.head?_eq_some_iff.1 hy
    have hdigits : '/' ∉ digits := fun h => slash_not_mem_print x.timestamp.toInt (hprint ▸ List.mem_append_right _ h)
    rw [hrestx, hresty] at hmethod
    obtain ⟨rfl, hpaths⟩ := Decimal.append_mark_inj (slash_not_mem_print _) hdigits hmethod
    have hmethods : x.method = y.method := String.toList_injective (by rw [hrestx, hresty, hpaths])
    by_cases hnil : chars = []
    · subst hnil
      have hkeys : x.apiKey = y.apiKey := String.toList_injective (by simpa using hkey.symm)
      have htimes : x.timestamp = y.timestamp := Decimal.print_toInt_inj hprint
      cases x
      cases y
      simp_all
    · exact .inr (.inl ⟨chars, hnil, String.toList_injective (by simp [hkey]), hprint, hmethods⟩)

theorem message_of_shifted (h : x.Shifted y) : x.message = y.message := by
  refine utf8_inj.2 (String.toList_injective ?_)
  rcases h with ⟨chars, -, hkey, hprint, hmethod⟩ | ⟨path, hkey, hmethod⟩
  · simp [text, hkey, hprint, hmethod]
  · simp [text, hkey, hmethod]

theorem message_eq_iff (hx : x.HasPath) (hy : y.HasPath) :
    x.message = y.message ↔ x = y ∨ x.Shifted y ∨ y.Shifted x := by
  constructor
  · intro h
    have htext := congrArg String.toList (utf8_inj.1 h)
    simp only [text, String.toList_append, String.toList_ofList, List.append_assoc] at htext
    rcases List.append_eq_append_iff.1 htext with ⟨chars, hkey, hrest⟩ | ⟨chars, hkey, hrest⟩
    · exact (eq_or_shifted hx hy hkey hrest).imp_right .inl
    · exact (eq_or_shifted hy hx hkey hrest).imp Eq.symm .inr
  · rintro (rfl | h | h)
    · rfl
    · exact message_of_shifted h
    · exact (message_of_shifted h).symm

/-- A request that is shifted has the longer key. -/
theorem length_lt_of_shifted (h : x.Shifted y) : x.apiKey.length < y.apiKey.length := by
  rcases h with ⟨chars, hchars, hkey, -⟩ | ⟨path, hkey, -⟩
  · have hpos := List.length_pos_iff.2 hchars
    simp [hkey]
    omega
  · have hpos := List.length_pos_iff.2 (Decimal.print_ne_nil x.timestamp.toInt)
    simp [hkey]
    omega

/-- Where all keys have one length, every request has a text of its own. -/
theorem message_inj_of_length_eq (hx : x.HasPath) (hy : y.HasPath) (hlen : x.apiKey.length = y.apiKey.length) :
    x.message = y.message ↔ x = y := by
  rw [message_eq_iff hx hy, or_iff_left]
  rintro (h | h)
  · exact (length_lt_of_shifted h).ne hlen
  · exact (length_lt_of_shifted h).ne hlen.symm

/-- Different requests are signed with different bytes unless one is shifted against the other.  A signature of the
one is then valid for the other; otherwise it is only if the HMACs of different bytes agree. -/
theorem message_ne_iff_not_shifted {x y : SignedRequest} (hx : x.HasPath) (hy : y.HasPath) (hne : x ≠ y) :
    (x.message ≠ y.message ↔ ¬ x.Shifted y ∧ ¬ y.Shifted x) ∧
      ∀ (secret : String) (a b : Signer), a.sign secret x = b.sign secret y ↔
        (x.Shifted y ∨ y.Shifted x) ∨ Sha256.Collides (utf8 secret) x.message y.message := by
  have hmessage : x.message = y.message ↔ x.Shifted y ∨ y.Shifted x := by
    rw [message_eq_iff hx hy, or_iff_right hne]
  refine ⟨by rw [ne_eq, hmessage, not_or], fun secret a b => ?_⟩
  rw [Signer.sign_eq_sign_iff, ← hmessage, Sha256.Collides]
  constructor
  · intro h
    exact (em (x.message = y.message)).imp_right fun hdiff => ⟨hdiff, h⟩
  · rintro (h | h)
    · rw [h]
    · exact h.2

/-- The request for `/m` with the key `k` and a timestamp far in the future. -/
def ofShorterKey : SignedRequest := ⟨"k", 11700000000, "/m"⟩

/-- The request for `/m` with the key `k1` in November 2023. -/
def ofLongerKey : SignedRequest := ⟨"k1", 1700000000, "/m"⟩

theorem message_ne_iff_not_shifted_later :
    let later : SignedRequest := ⟨"k1", 1700000001, "/m"⟩
    ofLongerKey.HasPath ∧ later.HasPath ∧ ofLongerKey.message ≠ later.message := by
  refine ⟨by decide, by decide, ?_⟩
  refine (message_ne_iff_not_shifted (by decide) (by decide) (by decide)).1.2 ⟨fun h => ?_, fun h => ?_⟩
  · exact absurd (length_lt_of_shifted h) (by decide)
  · exact absurd (length_lt_of_shifted h) (by decide)

/-- Both are signed with the bytes of `k11700000000/m`. -/
theorem message_ofShorterKey : ofShorterKey.HasPath ∧ ofLongerKey.HasPath ∧ ofShorterKey ≠ ofLongerKey ∧
    ofShorterKey.message = ofLongerKey.message ∧
    ∀ (secret : String) (a b : Signer), a.sign secret ofShorterKey = b.sign secret ofLongerKey := by
  have hmessage : ofShorterKey.message = ofLongerKey.message :=
    message_of_shifted (.inl ⟨['1'], by decide, by decide, by decide, rfl⟩)
  refine ⟨by decide, by decide, by decide, hmessage, fun secret a b => ?_⟩
  rw [Signer.sign_eq_sign_iff, hmessage]

end SignedRequest

end DistributedBloomFilter
