import DistributedBloomFilter.Basic
import DistributedBloomFilter.Lib.AesGcm
import DistributedBloomFilter.Lib.BigEndian
import DistributedBloomFilter.Lib.Run
import Mathlib.Logic.Function.Basic

/-!
# Encrypted records and their keys

`WALEncryptor` of `internal/wal/encryptor.go`.  A record carries its length, the version of its key, a nonce and the
sealed text; `Decrypt` looks the version up in `keyCache`.  Two sources number the keys: `RotateKey` counts up from
the current version, `RefreshKey` takes the number its loader gives.  A record stays readable as long as neither of
them puts another key under its version.  Random bytes, clock readings and what the loader returns are arguments.
-/

namespace DistributedBloomFilter

open BigEndian (putUint32 uint32)
open Run (exec Admits)

/-- Five minutes. -/
def KeyCacheDuration : Int := 5 * 60 * 1000000000

/-- The current key is always in the cache, under the current version. -/
structure WALEncryptor where
  currentKey : Bytes
  keyVersion : UInt32
  keyCache : UInt32 → Option Bytes
  keyCacheTime : Time
  hasLoader : Bool
  cached : keyCache keyVersion = some currentKey

/-- `aes.NewCipher`: the error for a key of another size than 16, 24 or 32 bytes. -/
def newCipher (key : Bytes) : Option String :=
  if key.length = 16 ∨ key.length = 24 ∨ key.length = 32 then none
  else some ("crypto/aes: invalid key size " ++ toString key.length)

/-- The format of a record; the conversion of the length to `uint32` wraps. -/
def formatRecord (version : UInt32) (ciphertext : Bytes) : Bytes :=
  putUint32 (UInt32.ofNat (4 + ciphertext.length)) ++ putUint32 version ++ ciphertext

/-- `NewWALEncryptor` with what the loader returned, if a secret path is given, or else with a random key. -/
def newWALEncryptor (loaded : Option (Except String (Bytes × UInt32))) (rand : Except String (BytesN 32))
    (now : Time) : Except String WALEncryptor :=
  match loaded with
  | some (.error err) => .error ("failed to load initial key: " ++ err)
  | some (.ok (key, version)) => .ok
      { currentKey := key, keyVersion := version, keyCache := Function.update (fun _ => none) version (some key),
        keyCacheTime := now, hasLoader := true, cached := Function.update_self .. }
  | none =>
    match rand with
    | .error err => .error ("failed to generate random key: " ++ err)
    | .ok key => .ok
        { currentKey := key, keyVersion := 1, keyCache := Function.update (fun _ => none) 1 (some key),
          keyCacheTime := now, hasLoader := false, cached := Function.update_self .. }

namespace WALEncryptor

/-- The four assignments that install a key. -/
def setKey (e : WALEncryptor) (key : Bytes) (version : UInt32) (now : Time) : WALEncryptor where
  currentKey := key
  keyVersion := version
  keyCache := Function.update e.keyCache version (some key)
  keyCacheTime := now
  hasLoader := e.hasLoader
  cached := Function.update_self ..

/-- `RefreshKey`, with the clock at its two readings and what `LoadKey` returns if it is called. -/
def refreshKey (e : WALEncryptor) (now later : Time) (loaded : Except String (Bytes × UInt32)) :
    WALEncryptor × Option String :=
  if now - e.keyCacheTime < KeyCacheDuration then (e, none)
  else if e.hasLoader then
    match loaded with
    | .error err => (e, some err)
    | .ok (key, version) => (e.setKey key version later, none)
  else (e, none)

def getKeyByVersion (e : WALEncryptor) (version : UInt32) : Except String Bytes :=
  match e.keyCache version with
  | some key => .ok key
  | none => .error ("key version " ++ toString version.toNat ++ " not found")

/-- `RotateKey`; the version counts modulo `2 ^ 32`. -/
def rotateKey (e : WALEncryptor) (now : Time) (rand : Except String (BytesN 32)) : WALEncryptor × Option String :=
  match rand with
  | .error err => (e, some ("failed to generate new key: " ++ err))
  | .ok newKey => (e.setKey newKey (e.keyVersion + 1) now, none)

variable (aead : Aead)

def encrypt (e : WALEncryptor) (rand : Except String (BytesN 12)) (plaintext : Bytes) : Except String Bytes :=
  match newCipher e.currentKey with
  | some err => .error ("failed to create cipher: " ++ err)
  | none =>
    match rand with
    | .error err => .error ("failed to generate nonce: " ++ err)
    | .ok nonce => .ok (formatRecord e.keyVersion (nonce ++ aead.sealMsg e.currentKey nonce plaintext))

def decrypt (e : WALEncryptor) (ciphertext : Bytes) : Except Failure Bytes :=
  if ciphertext.length < 8 then .error (.error "ciphertext too short")
  else
    match e.getKeyByVersion (uint32 (ciphertext.drop 4)) with
    | .error err => .error (.error err)
    | .ok key =>
      match newCipher key with
      | some err => .error (.error ("failed to create cipher: " ++ err))
      | none =>
        let data := ciphertext.drop 8
        let cipherLen : Int := (uint32 ciphertext).toNat - 4
        if data.length < cipherLen then .error (.error "ciphertext too short")
        -- one of the slices `data[:nonceSize]` and `data[nonceSize:cipherLen]` is out of range
        else if cipherLen < 12 then .error (.panic "slice bounds out of range")
        else
          match aead.openMsg key (data.take 12) ((data.take cipherLen.toNat).drop 12) with
          | none => .error (.error "failed to decrypt: cipher: message authentication failed")
          | some plaintext => .ok plaintext

end WALEncryptor

/-! ### A sealed record decrypts as long as its version keeps its key -/

variable {aead : Aead}

variable (aead) in
/-- The record `r` is `p` sealed under `key`, with the number `version` for the key. -/
def Seals (key : Bytes) (version : UInt32) (p r : Bytes) : Prop :=
  newCipher key = none ∧ ∃ nonce : BytesN 12, r = formatRecord version (nonce ++ aead.sealMsg key nonce p)

theorem length_formatRecord (version : UInt32) (c : Bytes) : (formatRecord version c).length = 8 + c.length := by
  simp [formatRecord]; omega

theorem uint32_formatRecord (version : UInt32) (c rest : Bytes) :
    uint32 (formatRecord version c ++ rest) = UInt32.ofNat (4 + c.length) := by
  simp only [formatRecord, List.append_assoc, BigEndian.uint32_putUint32]

theorem drop_four_formatRecord (version : UInt32) (c : Bytes) :
    (formatRecord version c).drop 4 = putUint32 version ++ c := by
  rw [formatRecord, List.append_assoc]
  exact List.drop_left' (BigEndian.length_putUint32 _)

theorem Seals.version {key : Bytes} {version : UInt32} {p r : Bytes} (h : Seals aead key version p r) :
    uint32 (r.drop 4) = version := by
  obtain ⟨-, nonce, rfl⟩ := h
  rw [drop_four_formatRecord, BigEndian.uint32_putUint32]

theorem drop_eight_formatRecord (version : UInt32) (c : Bytes) : (formatRecord version c).drop 8 = c := by
  have h : (formatRecord version c).drop 8 = ((formatRecord version c).drop 4).drop 4 := by rw [List.drop_drop]
  rw [h, drop_four_formatRecord]
  exact List.drop_left' (BigEndian.length_putUint32 _)

/-- `Decrypt` opens the sealed text of a record with the key its version has. -/
theorem WALEncryptor.decrypt_formatRecord {e : WALEncryptor} {version : UInt32} {key : Bytes}
    (hkey : e.keyCache version = some key) (hcipher : newCipher key = none) (nonce : BytesN 12) {c : Bytes}
    (hc : c.length + 16 < 2 ^ 32) :
    e.decrypt aead (formatRecord version (nonce ++ c)) =
      match aead.openMsg key nonce c with
      | none => .error (.error "failed to decrypt: cipher: message authentication failed")
      | some plaintext => .ok plaintext := by
  have hnonce := nonce.2
  have hdata : (↑nonce ++ c).length = 12 + c.length := by rw [List.length_append, hnonce]
  have hversion : e.getKeyByVersion (uint32 ((formatRecord version (↑nonce ++ c)).drop 4)) = .ok key := by
    rw [drop_four_formatRecord, BigEndian.uint32_putUint32, getKeyByVersion, hkey]
  have hfield := uint32_formatRecord version (↑nonce ++ c) []
  rw [List.append_nil, hdata] at hfield
  unfold decrypt
  rw [if_neg (by rw [length_formatRecord]; omega)]
  simp only [hversion, hcipher, drop_eight_formatRecord, hfield]
  -- the announced length is that of the nonce and the sealed text
  obtain hlen : ((UInt32.ofNat (4 + (12 + c.length))).toNat : Int) - 4 = (12 + c.length : Nat) := by
    rw [UInt32.toNat_ofNat_of_lt' (by rw [UInt32.size]; omega)]; omega
  rw [hlen, hdata, if_neg (by omega), if_neg (by omega), Int.toNat_natCast, ← hdata, List.take_length,
    List.take_left' hnonce, List.drop_left' hnonce]

namespace Seals

variable {key : Bytes} {version : UInt32} {p r : Bytes}

theorem of_encrypt {e : WALEncryptor} {rand : Except String (BytesN 12)} (h : e.encrypt aead rand p = .ok r) :
    Seals aead e.currentKey e.keyVersion p r := by
  unfold WALEncryptor.encrypt at h
  split at h
  · cases h
  · rename_i hkey
    split at h
    · cases h
    · rename_i nonce
      exact ⟨hkey, nonce, (Except.ok.inj h).symm⟩

theorem length_eq (h : Seals aead key version p r) : r.length = p.length + 36 := by
  obtain ⟨_, nonce, rfl⟩ := h
  rw [length_formatRecord, List.length_append, aead.length_sealMsg, nonce.2]
  omega

/-- The length field of a record counts what follows it. -/
theorem toNat_uint32 (h : Seals aead key version p r) (hp : p.length + 32 < 2 ^ 32) (rest : Bytes) :
    4 + (uint32 (r ++ rest)).toNat = r.length := by
  have hlen := h.length_eq
  obtain ⟨_, nonce, rfl⟩ := h
  rw [length_formatRecord] at hlen
  rw [uint32_formatRecord, length_formatRecord, UInt32.toNat_ofNat_of_lt' (by rw [UInt32.size]; omega)]
  omega

theorem decrypt (h : Seals aead key version p r) (hp : p.length + 32 < 2 ^ 32) {e : WALEncryptor}
    (hkey : e.keyCache version = some key) : e.decrypt aead r = .ok p := by
  obtain ⟨hcipher, nonce, rfl⟩ := h
  have hlen : (aead.sealMsg key nonce p).length + 16 < 2 ^ 32 := by rw [aead.length_sealMsg]; omega
  rw [WALEncryptor.decrypt_formatRecord hkey hcipher nonce hlen, aead.openMsg_sealMsg]

end Seals

/-! ### Arbitrary input -/

namespace WALEncryptor

/-- The key of the version that the input names, if there is one and a cipher can be made of it. -/
def usableKey (e : WALEncryptor) (c : Bytes) : Option Bytes :=
  (e.keyCache (uint32 (c.drop 4))).filter fun key => newCipher key = none

/-- The announced text is there but too short for a nonce, and there is a key for it: the slices of `Decrypt` are out
of range. -/
def OutOfRange (e : WALEncryptor) (c : Bytes) : Prop :=
  8 ≤ c.length ∧ (uint32 c).toNat + 4 ≤ c.length ∧ (uint32 c).toNat < 16 ∧ e.usableKey c ≠ none

variable (aead) in
/-- The announced text is there, holds a nonce, and is authentic under its key. -/
def Opens (e : WALEncryptor) (c p : Bytes) : Prop :=
  (uint32 c).toNat + 4 ≤ c.length ∧ 16 ≤ (uint32 c).toNat ∧
    ∃ key ∈ e.usableKey c,
      aead.openMsg key ((c.drop 8).take 12) (((c.drop 8).take ((uint32 c).toNat - 4)).drop 12) = some p

variable {e : WALEncryptor} {c : Bytes}

private theorem decrypt_of_usableKey_none (hkey : e.usableKey c = none) :
    ∃ msg, e.decrypt aead c = .error (.error msg) := by
  unfold decrypt getKeyByVersion
  split
  · exact ⟨_, rfl⟩
  · unfold usableKey at hkey
    cases hcache : e.keyCache (uint32 (c.drop 4)) with
    | none => exact ⟨_, rfl⟩
    | some key =>
      rw [hcache, Option.filter_eq_none_iff] at hkey
      have hne : newCipher key ≠ none := by simpa using hkey key rfl
      obtain ⟨err, herr⟩ := Option.ne_none_iff_exists'.1 hne
      simp only [herr]
      exact ⟨_, rfl⟩

private theorem decrypt_of_usableKey {key : Bytes} (hlen : 8 ≤ c.length) (hkey : e.usableKey c = some key) :
    e.decrypt aead c =
      if c.length < (uint32 c).toNat + 4 then .error (.error "ciphertext too short")
      else if (uint32 c).toNat < 16 then .error (.panic "slice bounds out of range")
      else
        match aead.openMsg key ((c.drop 8).take 12) (((c.drop 8).take ((uint32 c).toNat - 4)).drop 12) with
        | none => .error (.error "failed to decrypt: cipher: message authentication failed")
        | some plaintext => .ok plaintext := by
  obtain ⟨hcache, hcipher⟩ := Option.filter_eq_some_iff.1 hkey
  have hcipher : newCipher key = none := by simpa using hcipher
  have hthere : ((c.drop 8).length : Int) < ((uint32 c).toNat : Int) - 4 ↔ c.length < (uint32 c).toNat + 4 := by
    rw [List.length_drop]
    omega
  have hnonce : ((uint32 c).toNat : Int) - 4 < 12 ↔ (uint32 c).toNat < 16 := by omega
  have hcut : (((uint32 c).toNat : Int) - 4).toNat = (uint32 c).toNat - 4 := by omega
  unfold decrypt getKeyByVersion
  rw [if_neg (Nat.not_lt.2 hlen), hcache]
  simp only [hcipher, hthere, hnonce, hcut]

variable (aead) in
/-- Everything `Decrypt` can do. -/
theorem decrypt_cases (e : WALEncryptor) (c : Bytes) :
    (e.OutOfRange c ∧ ∃ msg, e.decrypt aead c = .error (.panic msg)) ∨
    (¬ e.OutOfRange c ∧ ∃ p, e.Opens aead c p ∧ e.decrypt aead c = .ok p) ∨
    (¬ e.OutOfRange c ∧ (∀ p, ¬ e.Opens aead c p) ∧ ∃ msg, e.decrypt aead c = .error (.error msg)) := by
  by_cases hlen : 8 ≤ c.length
  · cases hkey : e.usableKey c with
    | none =>
      refine .inr (.inr ⟨fun h => h.2.2.2 hkey, fun p h => ?_, decrypt_of_usableKey_none hkey⟩)
      obtain ⟨key, hmem, -⟩ := h.2.2
      rw [hkey] at hmem
      cases hmem
    | some key =>
      rw [decrypt_of_usableKey hlen hkey]
      split
      · rename_i hshort
        exact .inr (.inr ⟨fun h => Nat.not_le.2 hshort h.2.1, fun p h => Nat.not_le.2 hshort h.1, _, rfl⟩)
      · rename_i hthere
        split
        · rename_i hnonce
          exact .inl ⟨⟨hlen, Nat.not_lt.1 hthere, hnonce, by rw [hkey]; simp⟩, _, rfl⟩
        · rename_i hnonce
          refine .inr ?_
          cases hopen : aead.openMsg key ((c.drop 8).take 12) (((c.drop 8).take ((uint32 c).toNat - 4)).drop 12) with
          | some p =>
            exact .inl ⟨fun h => hnonce h.2.2.1, p, ⟨Nat.not_lt.1 hthere, Nat.not_lt.1 hnonce, key, hkey, hopen⟩, rfl⟩
          | none =>
            refine .inr ⟨fun h => hnonce h.2.2.1, fun p h => ?_, _, rfl⟩
            obtain ⟨key', hmem, hopen'⟩ := h.2.2
            obtain rfl := Option.some.inj (hkey.symm.trans hmem)
            rw [hopen] at hopen'
            cases hopen'
  · have hshort : e.decrypt aead c = .error (.error "ciphertext too short") := if_pos (Nat.not_le.1 hlen)
    have hfield : ∀ p, ¬ e.Opens aead c p := by
      intro p h
      have := h.1
      have := h.2.1
      omega
    exact .inr (.inr ⟨fun h => hlen h.1, hfield, _, hshort⟩)

variable (aead) in
theorem decrypt_panic_iff_outOfRange : (∃ msg, e.decrypt aead c = .error (.panic msg)) ↔ e.OutOfRange c := by
  rcases decrypt_cases aead e c with ⟨hout, hpanic⟩ | ⟨hout, p, -, hok⟩ | ⟨hout, -, msg, herr⟩
  · exact ⟨fun _ => hout, fun _ => hpanic⟩
  · refine ⟨fun ⟨msg, hmsg⟩ => ?_, fun h => absurd h hout⟩
    rw [hok] at hmsg
    cases hmsg
  · refine ⟨fun ⟨msg', hmsg⟩ => ?_, fun h => absurd h hout⟩
    rw [herr] at hmsg
    cases hmsg

end WALEncryptor

/-! ### Runs of an encryptor -/

/-- A record that was encrypted in the run. -/
structure Issued where
  key : Bytes
  version : UInt32
  plaintext : Bytes
  record : Bytes
deriving DecidableEq

/-- An encryptor and the records it has made. -/
structure KeyRun where
  enc : WALEncryptor
  issued : List Issued

namespace KeyRun

inductive Event where
  | encrypt (rand : Except String (BytesN 12)) (plaintext : Bytes)
  | rotateKey (now : Time) (rand : Except String (BytesN 32))
  | refreshKey (now later : Time) (loaded : Except String (Bytes × UInt32))

def start (e : WALEncryptor) : KeyRun := { enc := e, issued := [] }

variable (aead) in
def step (s : KeyRun) : Event → KeyRun
  | .encrypt rand plaintext =>
    match s.enc.encrypt aead rand plaintext with
    | .error _ => s
    | .ok record =>
      { s with issued := s.issued ++ [⟨s.enc.currentKey, s.enc.keyVersion, plaintext, record⟩] }
  | .rotateKey now rand => { s with enc := (s.enc.rotateKey now rand).1 }
  | .refreshKey now later loaded => { s with enc := (s.enc.refreshKey now later loaded).1 }

/-- No record is sealed under this version with another key. -/
def Unused (s : KeyRun) (version : UInt32) (key : Bytes) : Prop := ∀ r ∈ s.issued, r.version = version → r.key = key

instance (s : KeyRun) (version : UInt32) (key : Bytes) : Decidable (s.Unused version key) :=
  inferInstanceAs (Decidable (∀ r ∈ s.issued, _))

/-- The length of a plaintext fits the format, and a key is installed only under a version that no record has with
another key. -/
def VersionFree (s : KeyRun) : Event → Prop
  | .encrypt _ plaintext => plaintext.length + 32 < 2 ^ 32
  | .rotateKey _ rand => ∀ newKey ∈ rand.toOption, s.Unused (s.enc.keyVersion + 1) newKey.1
  | .refreshKey now _ loaded =>
    KeyCacheDuration ≤ now - s.enc.keyCacheTime → s.enc.hasLoader = true →
      ∀ l ∈ loaded.toOption, s.Unused l.2 l.1

instance : ∀ (s : KeyRun) (e : Event), Decidable (s.VersionFree e)
  | _, .encrypt _ plaintext => inferInstanceAs (Decidable (plaintext.length + 32 < 2 ^ 32))
  | s, .rotateKey _ rand => inferInstanceAs (Decidable
      (∀ newKey ∈ rand.toOption, s.Unused (s.enc.keyVersion + 1) newKey.1))
  | s, .refreshKey now _ loaded => inferInstanceAs (Decidable
      (KeyCacheDuration ≤ now - s.enc.keyCacheTime → s.enc.hasLoader = true →
        ∀ l ∈ loaded.toOption, s.Unused l.2 l.1))

variable (aead) in
/-- Every record of the run is sealed under the key its version has in the cache. -/
def Inv (s : KeyRun) : Prop :=
  ∀ r ∈ s.issued, Seals aead r.key r.version r.plaintext r.record ∧ r.plaintext.length + 32 < 2 ^ 32 ∧
    s.enc.keyCache r.version = some r.key

end KeyRun

/-- A new key leaves a binding alone that has another version or the same key. -/
theorem WALEncryptor.keyCache_setKey {e : WALEncryptor} {key : Bytes} {version : UInt32} (now : Time) {v : UInt32}
    {k : Bytes} (hsame : v = version → k = key) (hv : e.keyCache v = some k) :
    (e.setKey key version now).keyCache v = some k := by
  show Function.update e.keyCache version (some key) v = some k
  rw [Function.update_apply]
  split
  · rename_i heq
    rw [hsame heq]
  · exact hv

theorem WALEncryptor.keyCache_rotateKey {e : WALEncryptor} (now : Time) {rand : Except String (BytesN 32)}
    {v : UInt32}
    {k : Bytes} (hsame : ∀ newKey ∈ rand.toOption, v = e.keyVersion + 1 → k = newKey.1) (hv : e.keyCache v = some k) :
    (e.rotateKey now rand).1.keyCache v = some k := by
  cases rand with
  | error err => exact hv
  | ok newKey => exact keyCache_setKey now (hsame newKey rfl) hv

/-- A number of rotations to one key. -/
def WALEncryptor.rotateTimes (e : WALEncryptor) (now : Time) (newKey : BytesN 32) : Nat → WALEncryptor
  | 0 => e
  | n + 1 => ((e.rotateTimes now newKey n).rotateKey now (.ok newKey)).1

theorem WALEncryptor.keyVersion_rotateTimes (e : WALEncryptor) (now : Time) (newKey : BytesN 32) (n : Nat) :
    (e.rotateTimes now newKey n).keyVersion = e.keyVersion + UInt32.ofNat n := by
  induction n with
  | zero => exact (UInt32.add_zero _).symm
  | succ n ih =>
    show (e.rotateTimes now newKey n).keyVersion + 1 = _
    rw [ih, UInt32.add_assoc, UInt32.ofNat_add]
    rfl

/-- The versions that the rotations went through have the new key; after `2 ^ 32` of them that is every version. -/
theorem WALEncryptor.keyCache_rotateTimes (e : WALEncryptor) (now : Time) (newKey : BytesN 32) {n i : Nat}
    (hi : 1 ≤ i) (hn : i ≤ n) :
    (e.rotateTimes now newKey n).keyCache (e.keyVersion + UInt32.ofNat i) = some newKey.1 := by
  induction n with
  | zero => omega
  | succ n ih =>
    show Function.update (e.rotateTimes now newKey n).keyCache ((e.rotateTimes now newKey n).keyVersion + 1)
      (some newKey.1) _ = _
    rw [Function.update_apply]
    split
    · rfl
    · rename_i hne
      refine ih (Nat.le_of_lt_succ (Nat.lt_of_le_of_ne hn fun heq => hne ?_))
      rw [keyVersion_rotateTimes, heq, UInt32.add_assoc, Nat.succ_eq_add_one, UInt32.ofNat_add]
      rfl

namespace KeyRun

theorem keyCache_refreshKey {s : KeyRun} {now later : Time} {loaded : Except String (Bytes × UInt32)}
    (h : s.VersionFree (.refreshKey now later loaded)) {r : Issued} (hr : r ∈ s.issued)
    (hv : s.enc.keyCache r.version = some r.key) :
    (s.enc.refreshKey now later loaded).1.keyCache r.version = some r.key := by
  unfold WALEncryptor.refreshKey
  split
  · exact hv
  · rename_i hexpired
    split
    · rename_i hloader
      cases loaded with
      | error err => exact hv
      | ok l => exact WALEncryptor.keyCache_setKey later (h (Int.not_lt.1 hexpired) hloader l rfl r hr) hv
    · exact hv

theorem inv_step (s : KeyRun) (e : Event) (h : s.Inv aead) (hfree : s.VersionFree e) : (s.step aead e).Inv aead := by
  cases e with
  | encrypt rand plaintext =>
    simp only [step]
    cases henc : s.enc.encrypt aead rand plaintext with
    | error err => exact h
    | ok record =>
      intro r hr
      rcases List.mem_append.1 hr with hr | hr
      · exact h r hr
      · obtain rfl := List.mem_singleton.1 hr
        exact ⟨Seals.of_encrypt henc, hfree, s.enc.cached⟩
  | rotateKey now rand =>
    intro r hr
    obtain ⟨hseals, hlen, hkey⟩ := h r hr
    exact ⟨hseals, hlen, WALEncryptor.keyCache_rotateKey now (fun newKey hnew => hfree newKey hnew r hr) hkey⟩
  | refreshKey now later loaded =>
    intro r hr
    obtain ⟨hseals, hlen, hkey⟩ := h r hr
    exact ⟨hseals, hlen, keyCache_refreshKey hfree hr hkey⟩

/-- In every run whose plaintexts fit the format and whose keys are all installed under versions that no record has
with another key, every record decrypts at every later point, and its version still has the key it was sealed
under. -/
theorem decrypt_issued (e : WALEncryptor) {es : List Event}
    (hes : Admits (step aead) VersionFree (start e) es) :
    ∀ r ∈ (exec (step aead) (start e) es).issued,
      (exec (step aead) (start e) es).enc.decrypt aead r.record = .ok r.plaintext ∧
      (exec (step aead) (start e) es).enc.keyCache r.version = some r.key := by
  have hstart : (start e).Inv aead := fun r hr => absurd hr List.not_mem_nil
  intro r hr
  obtain ⟨hseals, hlen, hkey⟩ := Run.invariant inv_step hstart hes r hr
  exact ⟨hseals.decrypt hlen hkey, hkey⟩

/-! ### A rotation after a refresh -/

/-- The encryptor of a server whose secret holds the key of zeros as version 1. -/
def secretEncryptor : WALEncryptor where
  currentKey := List.replicate 32 0
  keyVersion := 1
  keyCache := Function.update (fun _ => none) 1 (some (List.replicate 32 0))
  keyCacheTime := 0
  hasLoader := true
  cached := Function.update_self ..

/-- The secret does not change: version 1 is loaded whenever it is read. -/
def secret : Except String (Bytes × UInt32) := .ok (List.replicate 32 0, 1)

def randomKey (b : UInt8) : Except String (BytesN 32) := .ok ⟨List.replicate 32 b, List.length_replicate⟩

def randomNonce : Except String (BytesN 12) := .ok ⟨List.replicate 12 7, List.length_replicate⟩

example : newWALEncryptor (some secret) (randomKey 0) 0 = .ok secretEncryptor := rfl

/-- One record before and one after a rotation; the refresh comes before the cache has expired. -/
def rotatedEvents : List Event :=
  [.encrypt randomNonce [97], .rotateKey 60 (randomKey 2), .refreshKey 70 70 secret, .encrypt randomNonce [98]]

theorem decrypt_issued_rotated :
    (exec (step AesGcm.aead) (start secretEncryptor) rotatedEvents).issued.length = 2 ∧
    ∀ r ∈ (exec (step AesGcm.aead) (start secretEncryptor) rotatedEvents).issued,
      (exec (step AesGcm.aead) (start secretEncryptor) rotatedEvents).enc.decrypt AesGcm.aead r.record =
        .ok r.plaintext ∧
      (exec (step AesGcm.aead) (start secretEncryptor) rotatedEvents).enc.keyCache r.version = some r.key :=
  ⟨by decide +kernel, decrypt_issued secretEncryptor (by decide +kernel)⟩

/-- A rotation makes version 2, a refresh five minutes later goes back to version 1, and the next rotation makes
version 2 again. -/
def reboundRun : KeyRun :=
  exec (step AesGcm.aead) (start secretEncryptor)
    [.rotateKey 60 (randomKey 2), .encrypt randomNonce [97],
     .refreshKey (60 + KeyCacheDuration) (60 + KeyCacheDuration) secret,
     .rotateKey (120 + KeyCacheDuration) (randomKey 3)]

/-- The record of the run is sealed under version 2, which has another key at its end. -/
theorem decrypt_rebound :
    reboundRun.issued.map (fun r => (r.version, r.plaintext)) = [(2, [97])] ∧
    reboundRun.issued.map (fun r => reboundRun.enc.decrypt AesGcm.aead r.record) =
      [.error (.error "failed to decrypt: cipher: message authentication failed")] := by
  decide +kernel

end KeyRun

end DistributedBloomFilter
