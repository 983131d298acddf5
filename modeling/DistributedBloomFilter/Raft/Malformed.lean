import DistributedBloomFilter.Raft.SnapshotManager
import DistributedBloomFilter.Wal.Corruption

/-!
# Malformed records and files

What `Decrypt`, `readFile` and `LoadSnapshot` do with bytes that nobody encrypted.  `Decrypt` compares the announced
length with what is there, but not with the size of a nonce, so a length below 16 makes it slice out of range
(`WALEncryptor.OutOfRange`), and nothing else does.  `readFile` gets there when every record before such a one opens,
`LoadSnapshot` when such a one follows the checksum; in all other cases they return.
-/

namespace DistributedBloomFilter

open BigEndian (uint32)

/-- The call returns, with a value or with an error. -/
def Returns {α : Type} (r : Except Failure α) : Prop := ∀ msg, r ≠ .error (.panic msg)

theorem returns_decrypt_iff (aead : Aead) {enc : WALEncryptor} {c : Bytes} :
    Returns (enc.decrypt aead c) ↔ ¬ enc.OutOfRange c := by
  rw [← WALEncryptor.decrypt_panic_iff_outOfRange aead, not_exists]
  rfl

/-! ### The records of a file -/

section Records

variable (aead : Aead) (enc : WALEncryptor)

/-- The reader comes to a record whose slices are out of range: all records before it open. -/
def ReachesOutOfRange (records : List Bytes) : Prop :=
  ∃ before r after, records = before ++ r :: after ∧ (∀ b ∈ before, ∃ p, enc.Opens aead b p) ∧ enc.OutOfRange r

variable {aead enc}

theorem not_reachesOutOfRange_nil : ¬ ReachesOutOfRange aead enc [] := by
  rintro ⟨before, r, after, h, -⟩
  simp at h

theorem reachesOutOfRange_cons {r : Bytes} {records : List Bytes} :
    ReachesOutOfRange aead enc (r :: records) ↔
      enc.OutOfRange r ∨ (∃ p, enc.Opens aead r p) ∧ ReachesOutOfRange aead enc records := by
  constructor
  · rintro ⟨before, r', after, h, hopens, hout⟩
    cases before with
    | nil =>
      obtain ⟨rfl, -⟩ := List.cons.inj h
      exact .inl hout
    | cons b before =>
      obtain ⟨rfl, rfl⟩ := List.cons.inj h
      obtain ⟨hb, hbefore⟩ := List.forall_mem_cons.1 hopens
      exact .inr ⟨hb, before, r', after, rfl, hbefore, hout⟩
  · rintro (hout | ⟨hr, before, r', after, rfl, hopens, hout⟩)
    · exact ⟨[], r, records, rfl, fun b hb => absurd hb List.not_mem_nil, hout⟩
    · exact ⟨r :: before, r', after, rfl, List.forall_mem_cons.2 ⟨hr, hopens⟩, hout⟩

theorem returns_decryptFrames_iff (records : List Bytes) :
    Returns (decryptFrames aead enc records) ↔ ¬ ReachesOutOfRange aead enc records := by
  induction records with
  | nil => exact iff_of_true (fun msg h => by cases h) not_reachesOutOfRange_nil
  | cons r records ih =>
    rw [reachesOutOfRange_cons, decryptFrames]
    rcases enc.decrypt_cases aead r with ⟨hout, msg, hdec⟩ | ⟨hout, p, hopens, hdec⟩ | ⟨hout, hno, msg, hdec⟩
    · rw [hdec]
      exact iff_of_false (fun h => h msg rfl) (fun h => h (.inl hout))
    · rw [hdec, or_iff_right hout, and_iff_right ⟨p, hopens⟩, ← ih]
      dsimp only
      cases hrest : decryptFrames aead enc records with
      | error failure => rfl
      | ok plaintexts => exact iff_of_true (fun msg h => by cases h) (fun msg h => by cases h)
    · rw [hdec, or_iff_right hout]
      exact iff_of_true (fun msg' h => by cases h) (fun h => h.1.elim hno)

/-- Every round takes at least four bytes, so the loop ends before it has made as many rounds as there are bytes. -/
theorem frames_eq_fileFrames {fuel : Nat} {data : Bytes} (h : data.length ≤ fuel) :
    frames fuel data = fileFrames data := by
  suffices hfuel : ∀ m n (data : Bytes), data.length ≤ m → data.length ≤ n → frames m data = frames n data from
    hfuel fuel data.length data h (Nat.le_refl _)
  intro m
  induction m with
  | zero =>
    intro n data hm _
    obtain rfl := List.length_eq_zero_iff.1 (Nat.le_zero.1 hm)
    cases n <;> rfl
  | succ m ih =>
    intro n data hm hn
    cases n with
    | zero =>
      obtain rfl := List.length_eq_zero_iff.1 (Nat.le_zero.1 hn)
      rfl
    | succ n =>
      unfold frames
      dsimp only
      split_ifs with hshort hlen
      · rfl
      · rfl
      · rw [ih n (data.drop (4 + (uint32 data).toNat))]
        · rw [List.length_drop]; omega
        · rw [List.length_drop]; omega

/-- The rounds of the loop are enough for any file. -/
theorem readLoop_of_length_le {fuel : Nat} {data : Bytes} (h : data.length ≤ fuel) :
    readLoop aead enc fuel data = decryptFrames aead enc (fileFrames data) := by
  rw [readLoop_eq_decryptFrames, frames_eq_fileFrames h]

end Records

/-! ### Files -/

namespace SnapshotManager

/-- The snapshot that a load reads has the checksum where it belongs and behind it a record whose slices are out of
range. -/
def LoadsOutOfRange (sm : SnapshotManager) (dir : Dir) (readFile : Option String) : Prop :=
  ∃ enc ∈ sm.encryptor, ∃ fileData, sm.readLatestSnapshotFile dir readFile = .ok fileData ∧
    fileData.findIdx? (· == 0x0A) = some 64 ∧ enc.OutOfRange (fileData.drop 65)

theorem returns_loadSnapshot_iff {aead : Aead} {sm : SnapshotManager} {dir : Dir} {readFile : Option String} :
    Returns (sm.loadSnapshot aead dir readFile) ↔ ¬ sm.LoadsOutOfRange dir readFile := by
  unfold loadSnapshot LoadsOutOfRange
  cases henc : sm.encryptor with
  | none =>
    refine iff_of_true (fun msg h => ?_) (by simp)
    cases hread : sm.loadSnapshotUnencrypted dir readFile with
    | error err => rw [hread] at h; cases h
    | ok data => rw [hread] at h; cases h
  | some enc =>
    dsimp only
    cases hread : sm.readLatestSnapshotFile dir readFile with
    | error err => exact iff_of_true (fun msg h => by cases h) (by simp)
    | ok fileData =>
      have hexists : (∃ e ∈ some enc, ∃ d, (Except.ok fileData : Except String Bytes) = .ok d ∧
          d.findIdx? (· == 0x0A) = some 64 ∧ e.OutOfRange (d.drop 65)) ↔
          fileData.findIdx? (· == 0x0A) = some 64 ∧ enc.OutOfRange (fileData.drop 65) := by
        simp
      rw [hexists]
      dsimp only
      split
      · rename_i hsep
        exact iff_of_true (fun msg h => by cases h) (fun h => hsep h.1)
      · rename_i hsep
        rw [and_iff_right (not_not.1 hsep), ← returns_decrypt_iff aead]
        rcases hdec : enc.decrypt aead (fileData.drop 65) with (err | msg) | decryptedData
        · exact iff_of_true (fun msg h => by cases h) (fun msg h => by cases h)
        · exact iff_of_false (fun h => h msg rfl) (fun h => h msg rfl)
        · refine iff_of_true (fun msg h => ?_) (fun msg h => by cases h)
          dsimp only at h
          split at h <;> cases h

end SnapshotManager

/-- `Decrypt`, `readFile` and `LoadSnapshot` return on all bytes but those that lead to a record which announces less
than a nonce; the loop of `readFile` ends on every file. -/
theorem returns_iff_not_outOfRange (aead : Aead) (enc : WALEncryptor) :
    (∀ ciphertext, Returns (enc.decrypt aead ciphertext) ↔ ¬ enc.OutOfRange ciphertext) ∧
    (∀ (dir : Dir) (filename : String), Returns (readFile aead enc dir filename) ↔
      ∀ f ∈ dir.lookup filename, ¬ ReachesOutOfRange aead enc (fileFrames f.data)) ∧
    (∀ (more : Nat) (data : Bytes),
      readLoop aead enc (data.length + more) data = readLoop aead enc data.length data) ∧
    (∀ (sm : SnapshotManager) (dir : Dir) (readErr : Option String), Returns (sm.loadSnapshot aead dir readErr) ↔
      ¬ sm.LoadsOutOfRange dir readErr) := by
  refine ⟨fun c => returns_decrypt_iff aead, fun dir filename => ?_, fun more data => ?_, fun sm dir readErr =>
    SnapshotManager.returns_loadSnapshot_iff⟩
  · unfold readFile
    cases hfile : dir.lookup filename with
    | none => exact iff_of_true (fun msg h => by cases h) (fun f h => by cases h)
    | some f =>
      dsimp only
      rw [readLoop_of_length_le (Nat.le_refl _), returns_decryptFrames_iff]
      simp
  · rw [readLoop_of_length_le (Nat.le_add_right ..), readLoop_of_length_le (Nat.le_refl _)]

/-- A record that announces the four bytes of its version and nothing else, alone in a file and behind a checksum. -/
def emptyRecord : Bytes := [0, 0, 0, 4, 0, 0, 0, 1]

def snapshotOfEmptyRecord : Dir :=
  [{ name := "snapshot_1_0.enc", data := List.replicate 64 0x30 ++ 0x0A :: emptyRecord, modTime := 0 }]

theorem decrypt_emptyRecord_panics :
    KeyRun.secretEncryptor.decrypt AesGcm.aead emptyRecord = .error (.panic "slice bounds out of range") ∧
    readFile AesGcm.aead KeyRun.secretEncryptor [⟨walFileName 1, emptyRecord, 0⟩] (walFileName 1) =
      .error (.panic "slice bounds out of range") ∧
    (newSnapshotManagerWithEncryption none (some KeyRun.secretEncryptor) "snapshots").loadSnapshot AesGcm.aead
      snapshotOfEmptyRecord none = .error (.panic "slice bounds out of range") := by
  decide +kernel

end DistributedBloomFilter
