import DistributedBloomFilter.Lib.DecimalOrder
import DistributedBloomFilter.Lib.Sha256
import DistributedBloomFilter.Raft.Snapshot
import DistributedBloomFilter.Wal.Encryptor
import DistributedBloomFilter.Wal.Files
import Mathlib.Data.String.Basic

/-!
# Snapshot files

`SnapshotManager` of `internal/raft/snapshot.go`: every `SaveSnapshot` makes a file whose name has the index of the
last `CreateSnapshot` and the time of the save, both in decimal, and `LoadSnapshot` reads the file whose name is the
last one in the order of strings.  A name comes before another by the leading digits of the numbers
(`SnapshotKey.fileName_lt_iff`), so `snapshot_10_…` comes before `snapshot_9_…`.

The path of the directory is taken to have no character that is special to `filepath.Glob`.
-/

namespace DistributedBloomFilter

open Decimal (TextLt PrintLt leading numDigits)

def ErrBloomFilterNotInitialized : String := "bloom filter not initialized"
def ErrSnapshotDirNotConfigured : String := "snapshot directory not configured"
def ErrNoSnapshotFound : String := "no snapshot found"

/-! ### Names -/

/-- The two numbers in the name of a snapshot file. -/
structure SnapshotKey where
  index : UInt64
  unixNano : Int64
deriving DecidableEq, Repr

namespace SnapshotKey

/-- `fmt.Sprintf("snapshot_%d_%d.ext", index, unixNano)`. -/
def fileName (k : SnapshotKey) (ext : String) : String :=
  "snapshot_" ++ String.ofList (Nat.toDigits 10 k.index.toNat) ++ "_" ++
    String.ofList (Decimal.print k.unixNano.toInt) ++ "." ++ ext

/-- The leading digits of the index decide, the longer index first where they agree, and for the same index the time
decides, the shorter one first. -/
def Before (k l : SnapshotKey) : Prop :=
  TextLt false k.index.toNat l.index.toNat ∨ k.index = l.index ∧ PrintLt k.unixNano.toInt l.unixNano.toInt

instance (k l : SnapshotKey) : Decidable (k.Before l) := inferInstanceAs (Decidable (_ ∨ _))

end SnapshotKey

namespace Dir

/-- The names that `first*.ext` stands for. -/
def Matches (first ext name : String) : Prop :=
  first.toList <+: name.toList ∧ ("." ++ ext).toList <:+ name.toList.drop first.toList.length

instance (first ext name : String) : Decidable (Matches first ext name) := inferInstanceAs (Decidable (_ ∧ _))

/-- `filepath.Glob` of `first*.ext`: the files in the order of their names. -/
def glob (dir : Dir) (first ext : String) : List File :=
  (dir.filter fun f => Matches first ext f.name).insertionSort fun a b => ¬ b.name < a.name

/-- `os.WriteFile`: the file is made, or emptied if there is one. -/
def writeFile (dir : Dir) (name : String) (data : Bytes) (now : Time) : Dir :=
  dir.remove name ++ [{ name := name, data := data, modTime := now }]

end Dir

/-! ### The manager -/

structure SnapshotStats where
  totalSnapshots : Int64
  totalSnapshotSize : Int64
  lastSnapshotIndex : UInt64
  lastSnapshotTerm : UInt64
  lastSnapshotTime : Time
  totalRestores : Int64
  averageSnapshotSize : Int64

structure SnapshotManager where
  bloomFilter : Option CountingBloomFilter
  encryptor : Option WALEncryptor
  snapshotDir : String
  stats : SnapshotStats
  lastSnapshotIndex : UInt64
  lastSnapshotTerm : UInt64
  lastSnapshotTime : Time

def newSnapshotManagerWithEncryption (bloomFilter : Option CountingBloomFilter) (encryptor : Option WALEncryptor)
    (snapshotDir : String) : SnapshotManager where
  bloomFilter := bloomFilter
  encryptor := encryptor
  snapshotDir := snapshotDir
  stats := ⟨0, 0, 0, 0, zeroTime, 0, 0⟩
  lastSnapshotIndex := 0
  lastSnapshotTerm := 0
  lastSnapshotTime := zeroTime

/-- What the calls to the file system answer in a save.  A `WriteFile` that fails may leave a file, with as many bytes
as were written. -/
structure SaveIO where
  mkdirAll : Option String
  writeFile : Option (String × Option Nat)
deriving DecidableEq

def SaveIO.none : SaveIO := ⟨.none, .none⟩

namespace SnapshotManager

/-- The record `CreateSnapshot` marshals. -/
def toSnapshotData (crc32 : Bytes → UInt32) (bloomFilter : CountingBloomFilter) (index term : UInt64)
    (timestamp : Time) : SnapshotData where
  bloomFilter := bloomFilter.serialize crc32
  metadata := some
    [("version", .str "1.0"), ("created_by", .str "distributed-bloom-filter"), ("bloom_size", .int bloomFilter.size),
     ("bloom_k", .int bloomFilter.hashCount)]
  timestamp := timestamp
  index := index
  term := term

variable {W : Type} (env : Env W)

/-- `CreateSnapshot`, with the clock at its three readings.  The text is only measured. -/
def createSnapshot (sm : SnapshotManager) (index term : UInt64) (timestamp statsTime lastTime : Time) :
    SnapshotManager × Option Failure :=
  match sm.bloomFilter with
  | none => (sm, some (.error ErrBloomFilterNotInitialized))
  | some bloomFilter =>
    match env.snapshotData.marshal (toSnapshotData env.crc32 bloomFilter index term timestamp) with
    | .error err => (sm, some (.error err))
    | .ok data =>
      let stats := { sm.stats with
        totalSnapshots := sm.stats.totalSnapshots + 1
        totalSnapshotSize := sm.stats.totalSnapshotSize + Int64.ofNat data.length
        lastSnapshotIndex := index
        lastSnapshotTerm := term
        lastSnapshotTime := statsTime }
      -- the count of the snapshots has come round
      if stats.totalSnapshots = 0 then ({ sm with stats := stats }, some (.panic "integer divide by zero"))
      else
        ({ sm with
            stats := { stats with averageSnapshotSize := stats.totalSnapshotSize / stats.totalSnapshots }
            lastSnapshotIndex := index
            lastSnapshotTerm := term
            lastSnapshotTime := lastTime },
          none)

/-- The numbers in the name of the file a save makes at a time. -/
def key (sm : SnapshotManager) (now : Time) : SnapshotKey := ⟨sm.lastSnapshotIndex, Int64.ofInt now⟩

/-- The body of `saveSnapshotUnencrypted` and of `writeSnapshotFile`, which differ in the extension. -/
def writeTo (ext : String) (sm : SnapshotManager) (dir : Dir) (now : Time) (io : SaveIO) (data : Bytes) :
    Dir × Option String :=
  if sm.snapshotDir = "" then (dir, some ErrSnapshotDirNotConfigured)
  else
    match io.mkdirAll with
    | some err => (dir, some err)
    | none =>
      let filename := (sm.key now).fileName ext
      match io.writeFile with
      | none => (dir.writeFile filename data now, none)
      | some (err, none) => (dir, some err)
      | some (err, some n) => (dir.writeFile filename (data.take n) now, some err)

def saveSnapshotUnencrypted : SnapshotManager → Dir → Time → SaveIO → Bytes → Dir × Option String := writeTo "json"

def writeSnapshotFile : SnapshotManager → Dir → Time → SaveIO → Bytes → Dir × Option String := writeTo "enc"

/-- The body of `loadSnapshotUnencrypted` and of `readLatestSnapshotFile`, with the error of `os.ReadFile`. -/
def readLatest (ext : String) (sm : SnapshotManager) (dir : Dir) (readFile : Option String) : Except String Bytes :=
  if sm.snapshotDir = "" then .error ErrSnapshotDirNotConfigured
  else
    match (dir.glob "snapshot_" ext).getLast? with
    | none => .error ErrNoSnapshotFound
    | some latestFile =>
      match readFile with
      | some err => .error err
      | none => .ok latestFile.data

def loadSnapshotUnencrypted : SnapshotManager → Dir → Option String → Except String Bytes := readLatest "json"

def readLatestSnapshotFile : SnapshotManager → Dir → Option String → Except String Bytes := readLatest "enc"

variable (aead : Aead)

def saveSnapshot (sm : SnapshotManager) (dir : Dir) (data : Bytes) (now : Time) (rand : Except String (BytesN 12))
    (io : SaveIO) : Dir × Option String :=
  match sm.encryptor with
  | none => sm.saveSnapshotUnencrypted dir now io data
  | some encryptor =>
    match encryptor.encrypt aead rand data with
    | .error err => (dir, some ("failed to encrypt snapshot: " ++ err))
    | .ok encryptedData =>
      sm.writeSnapshotFile dir now io (Sha256.hex (Sha256.sum256 data) ++ 0x0A :: encryptedData)

/-- Bytes in the text of an error. -/
def text (b : Bytes) : String := String.ofList (b.map fun c => Char.ofNat c.toNat)

def loadSnapshot (sm : SnapshotManager) (dir : Dir) (readFile : Option String) : Except Failure Bytes :=
  match sm.encryptor with
  | none => (sm.loadSnapshotUnencrypted dir readFile).mapError .error
  | some encryptor =>
    match sm.readLatestSnapshotFile dir readFile with
    | .error err => .error (.error err)
    | .ok fileData =>
      if fileData.findIdx? (· == 0x0A) ≠ some 64 then
        .error (.error "invalid snapshot format: missing checksum separator")
      else
        match encryptor.decrypt aead (fileData.drop 65) with
        | .error (.error err) => .error (.error ("failed to decrypt snapshot: " ++ err))
        | .error (.panic msg) => .error (.panic msg)
        | .ok decryptedData =>
          let actualChecksumHex := Sha256.hex (Sha256.sum256 decryptedData)
          if actualChecksumHex ≠ fileData.take 64 then
            .error (.error ("checksum verification failed: expected " ++ text (fileData.take 64) ++ ", got " ++
              text actualChecksumHex))
          else .ok decryptedData

end SnapshotManager

/-! ### The order of the names -/

namespace SnapshotKey

theorem toList_fileName (k : SnapshotKey) (ext : String) :
    (k.fileName ext).toList = "snapshot_".toList ++ (Nat.toDigits 10 k.index.toNat ++ '_' ::
      (Decimal.print k.unixNano.toInt ++ '.' :: ext.toList)) := by
  simp [fileName]

theorem matches_fileName (k : SnapshotKey) (ext : String) : Dir.Matches "snapshot_" ext (k.fileName ext) := by
  have hsplit : Nat.toDigits 10 k.index.toNat ++ '_' :: (Decimal.print k.unixNano.toInt ++ '.' :: ext.toList) =
      (Nat.toDigits 10 k.index.toNat ++ '_' :: Decimal.print k.unixNano.toInt) ++ '.' :: ext.toList := by
    rw [List.append_assoc, List.cons_append]
  unfold Dir.Matches
  rw [toList_fileName, List.drop_left, hsplit]
  have hdot : ("." ++ ext).toList = '.' :: ext.toList := by simp
  exact ⟨List.prefix_append .., hdot ▸ List.suffix_append ..⟩

/-- Names are ordered as their keys. -/
theorem fileName_lt_iff (k l : SnapshotKey) (ext : String) : k.fileName ext < l.fileName ext ↔ k.Before l := by
  have hmono : StrictMono fun u : List Char => "snapshot_".toList ++ u := fun _ _ h => List.append_left_lt h
  have hindex : k.index.toNat = l.index.toNat ↔ k.index = l.index := UInt64.toNat_inj
  rw [String.lt_iff_toList_lt, toList_fileName, toList_fileName]
  refine hmono.lt_iff_lt.trans ?_
  rw [Decimal.toDigits_lt_iff rfl, Decimal.print_lt_iff rfl (by decide), Before, hindex]
  simp

theorem fileName_injective (ext : String) : Function.Injective fun k : SnapshotKey => k.fileName ext := by
  rintro ⟨i, t⟩ ⟨j, u⟩ h
  have hlist := congrArg String.toList h
  simp only [toList_fileName] at hlist
  obtain ⟨hindex, hrest⟩ := Decimal.append_mark_inj Nat.underscore_not_in_toDigits Nat.underscore_not_in_toDigits
    (List.append_cancel_left hlist)
  obtain ⟨htime, -⟩ := Decimal.append_mark_inj (Decimal.not_mem_print rfl (by decide) _)
    (Decimal.not_mem_print rfl (by decide) _) hrest
  have hi : i.toNat = j.toNat := by
    rw [← Nat.ofDigitChars_ten_toDigits (n := i.toNat), hindex, Nat.ofDigitChars_ten_toDigits]
  rw [UInt64.toNat_inj.1 hi, Decimal.print_toInt_inj htime]

/-- In the order in which snapshots are made, a name comes before a later one with another index if the index is below
the leading digits of the later one, and before a later one with the same index if the time is not above the leading
digits of the later one. -/
theorem before_iff_of_le {k l : SnapshotKey} (hindex : k.index ≤ l.index) (hepoch : 0 ≤ k.unixNano.toInt)
    (htime : k.unixNano.toInt < l.unixNano.toInt) :
    k.Before l ↔
      k.index.toNat < leading l.index.toNat (numDigits k.index.toNat) ∨
        k.index = l.index ∧
          k.unixNano.toInt.natAbs ≤ leading l.unixNano.toInt.natAbs (numDigits k.unixNano.toInt.natAbs) := by
  have hlt : k.unixNano.toInt.natAbs < l.unixNano.toInt.natAbs := by omega
  have hl : 0 ≤ l.unixNano.toInt := by omega
  rw [Before, Decimal.textLt_false_iff (UInt64.le_iff_toNat_le.1 hindex), PrintLt, if_neg (Int.not_lt.2 hepoch),
    and_iff_right hl, Decimal.textLt_true_iff hlt]

end SnapshotKey

/-! ### The file a load reads -/

namespace Dir

variable {dir : Dir} {first ext name : String} {f : File}

/-- The file whose name comes after those of all other files that match is the last one. -/
theorem getLast?_glob (hf : f ∈ dir) (hmatch : Matches first ext f.name)
    (hlast : ∀ g ∈ dir, Matches first ext g.name → g = f ∨ g.name < f.name) :
    (dir.glob first ext).getLast? = some f := by
  have htotal : Std.Total fun a b : File => ¬ b.name < a.name :=
    ⟨fun a b => (le_total a.name b.name).imp not_lt.2 not_lt.2⟩
  have htrans : IsTrans File fun a b => ¬ b.name < a.name :=
    ⟨fun a b c hab hbc => not_lt.2 ((not_lt.1 hab).trans (not_lt.1 hbc))⟩
  have hsorted : (dir.glob first ext).Pairwise fun a b => ¬ b.name < a.name := List.pairwise_insertionSort ..
  have hmem : ∀ g, g ∈ dir.glob first ext ↔ g ∈ dir ∧ Matches first ext g.name := by simp [glob]
  have hfmem := (hmem f).2 ⟨hf, hmatch⟩
  obtain ⟨z, hz⟩ : ∃ z, (dir.glob first ext).getLast? = some z :=
    ⟨_, List.getLast?_eq_some_getLast (List.ne_nil_of_mem hfmem)⟩
  obtain ⟨before, heq⟩ := List.getLast?_eq_some_iff.1 hz
  have hzmem := (hmem z).1 (List.mem_of_getLast? hz)
  rw [hz]
  rcases hlast z hzmem.1 hzmem.2 with rfl | hlt
  · rfl
  · rw [heq, List.mem_append, List.mem_singleton] at hfmem
    rcases hfmem with hbefore | rfl
    · rw [heq, List.pairwise_append] at hsorted
      exact absurd hlt (hsorted.2.2 f hbefore z (List.mem_singleton_self z))
    · rfl

theorem mem_writeFile {data : Bytes} {now : Time} {g : File} :
    g ∈ dir.writeFile name data now ↔ (g ∈ dir ∧ g.name ≠ name) ∨ g = ⟨name, data, now⟩ := by
  simp [writeFile, remove]

end Dir

namespace SnapshotManager

/-- The extension of the files of a manager with or without an encryptor. -/
def extension (encryptor : Option WALEncryptor) : String := if encryptor.isSome then "enc" else "json"

variable (aead : Aead)

/-- The bytes of a file that holds `data`. -/
def Holds (encryptor : Option WALEncryptor) (data bytes : Bytes) : Prop :=
  match encryptor with
  | none => bytes = data
  | some e => ∃ record, Seals aead e.currentKey e.keyVersion data record ∧
      bytes = Sha256.hex (Sha256.sum256 data) ++ 0x0A :: record

/-- The length of an encrypted snapshot has to fit into the field for it. -/
def Fits (encryptor : Option WALEncryptor) (data : Bytes) : Prop := encryptor.isSome → data.length + 32 < 2 ^ 32

instance (encryptor : Option WALEncryptor) (data : Bytes) : Decidable (Fits encryptor data) :=
  inferInstanceAs (Decidable (_ → _))

variable {aead} {sm : SnapshotManager}

/-- A save writes its file, or nothing, or a part of its file. -/
theorem writeTo_cases (hconf : sm.snapshotDir ≠ "") (ext : String) (dir : Dir) (now : Time) (io : SaveIO)
    (data : Bytes) :
    (io.writeFile = none ∧
      sm.writeTo ext dir now io data = (dir.writeFile ((sm.key now).fileName ext) data now, none)) ∨
    (∃ err, sm.writeTo ext dir now io data = (dir, some err)) ∨
    (∃ err n, io.writeFile = some (err, some n) ∧
      sm.writeTo ext dir now io data = (dir.writeFile ((sm.key now).fileName ext) (data.take n) now, some err)) := by
  unfold writeTo
  rw [if_neg hconf]
  cases io.mkdirAll with
  | some err => exact .inr (.inl ⟨err, rfl⟩)
  | none =>
    match io.writeFile with
    | none => exact .inl ⟨rfl, rfl⟩
    | some (err, none) => exact .inr (.inl ⟨err, rfl⟩)
    | some (err, some n) => exact .inr (.inr ⟨err, n, rfl, rfl⟩)

variable (aead) in
theorem saveSnapshot_cases (hconf : sm.snapshotDir ≠ "") (dir : Dir) (data : Bytes) (now : Time)
    (rand : Except String (BytesN 12)) (io : SaveIO) :
    (∃ bytes, io.writeFile = none ∧ Holds aead sm.encryptor data bytes ∧
      sm.saveSnapshot aead dir data now rand io =
        (dir.writeFile ((sm.key now).fileName (extension sm.encryptor)) bytes now, none)) ∨
    (∃ err, sm.saveSnapshot aead dir data now rand io = (dir, some err)) ∨
    (∃ err n bytes, io.writeFile = some (err, some n) ∧
      sm.saveSnapshot aead dir data now rand io =
        (dir.writeFile ((sm.key now).fileName (extension sm.encryptor)) bytes now, some err)) := by
  unfold saveSnapshot
  cases he : sm.encryptor with
  | none =>
    rcases writeTo_cases hconf "json" dir now io data with ⟨hio, h⟩ | ⟨err, h⟩ | ⟨err, n, hio, h⟩
    · exact .inl ⟨data, hio, rfl, h⟩
    · exact .inr (.inl ⟨err, h⟩)
    · exact .inr (.inr ⟨err, n, _, hio, h⟩)
  | some e =>
    dsimp only
    cases henc : e.encrypt aead rand data with
    | error err => exact .inr (.inl ⟨_, rfl⟩)
    | ok record =>
      rcases writeTo_cases hconf "enc" dir now io (Sha256.hex (Sha256.sum256 data) ++ 0x0A :: record) with
        ⟨hio, h⟩ | ⟨err, h⟩ | ⟨err, n, hio, h⟩
      · exact .inl ⟨_, hio, ⟨record, Seals.of_encrypt henc, rfl⟩, h⟩
      · exact .inr (.inl ⟨err, h⟩)
      · exact .inr (.inr ⟨err, n, _, hio, h⟩)

/-- A load reads the last file. -/
theorem loadSnapshot_of_getLast? (hconf : sm.snapshotDir ≠ "") {dir : Dir} {data : Bytes} {f : File}
    (hlast : (dir.glob "snapshot_" (extension sm.encryptor)).getLast? = some f)
    (hholds : Holds aead sm.encryptor data f.data) (hfits : Fits sm.encryptor data) :
    sm.loadSnapshot aead dir none = .ok data := by
  have hread : ∀ ext, (dir.glob "snapshot_" ext).getLast? = some f → sm.readLatest ext dir none = .ok f.data := by
    intro ext h
    rw [readLatest, if_neg hconf, h]
  unfold loadSnapshot
  cases he : sm.encryptor with
  | none =>
    rw [he] at hlast hholds
    rw [loadSnapshotUnencrypted, hread "json" hlast, hholds]
    rfl
  | some e =>
    rw [he] at hlast hholds hfits
    obtain ⟨record, hseals, hdata⟩ := hholds
    have hlen : (Sha256.hex (Sha256.sum256 data)).length = 64 := by rw [Sha256.length_hex, Sha256.length_sum256]
    have hnewline : ∀ c ∈ Sha256.hex (Sha256.sum256 data), (c == 0x0A) = false := by
      intro c hc
      have := Sha256.le_of_mem_hex hc
      simp only [beq_eq_false_iff_ne]
      rintro rfl
      exact absurd this (by decide)
    have hidx : f.data.findIdx? (· == 0x0A) = some 64 := by
      rw [hdata, List.findIdx?_append, List.findIdx?_eq_none_iff.2 hnewline, hlen]
      rfl
    have hdrop : f.data.drop 65 = record := by
      rw [hdata, show 65 = 64 + 1 from rfl, ← List.drop_drop, List.drop_left' hlen]
      rfl
    rw [readLatestSnapshotFile, hread "enc" hlast]
    simp only [hidx, ne_eq, not_true_eq_false, if_false, hdrop, hseals.decrypt (hfits rfl) e.cached]
    rw [hdata, List.take_left' hlen, if_neg (by simp)]

/-- `CreateSnapshot` changes neither the encryptor nor the directory. -/
theorem createSnapshot_keeps {W : Type} (env : Env W) (sm : SnapshotManager) (index term : UInt64)
    (timestamp statsTime lastTime : Time) :
    (sm.createSnapshot env index term timestamp statsTime lastTime).1.encryptor = sm.encryptor ∧
      (sm.createSnapshot env index term timestamp statsTime lastTime).1.snapshotDir = sm.snapshotDir := by
  unfold createSnapshot
  split
  · exact ⟨rfl, rfl⟩
  · split
    · exact ⟨rfl, rfl⟩
    · dsimp only
      split <;> exact ⟨rfl, rfl⟩

variable (aead) in
/-- `f` is the file that is read, and it holds `data`. -/
structure IsLatest (encryptor : Option WALEncryptor) (dir : Dir) (f : File) (data : Bytes) : Prop where
  mem : f ∈ dir
  matching : Dir.Matches "snapshot_" (extension encryptor) f.name
  latest : ∀ g ∈ dir, Dir.Matches "snapshot_" (extension encryptor) g.name → g = f ∨ g.name < f.name
  holds : Holds aead encryptor data f.data
  fits : Fits encryptor data

namespace IsLatest

variable {encryptor : Option WALEncryptor} {dir : Dir} {f : File} {data : Bytes}

theorem loadSnapshot (h : IsLatest aead sm.encryptor dir f data) (hconf : sm.snapshotDir ≠ "") :
    sm.loadSnapshot aead dir none = .ok data :=
  loadSnapshot_of_getLast? hconf (Dir.getLast?_glob h.mem h.matching h.latest) h.holds h.fits

/-- A file under an earlier name is not read. -/
theorem writeFile (h : IsLatest aead encryptor dir f data) {name : String} (hname : name < f.name) (bytes : Bytes)
    (now : Time) : IsLatest aead encryptor (dir.writeFile name bytes now) f data where
  mem := Dir.mem_writeFile.2 (.inl ⟨h.mem, fun heq => lt_irrefl _ (heq ▸ hname)⟩)
  matching := h.matching
  latest := by
    intro g hg hmatch
    rcases Dir.mem_writeFile.1 hg with ⟨hg, -⟩ | rfl
    · exact h.latest g hg hmatch
    · exact .inr hname
  holds := h.holds
  fits := h.fits

/-- A file under a name that comes after those of all others is read. -/
theorem of_writeFile {k : SnapshotKey} {bytes : Bytes} (hholds : Holds aead encryptor data bytes)
    (hfits : Fits encryptor data)
    (hlast : ∀ g ∈ dir, Dir.Matches "snapshot_" (extension encryptor) g.name →
      g.name = k.fileName (extension encryptor) ∨ g.name < k.fileName (extension encryptor)) (now : Time) :
    IsLatest aead encryptor (dir.writeFile (k.fileName (extension encryptor)) bytes now)
      ⟨k.fileName (extension encryptor), bytes, now⟩ data where
  mem := Dir.mem_writeFile.2 (.inr rfl)
  matching := k.matches_fileName _
  latest := by
    intro g hg hmatch
    rcases Dir.mem_writeFile.1 hg with ⟨hg, hne⟩ | rfl
    · exact .inr ((hlast g hg hmatch).resolve_left hne)
    · exact .inl rfl
  holds := hholds
  fits := hfits

end IsLatest

end SnapshotManager

end DistributedBloomFilter
