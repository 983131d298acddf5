import DistributedBloomFilter.Bloom.Serialize
import DistributedBloomFilter.Lib.Gzip
import Mathlib.Tactic.IntervalCases

/-!
# Compressed filters and snapshots

`pkg/bloom/compression.go`.  `CompressSerialize` puts the length of the serialized filter in front of it, inside the
gzip stream, and `DecompressDeserialize` hands the whole stream to `Deserialize`, which takes the length for the
number of counters: no filter comes back.

`SnapshotCompressor` writes a magic number, the level, the length of the metadata, the metadata and a gzip stream.
The reader takes the magic number and the metadata with `Read`, which may return less than it was asked for without an
error; a string that was cut short is still refused, because what is missing is missed by a later check.
-/

namespace DistributedBloomFilter

open BigEndian (putUint32 uint32)

variable (gzip : Gzip.Format) (crc32 : Bytes → UInt32)

/-! ### Filters -/

def CountingBloomFilter.compressSerialize (f : CountingBloomFilter) : Except String Bytes :=
  let data := f.serialize crc32
  match Gzip.newWriterLevel Gzip.BestSpeed with
  | .error err => .error ("failed to create gzip writer: " ++ err)
  | .ok _ => .ok (gzip.compress Gzip.BestSpeed [putUint32 (UInt32.ofNat data.length), data])

def decompressDeserialize (compressedData : Bytes) : Except String CountingBloomFilter :=
  match gzip.newReader compressedData with
  | .error err => .error ("failed to create gzip reader: " ++ err)
  | .ok _ =>
    match gzip.readAll compressedData with
    | .error err => .error ("failed to decompress data: " ++ err)
    | .ok decompressed => deserialize crc32 decompressed

/-- The length in front of a serialized filter makes it one that `Deserialize` refuses. -/
theorem deserialize_size_serialize (f : CountingBloomFilter) :
    deserialize crc32 (putUint32 (UInt32.ofNat (f.serialize crc32).length) ++ f.serialize crc32) =
      .error ErrInvalidData := by
  have hlen : (f.serialize crc32).length = 8 + f.m + 4 := f.length_serialize
  apply deserialize_of_length_ne
  rw [BigEndian.uint32_putUint32, UInt32.toNat_ofNat', List.length_append, BigEndian.length_putUint32, hlen]
  omega

/-- No filter is read back from its compressed form, whatever its shape and its counters. -/
theorem decompressDeserialize_compressSerialize (f : CountingBloomFilter) :
    ∃ compressed, f.compressSerialize gzip crc32 = .ok compressed ∧
      decompressDeserialize gzip crc32 compressed = .error ErrInvalidData := by
  refine ⟨_, rfl, ?_⟩
  obtain ⟨hreader, hread⟩ := gzip.lossless Gzip.BestSpeed
    [putUint32 (UInt32.ofNat (f.serialize crc32).length), f.serialize crc32]
  unfold decompressDeserialize
  rw [hreader, hread, List.flatten_cons, List.flatten_singleton]
  exact deserialize_size_serialize crc32 f

/-- The compressed form of the empty filter of two counters is refused. -/
theorem decompressDeserialize_two_counters :
    decompressDeserialize Gzip.stored Crc32.checksum
      (Gzip.stored.compress Gzip.BestSpeed
        [[0, 0, 0, 14], (newCountingBloomFilter 2 1).serialize Crc32.checksum]) = .error ErrInvalidData ∧
    (newCountingBloomFilter 2 1).compressSerialize Gzip.stored Crc32.checksum =
      .ok (Gzip.stored.compress Gzip.BestSpeed
        [[0, 0, 0, 14], (newCountingBloomFilter 2 1).serialize Crc32.checksum]) := by
  decide +kernel

/-! ### Reading from `bytes.Reader`

A reader is known by the bytes it has not returned yet. -/

/-- `Read` into a new buffer of `n` bytes: a short read is no error, and the rest of the buffer stays zero. -/
def read (n : Nat) (r : Bytes) : Except String (Bytes × Bytes) :=
  if r = [] then .error "EOF" else .ok (r.take n ++ List.replicate (n - r.length) 0, r.drop n)

/-- `binary.Read` of `n` bytes, which is `io.ReadFull`. -/
def readFull (n : Nat) (r : Bytes) : Except String (Bytes × Bytes) :=
  if n ≤ r.length then .ok (r.take n, r.drop n)
  else if r = [] then .error "EOF"
  else .error "unexpected EOF"

theorem read_append (head rest : Bytes) (h : head ++ rest ≠ []) :
    read head.length (head ++ rest) = .ok (head, rest) := by
  have hshort : head.length - (head ++ rest).length = 0 := by rw [List.length_append]; omega
  rw [read, if_neg h, hshort, List.take_left, List.drop_left, List.replicate_zero, List.append_nil]

theorem readFull_append (head rest : Bytes) : readFull head.length (head ++ rest) = .ok (head, rest) := by
  rw [readFull, if_pos (by rw [List.length_append]; omega), List.take_left, List.drop_left]

/-! ### Snapshots -/

/-- The levels of `gzip` from fast to small. -/
structure SnapshotCompressor where
  level : Int
  level_range : 1 ≤ level ∧ level ≤ 9
deriving DecidableEq, Repr

def newSnapshotCompressor (level : Int) : SnapshotCompressor :=
  if h : level < 1 then { level := Gzip.BestSpeed, level_range := by decide }
  else if h' : level > 9 then { level := Gzip.BestCompression, level_range := by decide }
  else { level := level, level_range := by omega }

/-- The bytes of `DBFS`. -/
def snapshotMagic : Bytes := [0x44, 0x42, 0x46, 0x53]

section Snapshot

variable {V : Type} (sprint : V → Bytes)

/-- `serializeMetadata`, with the entries of the map in the order in which the loop meets them; `sprint` is
`fmt.Sprintf("%v", v)`. -/
def serializeMetadata (metadata : List (Bytes × V)) : Bytes :=
  metadata.flatMap fun e => e.1 ++ [0x3A] ++ sprint e.2 ++ [0x0A]

/-- `deserializeMetadata` returns an empty map. -/
def deserializeMetadata (_data : Bytes) : List (Bytes × V) := []

namespace SnapshotCompressor

/-- The part of a compressed snapshot in front of the metadata. -/
def header (sc : SnapshotCompressor) (metadataBytes : Bytes) : Bytes :=
  snapshotMagic ++ [UInt8.ofNat sc.level.toNat] ++ putUint32 (UInt32.ofNat metadataBytes.length)

def compress (sc : SnapshotCompressor) (data : Bytes) (metadata : List (Bytes × V)) : Except String Bytes :=
  let metadataBytes := serializeMetadata sprint metadata
  match Gzip.newWriterLevel sc.level with
  | .error err => .error err
  | .ok _ => .ok (sc.header metadataBytes ++ metadataBytes ++ gzip.compress sc.level [data])

/-- `Decompress` behind the header: the metadata and the stream. -/
def decompressBody (metadataSize : Nat) (r : Bytes) : Except String (Bytes × List (Bytes × V)) := do
  let (metadataBytes, r) ← read metadataSize r
  let metadata := deserializeMetadata metadataBytes
  let _ ← gzip.newReader r
  let data ← gzip.readAll r
  .ok (data, metadata)

/-- `Decompress`; the level that was stored is not used, and neither is that of the compressor. -/
def decompress (_sc : SnapshotCompressor) (compressedData : Bytes) : Except String (Bytes × List (Bytes × V)) :=
  match read 4 compressedData with
  | .error err => .error ("failed to read magic: " ++ err)
  | .ok (magic, r) =>
    if magic ≠ snapshotMagic then .error "invalid snapshot format"
    else do
      let (_level, r) ← readFull 1 r
      let (metadataSize, r) ← readFull 4 r
      decompressBody gzip (uint32 metadataSize).toNat r

variable {gzip} {sprint}

theorem compress_ok (sc : SnapshotCompressor) (data : Bytes) (metadata : List (Bytes × V)) :
    sc.compress gzip sprint data metadata = .ok (sc.header (serializeMetadata sprint metadata) ++
      serializeMetadata sprint metadata ++ gzip.compress sc.level [data]) := by
  have hlevel : Gzip.newWriterLevel sc.level = .ok () := by
    have := sc.level_range
    rw [Gzip.newWriterLevel, Gzip.BestCompression, if_neg (by omega)]
  unfold compress
  rw [hlevel]

/-- A complete header is passed, and what comes behind it is the body. -/
theorem decompress_header (sc sc' : SnapshotCompressor) {metadataBytes : Bytes} (h : metadataBytes.length < 2 ^ 32)
    (r : Bytes) : sc'.decompress gzip (sc.header metadataBytes ++ r) =
      (decompressBody gzip metadataBytes.length r : Except String (Bytes × List (Bytes × V))) := by
  have hsize : (uint32 (putUint32 (UInt32.ofNat metadataBytes.length))).toNat = metadataBytes.length := by
    rw [← List.append_nil (putUint32 _), BigEndian.uint32_putUint32, UInt32.toNat_ofNat']
    exact Nat.mod_eq_of_lt h
  have hread : read 4 (sc.header metadataBytes ++ r) = .ok (snapshotMagic,
      [UInt8.ofNat sc.level.toNat] ++ (putUint32 (UInt32.ofNat metadataBytes.length) ++ r)) := by
    unfold header
    rw [List.append_assoc, List.append_assoc]
    exact read_append snapshotMagic _ (by simp [snapshotMagic])
  have hlevel := readFull_append [UInt8.ofNat sc.level.toNat]
    (putUint32 (UInt32.ofNat metadataBytes.length) ++ r)
  have hlen := readFull_append (putUint32 (UInt32.ofNat metadataBytes.length)) r
  rw [List.length_singleton] at hlevel
  rw [BigEndian.length_putUint32] at hlen
  unfold decompress
  rw [hread]
  simp only [ne_eq, not_true_eq_false, ↓reduceIte, hlevel, hlen, hsize, bind, Except.bind]

theorem decompressBody_append {metadataBytes stream data : Bytes} (hne : stream ≠ [])
    (hreader : gzip.newReader stream = .ok ()) (hread : gzip.readAll stream = .ok data) :
    decompressBody gzip metadataBytes.length (metadataBytes ++ stream) =
      (.ok (data, []) : Except String (Bytes × List (Bytes × V))) := by
  rw [decompressBody, read_append metadataBytes stream (by simp [hne])]
  simp only [hreader, hread, bind, Except.bind]
  rfl

theorem decompressBody_rejects {n : Nat} {r : Bytes} (h : gzip.Rejects (r.drop n)) :
    ∃ err, (decompressBody gzip n r : Except String (Bytes × List (Bytes × V))) = .error err := by
  unfold decompressBody read
  split
  · exact ⟨_, rfl⟩
  · rcases h with ⟨err, h⟩ | ⟨err, h⟩
    · refine ⟨err, ?_⟩
      simp only [h, bind, Except.bind]
    · cases hreader : gzip.newReader (r.drop n) with
      | error err' => exact ⟨err', by simp only [hreader, bind, Except.bind]⟩
      | ok _ => exact ⟨err, by simp only [hreader, h, bind, Except.bind]⟩

/-- A cut inside the header is noticed. -/
theorem decompress_short (sc sc' : SnapshotCompressor) (metadataBytes : Bytes) {n : Nat} (hn : n < 9) :
    ∃ err, (sc'.decompress gzip ((sc.header metadataBytes).take n) :
      Except String (Bytes × List (Bytes × V))) = .error err := by
  -- within the magic number the zeros of the buffer are not those of `DBFS`, behind it `io.ReadFull` finds too little
  interval_cases n <;> exact ⟨_, rfl⟩

theorem length_header (sc : SnapshotCompressor) (metadataBytes : Bytes) : (sc.header metadataBytes).length = 9 := rfl

/-- A cut behind the header leaves a strict prefix of the stream, if only the empty one. -/
theorem decompressBody_cut (hgzip : gzip.RejectsPrefixes) (metadataBytes : Bytes) (level : Int)
    (pieces : List Bytes) {n : Nat} (hn : n < metadataBytes.length + (gzip.compress level pieces).length) :
    ∃ err, (decompressBody gzip metadataBytes.length ((metadataBytes ++ gzip.compress level pieces).take n) :
      Except String (Bytes × List (Bytes × V))) = .error err := by
  have hpos : 0 < (gzip.compress level pieces).length :=
    List.length_pos_of_ne_nil (Gzip.Format.compress_ne_nil hgzip level pieces)
  apply decompressBody_rejects
  rw [List.drop_take, List.drop_left]
  refine hgzip level pieces _ (List.take_prefix _ _) fun heq => ?_
  have hlen := congrArg List.length heq
  rw [List.length_take] at hlen
  omega

/-- What a compressor wrote, a compressor of any level reads back; and every strict prefix of it is refused. -/
theorem decompress_compress (hgzip : gzip.RejectsPrefixes) (level level' : Int) (data : Bytes)
    {metadata : List (Bytes × V)} (hsize : (serializeMetadata sprint metadata).length < 2 ^ 32) :
    ∃ compressed, (newSnapshotCompressor level).compress gzip sprint data metadata = .ok compressed ∧
      (newSnapshotCompressor level').decompress gzip compressed = .ok (data, ([] : List (Bytes × V))) ∧
      ∀ cut, cut <+: compressed → cut ≠ compressed → ∃ err, ((newSnapshotCompressor level').decompress gzip cut :
        Except String (Bytes × List (Bytes × V))) = .error err := by
  refine ⟨_, compress_ok _ data metadata, ?_, ?_⟩
  · obtain ⟨hreader, hread⟩ := gzip.lossless (newSnapshotCompressor level).level [data]
    rw [List.flatten_singleton] at hread
    rw [List.append_assoc, decompress_header _ _ hsize]
    exact decompressBody_append (Gzip.Format.compress_ne_nil hgzip _ _) hreader hread
  · intro cut hcut hne
    have hlt : cut.length < _ := Nat.lt_of_le_of_ne hcut.length_le fun hlen => hne (hcut.eq_of_length hlen)
    rw [List.prefix_iff_eq_take.1 hcut]
    rw [List.append_assoc] at hlt ⊢
    rw [List.length_append, length_header, List.length_append] at hlt
    by_cases hn : cut.length < 9
    · rw [List.take_append_of_le_length (by rw [length_header]; omega)]
      exact decompress_short _ _ _ hn
    · rw [List.take_append, List.take_of_length_le (by rw [length_header]; omega), length_header,
        decompress_header _ _ hsize]
      exact decompressBody_cut hgzip _ _ _ (by omega)

/-- A snapshot of three bytes with one entry of metadata. -/
theorem decompress_compress_three :
    ∃ compressed, (newSnapshotCompressor 0).compress Gzip.stored (fun v : Bytes => v) [1, 2, 3] [([107], [51])] =
        .ok compressed ∧
      (newSnapshotCompressor 12).decompress Gzip.stored compressed = .ok ([1, 2, 3], ([] : List (Bytes × Bytes))) ∧
      ∀ cut, cut <+: compressed → cut ≠ compressed →
        ∃ err, ((newSnapshotCompressor 12).decompress Gzip.stored cut :
          Except String (Bytes × List (Bytes × Bytes))) = .error err :=
  decompress_compress Gzip.stored_rejectsPrefixes 0 12 [1, 2, 3] (by decide)

end SnapshotCompressor

end Snapshot

end DistributedBloomFilter
