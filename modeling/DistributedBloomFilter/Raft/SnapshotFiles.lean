import DistributedBloomFilter.Raft.Formats
import DistributedBloomFilter.Raft.SnapshotManager

/-!
# Who reads whose snapshots

Four functions of `internal/raft` write a snapshot as JSON: `Persist` of the snapshots that a `Node`, a `BloomFSM` and
a `SnapshotManager` take, and `SaveSnapshotToFile`, which indents its text.  Four read one: `Restore` of `BloomFSM`
and of `Node`, `RestoreSnapshot` and `LoadSnapshotFromFile`.  Of the sixteen pairs the twelve without `Node.Restore`
work: whatever was written is read back with its filter, its time and its position, where `Persist` writes the
position `0`.
-/

namespace DistributedBloomFilter

open JsonText (integer)

namespace SnapshotManager

/-- The record of `SaveSnapshotToFile`. -/
def fileRecord (crc32 : Bytes → UInt32) (sm : SnapshotManager) (bloomFilter : CountingBloomFilter) (now : Time) :
    SnapshotData where
  bloomFilter := bloomFilter.serialize crc32
  metadata := some [("version", .str "1.0"), ("created_by", .str "distributed-bloom-filter")]
  timestamp := now
  index := sm.lastSnapshotIndex
  term := sm.lastSnapshotTerm

variable {W : Type} (env : Env W)

/-- `GetSnapshot`, with the clock reading of the metadata. -/
def getSnapshot (sm : SnapshotManager) (now : Time) : Except String FsmSnapshot :=
  match sm.bloomFilter with
  | none => .error ErrBloomFilterNotInitialized
  | some bloomFilter =>
    let bloomData := bloomFilter.serialize env.crc32
    .ok { bloomData := bloomData
          metadata := some [("timestamp", .int (Int64.ofInt now).toInt), ("size", .int bloomData.length)] }

/-- The manager with a filter that was read, and one restore more. -/
def restored (sm : SnapshotManager) (newFilter : CountingBloomFilter) : SnapshotManager :=
  { sm with
    bloomFilter := some newFilter
    stats := { sm.stats with totalRestores := sm.stats.totalRestores + 1 } }

/-- `RestoreSnapshot` from the outcome of reading the stream. -/
def restoreSnapshot (sm : SnapshotManager) (rc : Except String Bytes) : SnapshotManager × Option String :=
  match sm.bloomFilter with
  | none => (sm, some ErrBloomFilterNotInitialized)
  | some _ =>
    match rc with
    | .error err => (sm, some ("failed to read snapshot: " ++ err))
    | .ok data =>
      match env.snapshotData.unmarshal data with
      | .ok snapshotData =>
        match deserialize env.crc32 snapshotData.bloomFilter with
        | .error err => (sm, some ("failed to restore bloom filter: " ++ err))
        | .ok newFilter =>
          ({ sm.restored newFilter with
              lastSnapshotIndex := snapshotData.index
              lastSnapshotTerm := snapshotData.term
              lastSnapshotTime := snapshotData.timestamp },
            none)
      | .error _ =>
        match deserialize env.crc32 data with
        | .error err => (sm, some ("failed to restore bloom filter: " ++ err))
        | .ok newFilter => (sm.restored newFilter, none)

/-- `SaveSnapshotToFile`, with what `MkdirAll` and `WriteFile` answer: the file there is afterwards, and the error.
`indented` is `json.MarshalIndent`. -/
def saveSnapshotToFile (indented : SnapshotData → Except String Bytes) (sm : SnapshotManager) (now : Time)
    (mkdirAll : Option String) (writeFile : Option (String × Option Bytes)) (file : Option Bytes) :
    Option Bytes × Option String :=
  match sm.bloomFilter with
  | none => (file, some ErrBloomFilterNotInitialized)
  | some bloomFilter =>
    match indented (sm.fileRecord env.crc32 bloomFilter now) with
    | .error err => (file, some err)
    | .ok data =>
      match mkdirAll with
      | some err => (file, some err)
      | none =>
        match writeFile with
        -- what the failed call has left of the file
        | some (err, left) => (left, some err)
        | none => (some data, none)

/-- `LoadSnapshotFromFile` from the outcome of reading the file. -/
def loadSnapshotFromFile (sm : SnapshotManager) (read : Except String Bytes) : SnapshotManager × Option String :=
  match sm.bloomFilter with
  | none => (sm, some ErrBloomFilterNotInitialized)
  | some _ =>
    match read with
    | .error err => (sm, some err)
    | .ok data =>
      match env.snapshotData.unmarshal data with
      | .error err => (sm, some err)
      | .ok snapshotData =>
        match deserialize env.crc32 snapshotData.bloomFilter with
        | .error err => (sm, some err)
        | .ok newFilter =>
          ({ sm with
              bloomFilter := some newFilter
              lastSnapshotIndex := snapshotData.index
              lastSnapshotTerm := snapshotData.term
              lastSnapshotTime := snapshotData.timestamp },
            none)

end SnapshotManager

/-! ### Writers -/

/-- The limits of `Deserialize`. -/
def CountingBloomFilter.Loadable (f : CountingBloomFilter) : Prop :=
  f.m ≤ MaxFilterSize ∧ 1 ≤ f.k ∧ f.k ≤ MaxHashFunctions

instance (f : CountingBloomFilter) : Decidable f.Loadable := inferInstanceAs (Decidable (_ ∧ _))

/-- `json.MarshalIndent` with two blanks. -/
def marshalIndent (j : JsonEnv) (s : SnapshotData) : Except String Bytes :=
  ((SnapshotData.codec j).json .indented j.syntaxError).marshal s

/-- The text was written by one of the four, from the filter `b` at the time `now`, with the position `(index,
term)`. -/
inductive Written {W : Type} (j : JsonEnv) (env : Env W) (b : CountingBloomFilter) (now : Time) :
    UInt64 → UInt64 → Bytes → Prop
  | node (n : Node) (sink : Option String) (hb : n.bloomFilter = b)
      (hok : ((n.snapshot env).persist env now (.fresh none sink)).2 = none) :
      Written j env b now 0 0 ((n.snapshot env).persist env now (.fresh none sink)).1.written
  | fsm (f : BloomFSM W) (taken : Time) (sink : Option String) (hb : f.bloom = b)
      (hok : ((f.snapshot env taken).persist env now (.fresh none sink)).2 = none) :
      Written j env b now 0 0 ((f.snapshot env taken).persist env now (.fresh none sink)).1.written
  | manager (sm : SnapshotManager) (taken : Time) (s : FsmSnapshot) (sink : Option String)
      (hb : sm.bloomFilter = some b) (hs : sm.getSnapshot env taken = .ok s)
      (hok : (s.persist env now (.fresh none sink)).2 = none) :
      Written j env b now 0 0 (s.persist env now (.fresh none sink)).1.written
  | file (sm : SnapshotManager) (io : Option String) (write : Option (String × Option Bytes)) (before : Option Bytes)
      (data : Bytes) (hb : sm.bloomFilter = some b)
      (hok : sm.saveSnapshotToFile env (marshalIndent j) now io write before = (some data, none)) :
      Written j env b now sm.lastSnapshotIndex sm.lastSnapshotTerm data

/-- A text, or a number of 64 bits. -/
def MetaValue.Small : MetaValue → Prop
  | .str _ => True
  | .int n => n.natAbs < 2 ^ 64
  | .raw _ => False

section Texts

variable {W : Type} {j : JsonEnv} {sum32 crc32 : Bytes → UInt32} {walWrite : W → Bytes → W × Option String}
  {b : CountingBloomFilter} {now : Time} {index term : UInt64} {text : Bytes}

theorem readable_of_small {entries : List (String × MetaValue)} (h : ∀ e ∈ entries, e.2.Small) :
    SnapshotData.Readable j (some entries) := by
  intro mv hmv
  rcases (SnapshotData.metadataValue_cases hmv).2 with rfl | ⟨entries', ms, hentries, hms, rfl⟩
  · rfl
  obtain rfl := Option.some.inj hentries
  rw [JsonValue.literals_object, List.find?_eq_none]
  intro literal hliteral
  obtain ⟨m, hm, hliteral⟩ := List.mem_flatMap.1 hliteral
  obtain ⟨e, he, hvalue⟩ := SnapshotData.mem_metadataMembers hms m hm
  have hsmall := h e he
  cases hmeta : e.2 with
  | str s =>
    rw [hmeta] at hvalue
    rw [← Except.ok.inj hvalue] at hliteral
    cases hliteral
  | int n =>
    rw [hmeta] at hvalue hsmall
    rw [← Except.ok.inj hvalue, integer, JsonValue.literals, List.mem_singleton] at hliteral
    rw [hliteral, JsonValue.overflows_print]
    have hbound : 2 ^ 64 < JsonValue.float64Bound := by decide +kernel
    simp only [decide_eq_true_eq, not_le]
    exact Nat.lt_trans hsmall hbound
  | raw t =>
    rw [hmeta] at hsmall
    exact hsmall.elim

theorem readable_none : SnapshotData.Readable j none := by
  intro mv hmv
  rw [← Except.ok.inj hmv]
  rfl

theorem natAbs_toInt_lt (i : Int64) : i.toInt.natAbs < 2 ^ 64 := by
  have hlow := i.le_toInt
  have hhigh := i.toInt_lt
  omega

/-- What a writer has written is the text of a record with the filter, the time and the position. -/
private theorem record_of_written (hb : b.Loadable)
    (h : Written j (textEnv j sum32 crc32 walWrite) b now index term text) :
    ∃ (s : SnapshotData) (layout : JsonText.Layout), s.bloomFilter = b.serialize crc32 ∧ s.timestamp = now ∧
      s.index = index ∧ s.term = term ∧ SnapshotData.Readable j s.metadata ∧
      ((SnapshotData.codec j).json layout j.syntaxError).marshal s = .ok text := by
  have hm : b.m ≤ MaxFilterSize := hb.1
  have hk : b.k ≤ MaxHashFunctions := hb.2.2
  unfold MaxFilterSize at hm
  unfold MaxHashFunctions at hk
  cases h with
  | node n sink hn hok =>
    obtain ⟨data, hdata, hwritten⟩ := FsmSnapshot.persist_ok hok
    rw [hwritten]
    exact ⟨_, .compact, hn ▸ rfl, rfl, rfl, rfl, readable_none, hdata⟩
  | fsm f taken sink hf hok =>
    obtain ⟨data, hdata, hwritten⟩ := FsmSnapshot.persist_ok hok
    rw [hwritten]
    refine ⟨_, .compact, hf ▸ rfl, rfl, rfl, rfl, ?_, hdata⟩
    refine readable_of_small ?_
    have hindex := f.lastAppliedIndex.toNat_lt
    have hterm := f.lastAppliedTerm.toNat_lt
    have hsize : f.bloom.size = b.m := by rw [hf]; rfl
    have hcount : f.bloom.hashCount = b.k := by rw [hf]; rfl
    simp only [List.forall_mem_cons, hsize, hcount]
    refine ⟨trivial, trivial, ?_, ?_, ?_, ?_, natAbs_toInt_lt _, natAbs_toInt_lt _, by simp⟩
    · show ((b.m : Nat) : Int).natAbs < 2 ^ 64
      omega
    · show ((b.k : Nat) : Int).natAbs < 2 ^ 64
      omega
    · show ((f.lastAppliedIndex.toNat : Nat) : Int).natAbs < 2 ^ 64
      omega
    · show ((f.lastAppliedTerm.toNat : Nat) : Int).natAbs < 2 ^ 64
      omega
  | manager sm taken s sink hsm hs hok =>
    obtain ⟨data, hdata, hwritten⟩ := FsmSnapshot.persist_ok hok
    rw [hwritten]
    simp only [SnapshotManager.getSnapshot, hsm] at hs
    cases hs
    refine ⟨_, .compact, rfl, rfl, rfl, rfl, ?_, hdata⟩
    refine readable_of_small ?_
    simp only [List.forall_mem_cons]
    refine ⟨natAbs_toInt_lt _, ?_, by simp⟩
    have hlen : (b.serialize crc32).length = 8 + b.m + 4 := b.length_serialize
    show (((b.serialize crc32).length : Nat) : Int).natAbs < 2 ^ 64
    omega
  | file sm io write before data hsm hok =>
    simp only [SnapshotManager.saveSnapshotToFile, hsm] at hok
    split at hok
    · cases hok
    · rename_i data' hdata
      split at hok
      · cases hok
      · split at hok
        · cases hok
        · cases hok
          exact ⟨_, .indented, rfl, rfl, rfl, rfl, readable_of_small (by simp [MetaValue.Small]), hdata⟩

/-- It is read back as such a record. -/
private theorem unmarshal_written (hj : j.WholeMinutes) (hb : b.Loadable)
    (h : Written j (textEnv j sum32 crc32 walWrite) b now index term text) :
    (∃ read, (textEnv j sum32 crc32 walWrite).snapshotData.unmarshal text =
      .ok ⟨b.serialize crc32, read, now, index, term⟩) ∧ text.head? = some 0x7B := by
  obtain ⟨s, layout, hfilter, htime, hindex, hterm, hreadable, hmarshal⟩ := record_of_written hb h
  obtain ⟨v, hv, rfl⟩ := JsonCodec.marshal_eq_ok hmarshal
  obtain ⟨hwell, ⟨ms, rfl⟩, mv, read, hmv, hread⟩ := SnapshotData.codec_spec hj hv
  rw [hreadable mv hmv] at hread
  refine ⟨⟨read, ?_⟩, ?_⟩
  · refine ((SnapshotData.codec j).unmarshal_encode layout hwell).trans ?_
    rw [hread, ← hfilter, ← htime, ← hindex, ← hterm]
  · cases ms <;> rw [JsonText.encode] <;> rfl

/-- Whoever wrote the text: a `BloomFSM` and a manager that has a filter take over its filter, its time and its
position, and a node refuses it. -/
theorem restored_of_written (hj : j.WholeMinutes) (hb : b.Loadable)
    (h : Written j (textEnv j sum32 crc32 walWrite) b now index term text) :
    (∀ f : BloomFSM W, f.restore (textEnv j sum32 crc32 walWrite) (.ok text) =
      ({ f with bloom := b, lastAppliedIndex := index, lastAppliedTerm := term, startTime := now }, none)) ∧
    (∀ sm : SnapshotManager, sm.bloomFilter ≠ none →
      sm.restoreSnapshot (textEnv j sum32 crc32 walWrite) (.ok text) =
        ({ sm.restored b with lastSnapshotIndex := index, lastSnapshotTerm := term, lastSnapshotTime := now }, none) ∧
      sm.loadSnapshotFromFile (textEnv j sum32 crc32 walWrite) (.ok text) =
        ({ sm with
            bloomFilter := some b
            lastSnapshotIndex := index
            lastSnapshotTerm := term
            lastSnapshotTime := now },
          none)) ∧
    ∀ n : Node, n.restore (textEnv j sum32 crc32 walWrite) (.ok text) =
      (n, some ("failed to restore bloom filter: " ++ ErrInvalidData)) := by
  obtain ⟨⟨read, hread⟩, hhead⟩ := unmarshal_written hj hb h
  have hfilter : deserialize (textEnv j sum32 crc32 walWrite).crc32 (b.serialize crc32) = .ok b :=
    b.deserialize_serialize hb.1 hb.2.1 hb.2.2
  refine ⟨fun f => ?_, fun sm hsm => ⟨?_, ?_⟩, fun n => ?_⟩
  · rw [BloomFSM.restore]
    simp only [hread, hfilter]
  · obtain ⟨current, hcurrent⟩ := Option.ne_none_iff_exists'.1 hsm
    simp only [SnapshotManager.restoreSnapshot, hcurrent, hread, hfilter]
  · obtain ⟨current, hcurrent⟩ := Option.ne_none_iff_exists'.1 hsm
    simp only [SnapshotManager.loadSnapshotFromFile, hcurrent, hread, hfilter]
  · obtain ⟨rest, rfl⟩ := List.head?_eq_some_iff.1 hhead
    have hraw : deserialize (textEnv j sum32 crc32 walWrite).crc32 (0x7B :: rest) = .error ErrInvalidData :=
      deserialize_first_byte _ (by decide) rest
    rw [Node.restore]
    simp only [hraw]

end Texts

/-! ### A file of a manager -/

def fileEnv : Env Unit := textEnv utcEnv Murmur3.sum32 Crc32.checksum fun w _ => (w, none)

def fileManager : SnapshotManager :=
  { newSnapshotManagerWithEncryption (some (newCountingBloomFilter 2 1)) none "" with
    lastSnapshotIndex := 7
    lastSnapshotTerm := 2 }

def fileText : Bytes :=
  utf8 ("\x7b\n  \"bloom_filter\": \"AAAAAgAAAAEAAHXXE2g=\",\n  \"metadata\": \x7b\n" ++
    "    \"created_by\": \"distributed-bloom-filter\",\n    \"version\": \"1.0\"\n  \x7d,\n" ++
    "  \"timestamp\": \"2026-03-14T00:00:00Z\",\n  \"index\": 7,\n  \"term\": 2\n\x7d")

theorem written_fileText :
    Written utcEnv fileEnv (newCountingBloomFilter 2 1) sampleTime 7 2 fileText :=
  .file fileManager none none none fileText rfl (by decide +kernel)

theorem restored_of_written_file :
    utcEnv.WholeMinutes ∧ (newCountingBloomFilter 2 1).Loadable ∧
      Written utcEnv fileEnv (newCountingBloomFilter 2 1) sampleTime 7 2 fileText ∧
      ∀ f : BloomFSM Unit, f.restore fileEnv (.ok fileText) =
        ({ f with
            bloom := newCountingBloomFilter 2 1
            lastAppliedIndex := 7
            lastAppliedTerm := 2
            startTime := sampleTime },
          none) :=
  ⟨wholeMinutes_utcEnv, by decide, written_fileText,
    (restored_of_written wholeMinutes_utcEnv (by decide) written_fileText).1⟩

end DistributedBloomFilter
