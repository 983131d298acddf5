import DistributedBloomFilter.Lib.JsonText
import DistributedBloomFilter.Raft.Snapshot

/-!
# The two snapshot formats

`Restore` tries to read its input as the JSON text of a `SnapshotData` and takes it for a raw filter when that fails.
The first byte of a raw filter is the highest byte of a length of at most `MaxFilterSize`, which no JSON text begins
with, so no input is of both formats.  Nothing is assigned before the filter has been read, so a `Restore` that fails
has changed nothing.
-/

namespace DistributedBloomFilter

/-- No string that `Deserialize` accepts is a JSON text. -/
theorem not_valid_of_deserialize {crc32 : Bytes → UInt32} {d : Bytes} {b : CountingBloomFilter}
    (h : deserialize crc32 d = .ok b) : JsonText.valid d ≠ true := by
  intro hvalid
  cases d with
  | nil => cases h
  | cons c rest =>
    have htab : 9 ≤ c.toNat := UInt8.le_iff_toNat_le.1 (JsonText.tab_le_of_valid hvalid)
    rw [deserialize_first_byte crc32 (by omega)] at h
    cases h

namespace BloomFSM

variable {W : Type} {env : Env W}

theorem restore_raw (hV : env.snapshotData.AcceptsOnlyTexts) (f : BloomFSM W) {d : Bytes} {b : CountingBloomFilter}
    (hd : deserialize env.crc32 d = .ok b) : f.restore env (.ok d) = ({ f with bloom := b }, none) := by
  cases hu : env.snapshotData.unmarshal d with
  | ok s => exact absurd (hV d s hu) (not_valid_of_deserialize hd)
  | error err =>
    rw [restore]
    simp only [hu, hd]

theorem restore_marshalled (hJ : env.snapshotData.RoundTrips SnapshotData.SameState) (f : BloomFSM W)
    {s : SnapshotData} {text : Bytes} (hs : env.snapshotData.marshal s = .ok text) {b : CountingBloomFilter}
    (hb : deserialize env.crc32 s.bloomFilter = .ok b) :
    f.restore env (.ok text) =
      ({ f with bloom := b, lastAppliedIndex := s.index, lastAppliedTerm := s.term, startTime := s.timestamp },
        none) := by
  obtain ⟨s', hu, hfilter, htime, hindex, hterm⟩ := hJ s text hs
  rw [hfilter] at hb
  rw [restore]
  simp only [hu, hb, hindex, hterm, htime]

/-- A `Restore` that returns an error has changed nothing. -/
theorem restore_failed (f : BloomFSM W) {rc : Except String Bytes} (h : (f.restore env rc).2 ≠ none) :
    (f.restore env rc).1 = f := by
  cases rc with
  | error err => rfl
  | ok data =>
    unfold restore at h ⊢
    dsimp only at h ⊢
    split
    · rename_i s hu
      rw [hu] at h
      cases hb : deserialize env.crc32 s.bloomFilter with
      | error err => rfl
      | ok b => simp [hb] at h
    · rename_i err hu
      rw [hu] at h
      cases hb : deserialize env.crc32 data with
      | error err => rfl
      | ok b => simp [hb] at h

/-- `Restore` takes every raw filter for one and leaves the rest of the state alone, installs the filter and the
position of every marshalled snapshot, and changes nothing when it fails. -/
theorem restore_formats (hV : env.snapshotData.AcceptsOnlyTexts)
    (hJ : env.snapshotData.RoundTrips SnapshotData.SameState) (f : BloomFSM W) :
    (∀ d b, deserialize env.crc32 d = .ok b → f.restore env (.ok d) = ({ f with bloom := b }, none)) ∧
    (∀ s text b, env.snapshotData.marshal s = .ok text → deserialize env.crc32 s.bloomFilter = .ok b →
      f.restore env (.ok text) =
        ({ f with bloom := b, lastAppliedIndex := s.index, lastAppliedTerm := s.term, startTime := s.timestamp },
          none)) ∧
    (∀ rc, (f.restore env rc).2 ≠ none → (f.restore env rc).1 = f) :=
  ⟨fun _ _ hd => restore_raw hV f hd, fun _ _ _ hs hb => restore_marshalled hJ f hs hb, fun _ h => restore_failed f h⟩

/-- A snapshot at index 5 of term 2 of a filter of two counters. -/
def restoreRecord : SnapshotData where
  bloomFilter := [0, 0, 0, 2, 0, 0, 0, 1, 1, 0, 108, 204, 34, 41]
  metadata := none
  timestamp := sampleTime
  index := 5
  term := 2

def restoreText : Bytes :=
  utf8 ("\x7b\"bloom_filter\":\"AAAAAgAAAAEBAGzMIik=\",\"metadata\":null," ++
    "\"timestamp\":\"2026-03-14T00:00:00Z\",\"index\":5,\"term\":2\x7d")

def restoreEnv : Env Unit := sampleEnvOf restoreRecord restoreText

private theorem restoreEnv_acceptsOnlyTexts : restoreEnv.snapshotData.AcceptsOnlyTexts := by
  have hvalid : JsonText.valid restoreText = true := by decide +kernel
  apply Json.acceptsOnlyTexts_ofTable
  rintro e he
  rwa [List.mem_singleton.1 he]

private theorem restoreEnv_roundTrips : restoreEnv.snapshotData.RoundTrips SnapshotData.SameState :=
  have h : ([(restoreRecord, restoreText)].map Prod.snd).Nodup := List.nodup_singleton restoreText
  Json.roundTrips_ofTable h fun _ => ⟨rfl, rfl, rfl, rfl⟩

/-- The filter of `restoreRecord` restored from its raw form and from the JSON text of the record, and an input that
is neither. -/
theorem restore_formats_two_counters :
    sampleFSM.restore restoreEnv (.ok restoreRecord.bloomFilter) =
      ({ sampleFSM with bloom := ⟨2, 1, [1, 0], rfl⟩ }, none) ∧
    sampleFSM.restore restoreEnv (.ok restoreText) =
      ({ sampleFSM with
          bloom := ⟨2, 1, [1, 0], rfl⟩, lastAppliedIndex := 5, lastAppliedTerm := 2, startTime := sampleTime },
        none) ∧
    (sampleFSM.restore restoreEnv (.ok [])).1 = sampleFSM := by
  have hfilter : deserialize restoreEnv.crc32 restoreRecord.bloomFilter = .ok ⟨2, 1, [1, 0], rfl⟩ := by
    decide +kernel
  have hmarshal : restoreEnv.snapshotData.marshal restoreRecord = .ok restoreText := Json.marshal_ofTable_head ..
  have hfailed : (sampleFSM.restore restoreEnv (.ok [])).2 ≠ none := by
    decide +kernel
  obtain ⟨hraw, htext, herr⟩ := restore_formats restoreEnv_acceptsOnlyTexts restoreEnv_roundTrips sampleFSM
  exact ⟨hraw _ _ hfilter, htext _ _ _ hmarshal hfilter, herr _ hfailed⟩

end BloomFSM

end DistributedBloomFilter
