import DistributedBloomFilter.Lib.Crc32
import DistributedBloomFilter.Lib.Murmur3
import DistributedBloomFilter.Raft.Fsm

/-!
# Snapshots of the state machine

A snapshot that was persisted is restored as the filter it was taken from, in any state machine, and what `Apply`
does to the filter depends on the filter and on the entry alone.  So restoring and applying the rest of the log gives
the filter the whole log gives.  The log position is not restored: `Persist` writes `Index` and `Term` as `0`.
-/

namespace DistributedBloomFilter

variable {W : Type} {env : Env W}

namespace BloomFSM

variable (env) in
/-- The state machine after some entries, each with the clock reading of its `Apply`. -/
def applyAll (f : BloomFSM W) (entries : List (Time × Log)) : BloomFSM W :=
  entries.foldl (fun f e => (f.apply env e.1 e.2).1) f

variable (env) in
/-- What an entry does to the filter. -/
def bloomStep (b : CountingBloomFilter) (log : Log) : CountingBloomFilter :=
  match parseCommand env log.data with
  | .error _ => b
  | .ok cmd => (execute env b cmd).1

theorem applyAll_append (f : BloomFSM W) (xs ys : List (Time × Log)) :
    f.applyAll env (xs ++ ys) = (f.applyAll env xs).applyAll env ys := by
  unfold applyAll; exact List.foldl_append

theorem bloom_apply (now : Time) (f : BloomFSM W) (log : Log) :
    (f.apply env now log).1.bloom = bloomStep env f.bloom log := by
  unfold apply bloomStep
  cases parseCommand env log.data <;> rfl

theorem bloom_applyAll (f : BloomFSM W) (entries : List (Time × Log)) :
    (f.applyAll env entries).bloom = (entries.map Prod.snd).foldl (bloomStep env) f.bloom := by
  induction entries generalizing f with
  | nil => rfl
  | cons e es ih =>
    show ((f.apply env e.1 e.2).1.applyAll env es).bloom = _
    rw [ih, bloom_apply]; rfl

variable (env) in
theorem shape_execute (b : CountingBloomFilter) (cmd : Command) :
    (execute env b cmd).1.m = b.m ∧ (execute env b cmd).1.k = b.k := by
  unfold execute
  split
  · exact ⟨rfl, rfl⟩
  · split <;> exact ⟨rfl, rfl⟩

variable (env) in
theorem shape_bloomStep (b : CountingBloomFilter) (log : Log) :
    (bloomStep env b log).m = b.m ∧ (bloomStep env b log).k = b.k := by
  unfold bloomStep
  cases parseCommand env log.data with
  | error err => exact ⟨rfl, rfl⟩
  | ok cmd => exact shape_execute env b cmd

variable (env) in
/-- No entry changes the shape of the filter. -/
theorem shape_applyAll (f : BloomFSM W) (entries : List (Time × Log)) :
    (f.applyAll env entries).bloom.m = f.bloom.m ∧ (f.applyAll env entries).bloom.k = f.bloom.k := by
  induction entries generalizing f with
  | nil => exact ⟨rfl, rfl⟩
  | cons e es ih =>
    have hs := shape_bloomStep env f.bloom e.2
    rw [← bloom_apply e.1] at hs
    have he := ih (f.apply env e.1 e.2).1
    exact ⟨he.1.trans hs.1, he.2.trans hs.2⟩

end BloomFSM

/-- A `Persist` that returns nil has written the marshalled record. -/
theorem FsmSnapshot.persist_ok {now : Time} {s : FsmSnapshot} {sink : SnapshotSink}
    (h : (s.persist env now sink).2 = none) :
    ∃ data, env.snapshotData.marshal (s.toSnapshotData now) = .ok data ∧
      (s.persist env now sink).1.written = sink.written ++ data := by
  unfold persist at h ⊢
  cases hd : env.snapshotData.marshal (s.toSnapshotData now) with
  | error err => rw [hd] at h; cases h
  | ok data =>
    rw [hd] at h
    refine ⟨data, rfl, ?_⟩
    cases hw : sink.writeErr with
    | some err => rw [hw] at h; cases h
    | none => rfl

/-- Restoring persisted bytes: the filter is the one in the snapshot, the start time is that of `Persist`, and the
position is `0`. -/
theorem BloomFSM.restore_persist (hJ : env.snapshotData.RoundTrips SnapshotData.SameState) {now : Time}
    {s : FsmSnapshot} {we ce : Option String} (hp : (s.persist env now (.fresh we ce)).2 = none)
    {f : CountingBloomFilter} (hs : deserialize env.crc32 s.bloomData = .ok f) (g : BloomFSM W) :
    g.restore env (.ok (s.persist env now (.fresh we ce)).1.written) =
      ({ g with bloom := f, lastAppliedIndex := 0, lastAppliedTerm := 0, startTime := now }, none) := by
  obtain ⟨data, hd, hw⟩ := FsmSnapshot.persist_ok hp
  obtain ⟨d, hdata, hf, ht, hi, hterm⟩ := hJ _ _ hd
  have hw' : (s.persist env now (.fresh we ce)).1.written = data := hw
  have hd' : deserialize env.crc32 d.bloomFilter = .ok f := by rw [← hf]; exact hs
  rw [hw', restore]
  simp only [hdata, hd']
  rw [← hi, ← ht, ← hterm]
  rfl

/-! ### A snapshot of one entry

The state machine of two counters and one hash function after `add a` at index 5 of term 2, with the texts
`encoding/json` gives the values that occur. -/

/-- 14 March 2026, midnight. -/
def sampleTime : Time := 1773446400000000000

def addText : Bytes :=
  utf8 "\x7b\"type\":\"add\",\"item\":\"YQ==\",\"timestamp\":\"0001-01-01T00:00:00Z\"\x7d"

def removeText : Bytes :=
  utf8 "\x7b\"type\":\"remove\",\"item\":\"YQ==\",\"timestamp\":\"0001-01-01T00:00:00Z\"\x7d"

def sampleFSM : BloomFSM Unit := newBloomFSM (newCountingBloomFilter 2 1) none sampleTime

def sampleLog : List (Time × Log) := [(sampleTime, ⟨5, 2, addText⟩)]

/-- The record of the snapshot of `sampleFSM` after `sampleLog`. -/
def sampleRecord : SnapshotData where
  bloomFilter := [0, 0, 0, 2, 0, 0, 0, 1, 1, 0, 108, 204, 34, 41]
  metadata := some
    [("version", .str "1.0"), ("created_by", .str "distributed-bloom-filter"), ("bloom_size", .int 2),
     ("bloom_k", .int 1), ("last_applied_index", .int 5), ("last_applied_term", .int 2),
     ("timestamp", .int 1773446400000000000), ("start_time", .int 1773446400000000000)]
  timestamp := sampleTime
  index := 0
  term := 0

def sampleText : Bytes :=
  utf8 ("\x7b\"bloom_filter\":\"AAAAAgAAAAEBAGzMIik=\",\"metadata\":\x7b\"bloom_k\":1,\"bloom_size\":2," ++
    "\"created_by\":\"distributed-bloom-filter\",\"last_applied_index\":5,\"last_applied_term\":2," ++
    "\"start_time\":1773446400000000000,\"timestamp\":1773446400000000000,\"version\":\"1.0\"\x7d," ++
    "\"timestamp\":\"2026-03-14T00:00:00Z\",\"index\":0,\"term\":0\x7d")

/-- The functions the repository uses, and the texts of the two commands on `a` and of one snapshot. -/
def sampleEnvOf (record : SnapshotData) (text : Bytes) : Env Unit where
  sum32 := Murmur3.sum32
  crc32 := Crc32.checksum
  command := .ofTable [(⟨"add", [97], zeroTime⟩, addText), (⟨"remove", [97], zeroTime⟩, removeText)]
  fsmCommand := .ofTable []
  snapshotData := .ofTable [(record, text)]
  walWrite w _ := (w, none)

def sampleEnv : Env Unit := sampleEnvOf sampleRecord sampleText

/-- The snapshot of `sampleFSM` after `sampleLog`, persisted. -/
def samplePersisted : SnapshotSink × Option String :=
  ((sampleFSM.applyAll sampleEnv sampleLog).snapshot sampleEnv sampleTime).persist sampleEnv sampleTime
    (.fresh none none)

/-- A state machine of another shape, restored from it. -/
def sampleRestored : BloomFSM Unit × Option String :=
  (newBloomFSM (newCountingBloomFilter 7 4) none 0).restore sampleEnv (.ok samplePersisted.1.written)

theorem sampleEnv_roundTrips : sampleEnv.snapshotData.RoundTrips SnapshotData.SameState :=
  have h : ([(sampleRecord, sampleText)].map Prod.snd).Nodup := List.nodup_singleton sampleText
  Json.roundTrips_ofTable h fun _ => ⟨rfl, rfl, rfl, rfl⟩

private theorem sample_execute (record : SnapshotData) (text : Bytes) :
    BloomFSM.execute (sampleEnvOf record text) (newCountingBloomFilter 2 1) ⟨"add", [97], zeroTime⟩ =
      ({ m := 2, k := 1, counters := [1, 0], length_counters := rfl }, none) := by
  show CountingBloomFilter.add Murmur3.sum32 (newCountingBloomFilter 2 1) [97] = _
  decide +kernel

private theorem sampleFSM_applyAll :
    sampleFSM.applyAll sampleEnv sampleLog =
      { bloom := { m := 2, k := 1, counters := [1, 0], length_counters := rfl }, walWriter := none,
        lastAppliedIndex := 5, lastAppliedTerm := 2, startTime := sampleTime } := by
  have hparse : sampleEnv.command.unmarshal addText = .ok ⟨"add", [97], zeroTime⟩ := Json.unmarshal_ofTable_head ..
  show (BloomFSM.apply sampleEnv sampleTime sampleFSM ⟨5, 2, addText⟩).1 = _
  rw [BloomFSM.apply, BloomFSM.parseCommand]
  simp only [hparse]
  rw [show sampleFSM.bloom = newCountingBloomFilter 2 1 from rfl, sampleEnv, sample_execute]
  rfl

private theorem sampleRecord_eq :
    ((sampleFSM.applyAll sampleEnv sampleLog).snapshot sampleEnv sampleTime).toSnapshotData sampleTime =
      sampleRecord := by
  rw [sampleFSM_applyAll]
  decide +kernel

private theorem samplePersisted_eq :
    samplePersisted = ({ SnapshotSink.fresh none none with written := sampleText, closed := true }, none) := by
  rw [samplePersisted, FsmSnapshot.persist, sampleRecord_eq,
    show sampleEnv.snapshotData.marshal sampleRecord = .ok sampleText from Json.marshal_ofTable_head ..]
  rfl

private theorem samplePersisted_ok : samplePersisted.2 = none := by rw [samplePersisted_eq]

private theorem sampleRestored_eq :
    sampleRestored = ({ sampleFSM.applyAll sampleEnv sampleLog with
      lastAppliedIndex := 0, lastAppliedTerm := 0, startTime := sampleTime }, none) := by
  have hs : deserialize sampleEnv.crc32 ((sampleFSM.applyAll sampleEnv sampleLog).bloom.serialize sampleEnv.crc32) =
      .ok (sampleFSM.applyAll sampleEnv sampleLog).bloom := by
    obtain ⟨em, ek⟩ := sampleFSM.shape_applyAll sampleEnv sampleLog
    exact CountingBloomFilter.deserialize_serialize _ (by rw [em]; decide) (by rw [ek]; decide) (by rw [ek]; decide)
  rw [sampleRestored, samplePersisted, BloomFSM.restore_persist sampleEnv_roundTrips samplePersisted_ok hs]
  rw [sampleFSM_applyAll]
  rfl

/-! ### The two halves of a restore: the filter and the position -/

/-- A snapshot taken after some entries, persisted after any number of further ones (`mid`) and restored in any state
machine, and then the rest of the log from where the snapshot was taken: the filter is that of the whole log. -/
theorem BloomFSM.restore_applyAll_eq (hJ : env.snapshotData.RoundTrips SnapshotData.SameState) {f : BloomFSM W}
    (hm : f.bloom.m ≤ MaxFilterSize) (hk : 1 ≤ f.bloom.k) (hk' : f.bloom.k ≤ MaxHashFunctions)
    (pre mid post : List (Time × Log)) (tSnapshot tPersist : Time) {we ce : Option String}
    (hp : (((f.applyAll env pre).snapshot env tSnapshot).persist env tPersist (.fresh we ce)).2 = none)
    (g : BloomFSM W) {again : List (Time × Log)} (hagain : again.map Prod.snd = (mid ++ post).map Prod.snd) :
    ∃ g', g.restore env (.ok (((f.applyAll env pre).snapshot env tSnapshot).persist env tPersist
        (.fresh we ce)).1.written) = (g', none) ∧
      (g'.applyAll env again).bloom = (((f.applyAll env pre).applyAll env mid).applyAll env post).bloom := by
  obtain ⟨em, ek⟩ := f.shape_applyAll env pre
  have hs : deserialize env.crc32 ((f.applyAll env pre).snapshot env tSnapshot).bloomData =
      .ok (f.applyAll env pre).bloom :=
    (f.applyAll env pre).bloom.deserialize_serialize (em ▸ hm) (ek ▸ hk) (ek ▸ hk')
  refine ⟨_, restore_persist hJ hp hs g, ?_⟩
  rw [← applyAll_append, bloom_applyAll, bloom_applyAll _ (mid ++ post), hagain]

theorem BloomFSM.restore_applyAll_sample :
    ∃ g', sampleRestored = (g', none) ∧
      (g'.applyAll sampleEnv [(0, ⟨6, 2, addText⟩)]).bloom =
        (((sampleFSM.applyAll sampleEnv sampleLog).applyAll sampleEnv [(sampleTime, ⟨6, 2, addText⟩)]).applyAll
          sampleEnv []).bloom := by
  unfold sampleRestored samplePersisted
  exact restore_applyAll_eq sampleEnv_roundTrips (by decide) (by decide) (by decide) sampleLog
    [(sampleTime, ⟨6, 2, addText⟩)] [] sampleTime sampleTime samplePersisted_ok _ rfl

/-- After a snapshot is persisted and restored, the state machine has the log position of the one it was taken from
only when that position was `0`. -/
theorem BloomFSM.restore_position_iff (hJ : env.snapshotData.RoundTrips SnapshotData.SameState) (f : BloomFSM W)
    (entries : List (Time × Log)) (tSnapshot tPersist : Time) {we ce : Option String}
    (hp : (((f.applyAll env entries).snapshot env tSnapshot).persist env tPersist (.fresh we ce)).2 = none)
    {g g' : BloomFSM W}
    (hr : g.restore env (.ok (((f.applyAll env entries).snapshot env tSnapshot).persist env tPersist
      (.fresh we ce)).1.written) = (g', none)) :
    (g'.lastAppliedIndex = (f.applyAll env entries).lastAppliedIndex ∧
      g'.lastAppliedTerm = (f.applyAll env entries).lastAppliedTerm) ↔
    (f.applyAll env entries).lastAppliedIndex = 0 ∧ (f.applyAll env entries).lastAppliedTerm = 0 := by
  have hpos : g'.lastAppliedIndex = 0 ∧ g'.lastAppliedTerm = 0 := by
    obtain ⟨data, hd, hw⟩ := FsmSnapshot.persist_ok hp
    obtain ⟨d, hdata, _, _, hi, hterm⟩ := hJ _ _ hd
    have hw' : (((f.applyAll env entries).snapshot env tSnapshot).persist env tPersist
      (.fresh we ce)).1.written = data := hw
    rw [hw', restore] at hr
    simp only [hdata] at hr
    split at hr
    · cases hr
    · obtain ⟨rfl, -⟩ := Prod.mk.inj hr
      exact ⟨hi.symm, hterm.symm⟩
  rw [hpos.1, hpos.2]
  exact and_congr eq_comm eq_comm

theorem BloomFSM.restore_position_sample :
    (sampleRestored.1.lastAppliedIndex = (sampleFSM.applyAll sampleEnv sampleLog).lastAppliedIndex ∧
      sampleRestored.1.lastAppliedTerm = (sampleFSM.applyAll sampleEnv sampleLog).lastAppliedTerm) ↔
    (sampleFSM.applyAll sampleEnv sampleLog).lastAppliedIndex = 0 ∧
      (sampleFSM.applyAll sampleEnv sampleLog).lastAppliedTerm = 0 := by
  obtain ⟨g, hg⟩ : ∃ g, sampleRestored = (g, none) := ⟨_, sampleRestored_eq⟩
  rw [hg]
  rw [sampleRestored, samplePersisted] at hg
  exact restore_position_iff sampleEnv_roundTrips sampleFSM sampleLog sampleTime sampleTime samplePersisted_ok hg

/-- The snapshot of the state machine at index 5 of term 2 is persisted and restored without an error, and the
position after it is 0. -/
theorem BloomFSM.restore_position_lost :
    samplePersisted.2 = none ∧ sampleRestored.2 = none ∧
    ¬ (sampleRestored.1.lastAppliedIndex = (sampleFSM.applyAll sampleEnv sampleLog).lastAppliedIndex ∧
      sampleRestored.1.lastAppliedTerm = (sampleFSM.applyAll sampleEnv sampleLog).lastAppliedTerm) := by
  rw [samplePersisted_eq, sampleRestored_eq, sampleFSM_applyAll]
  decide

end DistributedBloomFilter
