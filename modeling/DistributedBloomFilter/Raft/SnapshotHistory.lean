import DistributedBloomFilter.Raft.SnapshotManager

/-!
# The snapshot that is loaded

Sequences of `CreateSnapshot` and `SaveSnapshot`, in any directory.  `LoadSnapshot` returns what was saved last if
every save is under a name that comes after those of all snapshot files that are there, and a save for which this
fails is not seen (`newest_of_sortsLast`).  The indices of the snapshots grow, but a name with one more digit in the
index comes after the others only if its leading digits are greater (`comesLast_iff`), as from 8 to 90 and not from 9
to 10.
-/

namespace DistributedBloomFilter

open Run (exec Admits)

/-- A snapshot that was saved. -/
structure Saved where
  key : SnapshotKey
  data : Bytes
deriving DecidableEq

/-- A manager with its directory, and the last `SaveSnapshot` that returned nil. -/
structure SnapshotHistory where
  sm : SnapshotManager
  dir : Dir
  last : Option Saved

namespace SnapshotHistory

open SnapshotManager

inductive Event where
  | createSnapshot (index term : UInt64) (timestamp statsTime lastTime : Time)
  | saveSnapshot (data : Bytes) (now : Time) (rand : Except String (BytesN 12)) (io : SaveIO)

def start (sm : SnapshotManager) (dir : Dir) : SnapshotHistory := { sm := sm, dir := dir, last := none }

variable {W : Type} (aead : Aead) (env : Env W)

def step (s : SnapshotHistory) : Event → SnapshotHistory
  | .createSnapshot index term timestamp statsTime lastTime =>
    { s with sm := (s.sm.createSnapshot env index term timestamp statsTime lastTime).1 }
  | .saveSnapshot data now rand io =>
    let result := s.sm.saveSnapshot aead s.dir data now rand io
    { s with
      dir := result.1
      last := if result.2 = none then some ⟨s.sm.key now, data⟩ else s.last }

/-- The name of the file that a save at `now` writes to. -/
def nameAt (s : SnapshotHistory) (now : Time) : String := (s.sm.key now).fileName (extension s.sm.encryptor)

/-- The name a save at `now` writes to comes after those of all other snapshot files. -/
def ComesLast (s : SnapshotHistory) (now : Time) : Prop :=
  ∀ f ∈ s.dir, Dir.Matches "snapshot_" (extension s.sm.encryptor) f.name → f.name = s.nameAt now ∨
    f.name < s.nameAt now

/-- A save is under a name that comes after those of all other snapshot files.  One that fails to write leaves no
file, or one under a name that comes before that of the last snapshot. -/
def SortsLast (s : SnapshotHistory) : Event → Prop
  | .createSnapshot .. => True
  | .saveSnapshot data now _ io =>
    match io.writeFile with
    | none => s.ComesLast now ∧ Fits s.sm.encryptor data
    | some (_, none) => True
    | some (_, some _) => ∀ r ∈ s.last, (s.sm.key now).Before r.key

instance (s : SnapshotHistory) (now : Time) : Decidable (s.ComesLast now) := inferInstanceAs (Decidable (∀ _ ∈ _, _))

instance (s : SnapshotHistory) : ∀ e : Event, Decidable (s.SortsLast e)
  | .createSnapshot .. => .isTrue trivial
  | .saveSnapshot data now _ ⟨_, none⟩ => inferInstanceAs (Decidable (s.ComesLast now ∧ Fits s.sm.encryptor data))
  | .saveSnapshot _ _ _ ⟨_, some (_, none)⟩ => .isTrue trivial
  | .saveSnapshot _ now _ ⟨_, some (_, some _)⟩ =>
    inferInstanceAs (Decidable (∀ r ∈ s.last, (s.sm.key now).Before r.key))

/-- What `LoadSnapshot` returns if `os.ReadFile` does not fail. -/
def loaded (s : SnapshotHistory) : Except Failure Bytes := s.sm.loadSnapshot aead s.dir none

/-- `LoadSnapshot` returns what was saved last. -/
def Newest (s : SnapshotHistory) : Prop := ∀ r ∈ s.last, s.loaded aead = .ok r.data

/-- The last snapshot is in the file that is read. -/
structure Inv (s : SnapshotHistory) : Prop where
  configured : s.sm.snapshotDir ≠ ""
  last : ∀ r ∈ s.last, ∃ f, f.name = r.key.fileName (extension s.sm.encryptor) ∧
    IsLatest aead s.sm.encryptor s.dir f r.data

variable {aead env} {s : SnapshotHistory}

theorem Inv.newest (h : s.Inv aead) : s.Newest aead := by
  intro r hr
  obtain ⟨f, -, hf⟩ := h.last r hr
  exact hf.loadSnapshot h.configured

/-- Among the files of managers, whose names are made of an index and a time, the leading digits of these decide. -/
theorem comesLast_iff (hkeys : ∀ f ∈ s.dir, Dir.Matches "snapshot_" (extension s.sm.encryptor) f.name →
    ∃ k : SnapshotKey, f.name = k.fileName (extension s.sm.encryptor)) (now : Time) :
    s.ComesLast now ↔ ∀ k : SnapshotKey, (∃ f ∈ s.dir, f.name = k.fileName (extension s.sm.encryptor)) →
      k = s.sm.key now ∨ k.Before (s.sm.key now) := by
  constructor
  · rintro h k ⟨f, hf, hname⟩
    have hlt := h f hf (hname ▸ k.matches_fileName _)
    rw [hname] at hlt
    exact hlt.imp (fun heq => SnapshotKey.fileName_injective _ heq) (SnapshotKey.fileName_lt_iff k _ _).1
  · intro h f hf hmatch
    obtain ⟨k, hname⟩ := hkeys f hf hmatch
    rw [hname]
    exact (h k ⟨f, hf, hname⟩).imp (fun heq => by rw [heq]; rfl) (SnapshotKey.fileName_lt_iff k _ _).2

/-- A name that does not come after those of all snapshot files comes before that of the last snapshot. -/
theorem nameAt_lt_of_not_comesLast {now : Time} (hlast : ¬ s.ComesLast now) {f : File} {data : Bytes}
    (hf : IsLatest aead s.sm.encryptor s.dir f data) : s.nameAt now < f.name := by
  obtain ⟨g, hg, hmatch, hne, hlt⟩ : ∃ g ∈ s.dir, Dir.Matches "snapshot_" (extension s.sm.encryptor) g.name ∧
      g.name ≠ s.nameAt now ∧ ¬ g.name < s.nameAt now := by
    simpa [ComesLast, not_or] using hlast
  have hafter : s.nameAt now < g.name := lt_of_le_of_ne (not_lt.1 hlt) hne.symm
  rcases hf.latest g hg hmatch with rfl | hgf
  · exact hafter
  · exact hafter.trans hgf

variable (aead env) in
/-- What a save does to the history. -/
theorem step_save_cases (hconf : s.sm.snapshotDir ≠ "") (data : Bytes) (now : Time) (rand : Except String (BytesN 12))
    (io : SaveIO) :
    (∃ bytes, io.writeFile = none ∧ Holds aead s.sm.encryptor data bytes ∧
      s.step aead env (.saveSnapshot data now rand io) =
        { s with dir := s.dir.writeFile (s.nameAt now) bytes now, last := some ⟨s.sm.key now, data⟩ }) ∨
    s.step aead env (.saveSnapshot data now rand io) = s ∨
    (∃ err n bytes, io.writeFile = some (err, some n) ∧
      s.step aead env (.saveSnapshot data now rand io) =
        { s with dir := s.dir.writeFile (s.nameAt now) bytes now }) := by
  unfold step
  rcases saveSnapshot_cases aead hconf s.dir data now rand io with
    ⟨bytes, hio, hholds, h⟩ | ⟨err, h⟩ | ⟨err, n, bytes, hio, h⟩
  · exact .inl ⟨bytes, hio, hholds, by simp [h, nameAt]⟩
  · exact .inr (.inl (by simp [h]))
  · exact .inr (.inr ⟨err, n, bytes, hio, by simp [h, nameAt]⟩)

theorem inv_step (h : s.Inv aead) (e : Event) (he : s.SortsLast e) : (s.step aead env e).Inv aead := by
  cases e with
  | createSnapshot index term timestamp statsTime lastTime =>
    obtain ⟨henc, hdir⟩ := createSnapshot_keeps env s.sm index term timestamp statsTime lastTime
    unfold step
    refine ⟨?_, ?_⟩
    · rw [hdir]; exact h.configured
    · dsimp only; rw [henc]; exact h.last
  | saveSnapshot data now rand io =>
    rcases step_save_cases aead env h.configured data now rand io with
      ⟨bytes, hio, hholds, heq⟩ | heq | ⟨err, n, bytes, hio, heq⟩
    · simp only [SortsLast, hio] at he
      rw [heq]
      refine ⟨h.configured, fun r hr => ?_⟩
      obtain rfl := Option.mem_some_iff.1 hr
      exact ⟨_, rfl, IsLatest.of_writeFile hholds he.2 he.1 now⟩
    · rw [heq]
      exact h
    · simp only [SortsLast, hio] at he
      rw [heq]
      refine ⟨h.configured, fun r hr => ?_⟩
      obtain ⟨f, hname, hf⟩ := h.last r hr
      refine ⟨f, hname, hf.writeFile ?_ bytes now⟩
      rw [hname]
      exact (SnapshotKey.fileName_lt_iff ..).2 (he r hr)

variable (env) in
/-- A save under a name that does not come last is not seen by `LoadSnapshot`. -/
theorem Inv.loaded_of_not_comesLast (h : s.Inv aead) {now : Time} (hlast : ¬ s.ComesLast now) (data : Bytes)
    (rand : Except String (BytesN 12)) (io : SaveIO) {r : Saved} (hr : r ∈ s.last) :
    (s.step aead env (.saveSnapshot data now rand io)).loaded aead = .ok r.data := by
  obtain ⟨f, -, hf⟩ := h.last r hr
  have hwrite : ∀ bytes, s.sm.loadSnapshot aead (s.dir.writeFile (s.nameAt now) bytes now) none = .ok r.data :=
    fun bytes => (hf.writeFile (nameAt_lt_of_not_comesLast hlast hf) bytes now).loadSnapshot h.configured
  rcases step_save_cases aead env h.configured data now rand io with
    ⟨bytes, -, -, heq⟩ | heq | ⟨err, n, bytes, -, heq⟩
  · rw [heq]; exact hwrite bytes
  · rw [heq]; exact hf.loadSnapshot h.configured
  · rw [heq]; exact hwrite bytes

theorem inv_start {sm : SnapshotManager} (hconf : sm.snapshotDir ≠ "") (dir : Dir) : (start sm dir).Inv aead where
  configured := hconf
  last := by rintro r ⟨⟩

/-- In any directory, `LoadSnapshot` returns what was saved last after every sequence of calls in which each save is
under a name that comes last, and after one more save under a name that does not come last it returns what it returned
before. -/
theorem newest_of_sortsLast {sm : SnapshotManager} (hconf : sm.snapshotDir ≠ "") (dir : Dir) {es : List Event}
    (hes : Admits (step aead env) SortsLast (start sm dir) es) :
    (exec (step aead env) (start sm dir) es).Newest aead ∧
    ∀ data now rand io, ¬ (exec (step aead env) (start sm dir) es).ComesLast now →
      ∀ r ∈ (exec (step aead env) (start sm dir) es).last,
        (step aead env (exec (step aead env) (start sm dir) es) (.saveSnapshot data now rand io)).loaded aead =
          .ok r.data := by
  have hstep : ∀ s e, s.Inv aead → s.SortsLast e → (step aead env s e).Inv aead := fun _ e h he => inv_step h e he
  have hinv := Run.invariant hstep (inv_start hconf dir) hes
  exact ⟨hinv.newest, fun data now rand io hlast r hr => hinv.loaded_of_not_comesLast env hlast data rand io hr⟩

/-! ### Two snapshots -/

/-- The text of the record of an empty filter of two counters. -/
def snapshotText (index : String) : Bytes :=
  utf8 ("\x7b\"bloom_filter\":\"AAAAAgAAAAEAAHXXE2g=\",\"metadata\":\x7b\"bloom_k\":1,\"bloom_size\":2," ++
    "\"created_by\":\"distributed-bloom-filter\",\"version\":\"1.0\"\x7d,\"timestamp\":\"2026-03-14T00:00:00Z\"," ++
    "\"index\":" ++ index ++ ",\"term\":1\x7d")

def snapshotRecord (index : UInt64) : SnapshotData :=
  toSnapshotData Crc32.checksum (newCountingBloomFilter 2 1) index 1 sampleTime

def snapshotEnv : Env Unit :=
  { sampleEnv with
    snapshotData := .ofTable
      [(snapshotRecord 9, snapshotText "9"), (snapshotRecord 10, snapshotText "10"),
       (snapshotRecord 11, snapshotText "11"), (snapshotRecord 100, snapshotText "100")] }

def managerOf (encryptor : Option WALEncryptor) : SnapshotManager :=
  newSnapshotManagerWithEncryption (some (newCountingBloomFilter 2 1)) encryptor "snapshots"

/-- A `CreateSnapshot` at an index and a `SaveSnapshot` some nanoseconds later. -/
def createAndSave (index : UInt64) (data : Bytes) (later : Time) : List Event :=
  [.createSnapshot index 1 sampleTime sampleTime sampleTime,
   .saveSnapshot data (sampleTime + later) KeyRun.randomNonce .none]

/-- Snapshots at the indices 10 and 11, and a `CreateSnapshot` at 100. -/
def tenEleven : List Event :=
  createAndSave 10 [97] 1 ++ createAndSave 11 [98] 2 ++ [.createSnapshot 100 1 sampleTime sampleTime sampleTime]

/-- A manager that finds a file of an earlier one, at the index 10 too. -/
def encrypted : SnapshotHistory :=
  start (managerOf (some KeyRun.secretEncryptor)) [⟨"snapshot_10_1773446400000000000.enc", [97], sampleTime⟩]

/-- The second snapshot is loaded, and still is after one at the index 100 was saved. -/
theorem newest_ten_eleven :
    (exec (step AesGcm.aead snapshotEnv) encrypted tenEleven).last = some ⟨⟨11, 1773446400000000002⟩, [98]⟩ ∧
    (exec (step AesGcm.aead snapshotEnv) encrypted tenEleven).Newest AesGcm.aead ∧
    (step AesGcm.aead snapshotEnv (exec (step AesGcm.aead snapshotEnv) encrypted tenEleven)
      (.saveSnapshot [99] (sampleTime + 3) KeyRun.randomNonce .none)).loaded AesGcm.aead = .ok [98] := by
  have hlast : (exec (step AesGcm.aead snapshotEnv) encrypted tenEleven).last =
      some ⟨⟨11, 1773446400000000002⟩, [98]⟩ := by decide +kernel
  have hes : Admits (step AesGcm.aead snapshotEnv) SortsLast encrypted tenEleven := by decide +kernel
  have hlater : ¬ (exec (step AesGcm.aead snapshotEnv) encrypted tenEleven).ComesLast (sampleTime + 3) := by
    decide +kernel
  obtain ⟨hnewest, hunseen⟩ := newest_of_sortsLast (by decide) _ hes
  exact ⟨hlast, hnewest, hunseen _ _ _ _ hlater _ hlast⟩

/-- The snapshot at the index 9 is loaded after one at the index 10 was saved. -/
theorem not_newest_nine_ten :
    (exec (step AesGcm.aead snapshotEnv) (start (managerOf none) [])
      (createAndSave 9 [97] 1 ++ createAndSave 10 [98] 2)).last = some ⟨⟨10, 1773446400000000002⟩, [98]⟩ ∧
    (exec (step AesGcm.aead snapshotEnv) (start (managerOf none) [])
      (createAndSave 9 [97] 1 ++ createAndSave 10 [98] 2)).loaded AesGcm.aead = .ok [97] :=
  ⟨by decide +kernel, by decide +kernel⟩

end SnapshotHistory

end DistributedBloomFilter
