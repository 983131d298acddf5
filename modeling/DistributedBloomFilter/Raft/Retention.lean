import DistributedBloomFilter.Raft.Logged

/-!
# Snapshots and the deletion of old log files

A state machine with a log, whose snapshots are taken and persisted while entries are applied.  `cleanupOldFiles`
keeps the newest `maxFiles` files and does not know of the snapshots.  A command after the last persisted snapshot is
still in the log as long as, at every roll, the snapshot covers what lies in the files that go.
-/

namespace DistributedBloomFilter

open Run (exec Admits)

/-- The number of records in all but the newest `keep` files. -/
def History.older (h : History) (keep : Nat) : Nat := (h.files.take (h.files.length - keep)).flatten.length

/-- The snapshots that were taken, with the last index applied before; the index of the last one that was persisted;
and the log index and the WAL entry of every command that returned nil. -/
structure SnapshotRun where
  fsm : BloomFSM History
  taken : List (FsmSnapshot × UInt64)
  persisted : Option UInt64
  applied : List (UInt64 × Bytes)

namespace SnapshotRun

inductive Event where
  | apply (c : ApplyCall)
  | snapshot (now : Time)
  /-- `Persist` of one of the snapshots, with what the sink answers to `Write` and to `Close` -/
  | persist (i : Nat) (now : Time) (writeErr closeErr : Option String)

section Steps

variable (env : Env History) (aead : Aead) (config : WALConfig)

def start (enc : WALEncryptor) (m k : Nat) (now : Time) : SnapshotRun :=
  { fsm := .newLogged aead config enc m k now, taken := [], persisted := none, applied := [] }

/-- The log index and the WAL entry of an entry whose command returns nil. -/
def recorded (f : BloomFSM History) (c : ApplyCall) : List (UInt64 × Bytes) :=
  match BloomFSM.parseCommand env c.log.data with
  | .error _ => []
  | .ok cmd =>
    if (BloomFSM.execute env f.bloom cmd).2 = none then
      match BloomFSM.walEntry env c cmd with
      | .ok text => [(c.log.index, text)]
      | .error _ => []
    else []

def step (s : SnapshotRun) : Event → SnapshotRun
  | .apply c =>
    { s with fsm := s.fsm.applyLogged env aead config c, applied := s.applied ++ recorded env s.fsm c }
  | .snapshot now => { s with taken := s.taken ++ [(s.fsm.snapshot env now, s.fsm.lastAppliedIndex)] }
  | .persist i now writeErr closeErr =>
    match s.taken[i]? with
    | none => s
    | some (snapshot, index) =>
      if (snapshot.persist env now (.fresh writeErr closeErr)).2 = none then { s with persisted := some index } else s

/-- The last persisted snapshot was taken at the index or after it. -/
def Covered (s : SnapshotRun) (index : UInt64) : Prop := ∃ p ∈ s.persisted, index ≤ p

/-- Every command after the last persisted snapshot is among the records `ReadAll` returns. -/
def Retains (s : SnapshotRun) : Prop :=
  ∃ h results, s.fsm.walWriter = some h ∧ readAll aead h.enc h.dir = .ok results ∧
    ∀ a ∈ s.applied, ¬ s.Covered a.1 → a.2 ∈ results

/-- No call of the log fails. -/
def WalOk (s : SnapshotRun) : Event → Prop
  | .apply c => s.fsm.WalOk env aead c
  | .snapshot _ | .persist .. => True

/-- When the record needs a roll, the snapshot covers all but the newest `maxFiles - 1` files; lengths and numbers of
files are within their formats; and the persisted index does not go back. -/
def Covering (s : SnapshotRun) : Event → Prop
  | .apply c => ∀ h ∈ s.fsm.walWriter, ∀ a ∈ recorded env s.fsm c,
      a.2.length < 2 ^ 32 - 64 ∧ h.files.length + 1 < 10 ^ 6 ∧
      ∀ w ∈ h.writer, w.Rolls c.write.now a.2 →
        ∀ b ∈ s.applied.take (h.older (config.maxFiles.toNat - 1)), s.Covered b.1
  | .snapshot _ => True
  | .persist i now writeErr closeErr => ∀ p ∈ s.persisted, ∀ x ∈ s.taken[i]?,
      (x.1.persist env now (.fresh writeErr closeErr)).2 = none → p ≤ x.2

end Steps

end SnapshotRun

variable {env : Env History} {aead : Aead} {config : WALConfig}

/-! ### What a `Write` does to the files -/

namespace History

theorem older_concat {h : History} {pss : List (List Bytes)} {ps : List Bytes} (hfiles : h.files = pss ++ [ps])
    {keep : Nat} (hkeep : 1 ≤ keep) : h.older keep = (pss.take (pss.length + 1 - keep)).flatten.length := by
  rw [older, hfiles, List.length_append, List.length_singleton, List.take_append_of_le_length (by omega)]

/-- What was acknowledged is in the older files or in the newest `keep`. -/
theorem acked_split {h : History} (hinv : h.Inv aead config) (keep : Nat) :
    h.acked = (h.files.take (h.files.length - keep)).flatten ++ (h.files.drop (h.files.length - keep)).flatten := by
  rw [hinv.acked, ← List.flatten_append, List.take_append_drop]

theorem older_le {h : History} (hinv : h.Inv aead config) (keep : Nat) : h.older keep ≤ h.acked.length := by
  rw [acked_split hinv keep, List.length_append]
  exact Nat.le_add_right ..

/-- The records that are not in the older files are in the newer ones. -/
theorem drop_older {h : History} (hinv : h.Inv aead config) (keep : Nat) :
    h.acked.drop (h.older keep) = (h.files.drop (h.files.length - keep)).flatten := by
  rw [acked_split hinv keep, older]
  exact List.drop_left

/-- Only a roll makes more files old. -/
theorem older_step_write (hmax : 1 ≤ config.maxFiles) {h : History} (hinv : h.Inv aead config) {w : WALWriter}
    (hw : h.writer = some w) {t : WriteInput} {data : Bytes} (hwrites : h.Writes aead t data) :
    (h.step aead config (.write t.now t.later t.rand data)).older config.maxFiles.toNat =
        h.older config.maxFiles.toNat ∨
      w.Rolls t.now data ∧ (h.step aead config (.write t.now t.later t.rand data)).older config.maxFiles.toNat =
        h.older (config.maxFiles.toNat - 1) := by
  have hkeep : 1 ≤ config.maxFiles.toNat := by omega
  obtain ⟨pss, ps, hfiles, hsame | ⟨hrolls, hnew⟩⟩ := files_step_write config hinv hw hwrites
  · left
    rw [older_concat hsame hkeep, older_concat hfiles hkeep]
  · right
    refine ⟨hrolls, ?_⟩
    have hcount : h.files.length + 1 - config.maxFiles.toNat = h.files.length - (config.maxFiles.toNat - 1) := by
      omega
    rw [older_concat hnew hkeep, hcount, older]

/-- After a roll the payload is alone in its file, and no more than `maxFiles` files are left. -/
theorem step_write_of_rolls (hmax : 1 ≤ config.maxFiles) {h : History} (hinv : h.Inv aead config) {w : WALWriter}
    (hw : h.writer = some w) (hcount : h.files.length + 1 < 10 ^ 6) {t : WriteInput} {data : Bytes}
    (hwrites : h.Writes aead t data) (hrolls : w.Rolls t.now data) :
    ∃ w', (h.step aead config (.write t.now t.later t.rand data)).writer = some w' ∧ w'.currentTime = t.later ∧
      (h.step aead config (.write t.now t.later t.rand data)).files = h.files ++ [[data]] ∧
      (h.step aead config (.write t.now t.later t.rand data)).dir.length ≤ config.maxFiles.toNat := by
  obtain ⟨hconfig, hindex, olds, f, first, hdir, hactive⟩ := hinv.active hw
  obtain ⟨w', hw', hok⟩ := hwrites
  obtain rfl : w' = w := Option.some.inj (hw'.symm.trans hw)
  obtain ⟨hne, htime, hlen⟩ := WALWriter.write_rolls hactive (by rw [hconfig]; exact hmax) (by omega) rfl
    (hdir ▸ hok) hrolls
  rw [← hdir] at hne htime hlen
  simp only [step, hw, hok, filesAfter, if_neg hne, List.modifyLast_concat]
  exact ⟨_, rfl, htime, rfl, hconfig ▸ hlen⟩

end History

/-! ### Runs -/

namespace SnapshotRun

/-- The log has the entries of the commands in order, and those in files that may be gone are covered. -/
def Inv (aead : Aead) (config : WALConfig) (s : SnapshotRun) : Prop :=
  ∃ h, s.fsm.walWriter = some h ∧ h.Inv aead config ∧ s.applied.map Prod.snd = h.acked ∧
    ∀ a ∈ s.applied.take (h.older config.maxFiles.toNat), s.Covered a.1

theorem inv_new (hmax : 1 ≤ config.maxFiles) (enc : WALEncryptor) (m k : Nat) (now : Time) :
    (start aead config enc m k now).Inv aead config := by
  obtain ⟨w, g, hnew, hinv⟩ := History.new_log aead hmax enc now
  refine ⟨_, rfl, hinv, ?_, fun a ha => ?_⟩
  · rw [hnew]; rfl
  · rw [start, List.take_nil] at ha
    cases ha

theorem inv_apply (hmax : 1 ≤ config.maxFiles) {s : SnapshotRun} {c : ApplyCall} (hs : s.Inv aead config)
    (hwal : s.WalOk env aead (.apply c)) (hcov : s.Covering env config (.apply c)) :
    (s.step env aead config (.apply c)).Inv aead config := by
  obtain ⟨h, hh, hinv, happlied, hold⟩ := hs
  have hrecorded : ∀ cmd, BloomFSM.parseCommand env c.log.data = .ok cmd → recorded env s.fsm c =
      if (BloomFSM.execute env s.fsm.bloom cmd).2 = none then
        match BloomFSM.walEntry env c cmd with
        | .ok text => [(c.log.index, text)]
        | .error _ => []
      else [] := fun cmd hcmd => by rw [recorded, hcmd]
  simp only [step]
  cases hcmd : BloomFSM.parseCommand env c.log.data with
  | error err =>
    rw [BloomFSM.applyLogged_of_error hcmd, recorded, hcmd]
    dsimp only
    rw [List.append_nil]
    exact ⟨h, hh, hinv, happlied, hold⟩
  | ok cmd =>
    by_cases hok : (BloomFSM.execute env s.fsm.bloom cmd).2 = none
    · obtain ⟨text, h', htext, hh', hwrites⟩ := hwal cmd hcmd hok
      obtain rfl : h' = h := Option.some.inj (hh'.symm.trans hh)
      have hrec : recorded env s.fsm c = [(c.log.index, text)] := by rw [hrecorded cmd hcmd, if_pos hok, htext]
      obtain ⟨hdata, hcount, hroll⟩ := hcov h' hh (c.log.index, text) (by rw [hrec]; exact List.mem_singleton.2 rfl)
      rw [BloomFSM.applyLogged_of_recorded hcmd hok htext hh, hrec]
      refine ⟨_, rfl, History.inv_step_write_of_lt hmax hinv hwrites hdata hcount, ?_, fun a ha => ?_⟩
      · rw [History.acked_step_write hwrites, List.map_append, happlied]
        rfl
      · -- the new entry is not in an old file
        obtain ⟨w, hw, _⟩ := id hwrites
        have hlen : s.applied.length = h'.acked.length := by rw [← happlied, List.length_map]
        dsimp only at ha
        rcases History.older_step_write hmax hinv hw hwrites with hsame | ⟨hrolls, hnew⟩
        · rw [hsame, List.take_append_of_le_length (hlen ▸ History.older_le hinv _)] at ha
          exact hold a ha
        · rw [hnew, List.take_append_of_le_length (hlen ▸ History.older_le hinv _)] at ha
          exact hroll w hw hrolls a ha
    · rw [BloomFSM.applyLogged_of_failed hcmd hok, hrecorded cmd hcmd, if_neg hok, List.append_nil]
      exact ⟨h, hh, hinv, happlied, hold⟩

theorem inv_step (hmax : 1 ≤ config.maxFiles) (s : SnapshotRun) (e : Event) (hs : s.Inv aead config)
    (he : s.WalOk env aead e ∧ s.Covering env config e) : (s.step env aead config e).Inv aead config := by
  cases e with
  | apply c => exact inv_apply hmax hs he.1 he.2
  | snapshot now => exact hs
  | persist i now writeErr closeErr =>
    simp only [step]
    split
    · exact hs
    · rename_i snapshot index htaken
      split
      · rename_i hok
        -- what the old snapshot covers, the new one covers
        obtain ⟨h, hh, hinv, happlied, hold⟩ := hs
        refine ⟨h, hh, hinv, happlied, fun a ha => ?_⟩
        obtain ⟨p, hp, hle⟩ := hold a ha
        exact ⟨index, rfl, UInt64.le_trans hle (he.2 p hp _ htaken hok)⟩
      · exact hs

theorem Inv.retains {s : SnapshotRun} (hs : s.Inv aead config) : s.Retains aead := by
  obtain ⟨h, hh, hinv, happlied, hold⟩ := hs
  obtain ⟨results, hread, _, hnewest, _⟩ := hinv.recovers
  refine ⟨h, results, hh, hread, fun a ha hcov => hnewest.subset ?_⟩
  rw [← History.drop_older hinv, ← happlied, ← List.map_drop]
  rw [← List.take_append_drop (h.older config.maxFiles.toNat) s.applied, List.mem_append] at ha
  rcases ha with hgone | hkept
  · exact absurd (hold a hgone) hcov
  · exact List.mem_map_of_mem hkept

/-- As long as every roll only deletes what the last persisted snapshot covers, every command after that snapshot is
read back. -/
theorem retains_of_covering (hmax : 1 ≤ config.maxFiles) (enc : WALEncryptor) (m k : Nat) (now : Time)
    {es : List Event}
    (hes : Admits (step env aead config) (fun s e => s.WalOk env aead e ∧ s.Covering env config e)
      (start aead config enc m k now) es) :
    (exec (step env aead config) (start aead config enc m k now) es).Retains aead :=
  (Run.invariant (inv_step hmax) (inv_new hmax enc m k now) hes).retains

/-! ### Adds six minutes apart -/

open BloomFSM (repoEnv)

/-- So many times six minutes after the sample's time. -/
def spacedTime (n : Nat) : Time := sampleTime + n * 360000000000

/-- The entry with log index `n + 1`, which adds `a`. -/
def spacedAdd (n : Nat) : ApplyCall :=
  ⟨spacedTime (n + 1), ⟨spacedTime (n + 1), spacedTime (n + 1), KeyRun.randomNonce⟩,
    ⟨UInt64.ofNat (n + 1), 1, addText⟩⟩

/-- The text of its WAL entry. -/
def spacedText (n : Nat) : Bytes :=
  (⟨"add", [97], Int64.ofInt (spacedTime (n + 1)), UInt64.ofNat (n + 1), 1⟩ : FSMCommand).text

/-- The adds from the `i`-th on. -/
def spacedAdds (i n : Nat) : List Event := (List.range' i n).map fun i => .apply (spacedAdd i)

def spacedStart : SnapshotRun := start AesGcm.aead defaultWALConfig KeyRun.secretEncryptor 2 1 sampleTime

/-- The filter after so many adds. -/
def addTimes : Nat → CountingBloomFilter
  | 0 => newCountingBloomFilter 2 1
  | n + 1 => ((addTimes n).add Murmur3.sum32 [97]).1

/-- After `n` of the adds every entry has a file of its own, behind the empty one of the start, and no more than ten
files are left. -/
structure Spaced (persisted : Option UInt64) (n : Nat) (s : SnapshotRun) (h : History) (w : WALWriter) : Prop where
  fsm : s.fsm =
    { bloom := addTimes n, walWriter := some h, lastAppliedIndex := UInt64.ofNat n,
      lastAppliedTerm := if n = 0 then 0 else 1, startTime := sampleTime }
  writer : h.writer = some w
  time : w.currentTime = spacedTime n
  inv : h.Inv AesGcm.aead defaultWALConfig
  enc : h.enc = KeyRun.secretEncryptor
  files : h.files = [] :: (List.range n).map fun i => [spacedText i]
  few : h.dir.length ≤ 10
  persisted : s.persisted = persisted
  applied : s.applied = (List.range n).map fun i => (UInt64.ofNat (i + 1), spacedText i)

theorem spaced_start : ∃ h w, Spaced none 0 spacedStart h w := by
  have hmax : 1 ≤ defaultWALConfig.maxFiles := by decide
  obtain ⟨w, g, hnew, hinv⟩ := History.new_log AesGcm.aead hmax KeyRun.secretEncryptor sampleTime
  have htime : ((History.start KeyRun.secretEncryptor).step AesGcm.aead defaultWALConfig
      (.restart sampleTime)).writer.map WALWriter.currentTime = some (spacedTime 0) := rfl
  rw [hnew] at htime
  refine ⟨_, w, rfl, by rw [hnew], Option.some.inj htime, hinv, ?_, ?_, ?_, rfl, rfl⟩ <;> rw [hnew]
  · rfl
  · show 1 ≤ 10
    decide

private theorem execute_addTimes : ∀ n < 11,
    BloomFSM.execute repoEnv (addTimes n) ⟨"add", [97], zeroTime⟩ = (addTimes (n + 1), none) := by
  have hadd : ∀ n < 11, ((addTimes n).add Murmur3.sum32 [97]).2 = none := by decide +kernel
  intro n hn
  exact Prod.ext rfl (hadd n hn)

private theorem walEntry_spacedAdd (n : Nat) :
    BloomFSM.walEntry repoEnv (spacedAdd n) ⟨"add", [97], zeroTime⟩ = .ok (spacedText n) := rfl

/-- The entries are short, and the first one is not among the others. -/
private theorem spacedText_spec :
    (∀ n < 11, (spacedText n).length < 2 ^ 32 - 64) ∧
      ∀ i ∈ (List.range 11).drop 1, spacedText i ≠ spacedText 0 := by
  decide +kernel

private theorem rolls_spaced {w : WALWriter} (hconfig : w.config = defaultWALConfig) {n : Nat}
    (htime : w.currentTime = spacedTime n) (data : Bytes) : w.Rolls (spacedTime (n + 1)) data := by
  have hsub : ∀ a b : Int, a + (b + 1) * 360000000000 - (a + b * 360000000000) = 360000000000 := by
    intro a b
    omega
  have hsix : spacedTime (n + 1) - spacedTime n = (360000000000 : Int) := hsub sampleTime n
  right
  rw [hconfig, htime, hsix]
  decide

section Spaced

variable {persisted : Option UInt64} {n : Nat} {s : SnapshotRun} {h : History} {w : WALWriter}

private theorem recorded_spacedAdd (hn : n < 11) (hs : Spaced persisted n s h w) :
    recorded repoEnv s.fsm (spacedAdd n) = [(UInt64.ofNat (n + 1), spacedText n)] := by
  have hcmd : BloomFSM.parseCommand repoEnv (spacedAdd n).log.data = .ok ⟨"add", [97], zeroTime⟩ :=
    BloomFSM.parseCommand_addText
  rw [recorded, hcmd, hs.fsm]
  dsimp only
  rw [execute_addTimes n hn, if_pos rfl, walEntry_spacedAdd n]
  rfl

theorem spaced_step (hn : n < 11) (hs : Spaced persisted n s h w) :
    s.WalOk repoEnv AesGcm.aead (.apply (spacedAdd n)) ∧
      ∃ h' w', Spaced persisted (n + 1)
        (s.step repoEnv AesGcm.aead defaultWALConfig (.apply (spacedAdd n))) h' w' := by
  have hmax : 1 ≤ defaultWALConfig.maxFiles := by decide
  have hcmd : BloomFSM.parseCommand repoEnv (spacedAdd n).log.data = .ok ⟨"add", [97], zeroTime⟩ :=
    BloomFSM.parseCommand_addText
  have hlog : s.fsm.walWriter = some h := by rw [hs.fsm]
  have hcount : h.files.length + 1 < 10 ^ 6 := by
    rw [hs.files, List.length_cons, List.length_map, List.length_range]
    omega
  obtain ⟨encrypted, henc⟩ : ∃ encrypted, h.enc.encrypt AesGcm.aead (spacedAdd n).write.rand (spacedText n) =
      .ok encrypted := by
    rw [hs.enc]
    exact ⟨_, rfl⟩
  have hwrites := History.writes_of_encrypt hmax hs.inv hs.writer hcount henc
  have hexec : BloomFSM.execute repoEnv s.fsm.bloom ⟨"add", [97], zeroTime⟩ = (addTimes (n + 1), none) := by
    rw [hs.fsm]
    exact execute_addTimes n hn
  have hok : (BloomFSM.execute repoEnv s.fsm.bloom ⟨"add", [97], zeroTime⟩).2 = none := by rw [hexec]
  refine ⟨?_, ?_⟩
  · intro cmd hcmd' _
    obtain rfl := Except.ok.inj (hcmd.symm.trans hcmd')
    exact ⟨_, h, walEntry_spacedAdd n, hlog, hwrites⟩
  · have hrolls := rolls_spaced (hs.inv.active hs.writer).1 hs.time (spacedText n)
    obtain ⟨w', hw', htime, hfiles, hfew⟩ :=
      History.step_write_of_rolls hmax hs.inv hs.writer hcount hwrites hrolls
    simp only [step, recorded_spacedAdd hn hs, BloomFSM.applyLogged_of_recorded hcmd hok (walEntry_spacedAdd n) hlog]
    refine ⟨_, w', ?_, hw', htime, ?_, ?_, ?_, hfew, hs.persisted, ?_⟩
    · rw [hexec, hs.fsm]
      rfl
    · exact History.inv_step_write_of_lt hmax hs.inv hwrites (spacedText_spec.1 n hn) hcount
    · exact (History.enc_step_write ..).trans hs.enc
    · rw [hfiles, hs.files, List.range_succ, List.map_append]
      rfl
    · rw [hs.applied, List.range_succ, List.map_append]
      rfl

theorem spaced_exec {k : Nat} (hn : n + k ≤ 11) (hs : Spaced persisted n s h w) :
    Admits (step repoEnv AesGcm.aead defaultWALConfig) (WalOk repoEnv AesGcm.aead) s (spacedAdds n k) ∧
      ∃ h w, Spaced persisted (n + k)
        (exec (step repoEnv AesGcm.aead defaultWALConfig) s (spacedAdds n k)) h w := by
  induction k generalizing n s h w with
  | zero => exact ⟨trivial, h, w, hs⟩
  | succ k ih =>
    obtain ⟨hwal, h', w', hs'⟩ := spaced_step (by omega) hs
    have hrest := ih (by omega) hs'
    rw [Nat.add_right_comm] at hrest
    exact ⟨⟨hwal, hrest.1⟩, hrest.2⟩

/-- Before the eleventh add, all that lies in the older files is the entry of the first. -/
private theorem covering_spacedAdd (hn : n < 11) (hs : Spaced persisted n s h w)
    (hfirst : n < 10 ∨ ∃ p ∈ persisted, 1 ≤ p) : s.Covering repoEnv defaultWALConfig (.apply (spacedAdd n)) := by
  intro h' hh' a ha
  obtain rfl : h = h' := by
    rw [hs.fsm] at hh'
    exact Option.some.inj hh'
  rw [recorded_spacedAdd hn hs] at ha
  obtain rfl := List.mem_singleton.1 ha
  have holder : h.older (defaultWALConfig.maxFiles.toNat - 1) = n - 9 := by
    have hshort : ∀ n < 11, (([] :: (List.range n).map fun i => [spacedText i]).take (n + 1 - 9)).flatten.length =
        n - 9 := by
      decide
    have hcount : h.files.length = n + 1 := by rw [hs.files, List.length_cons, List.length_map, List.length_range]
    rw [History.older, hcount, hs.files]
    exact hshort n hn
  refine ⟨spacedText_spec.1 n hn, ?_, fun w' _ _ b hb => ?_⟩
  · rw [hs.files, List.length_cons, List.length_map, List.length_range]
    omega
  · rw [holder, hs.applied] at hb
    by_cases hlt : n < 10
    · rw [Nat.sub_eq_zero_of_le (by omega), List.take_zero] at hb
      cases hb
    · obtain rfl : n = 10 := by omega
      obtain ⟨p, hp, hle⟩ := hfirst.resolve_left hlt
      have hone : b = (1, spacedText 0) := List.mem_singleton.1 hb
      exact ⟨p, by rw [hs.persisted]; exact hp, by rw [hone]; exact hle⟩

theorem covering_spacedAdds {k : Nat} (hn : n + k ≤ 11) (hs : Spaced persisted n s h w)
    (hfirst : n + k ≤ 10 ∨ ∃ p ∈ persisted, 1 ≤ p) :
    Admits (step repoEnv AesGcm.aead defaultWALConfig) (Covering repoEnv defaultWALConfig) s (spacedAdds n k) := by
  induction k generalizing n s h w with
  | zero => trivial
  | succ k ih =>
    obtain ⟨-, h', w', hs'⟩ := spaced_step (by omega) hs
    exact ⟨covering_spacedAdd (by omega) hs (hfirst.imp_left fun hle => by omega),
      ih (by omega) hs' (hfirst.imp_left fun hle => by omega)⟩

/-- After the eleventh add the entry of the first one is gone. -/
private theorem not_mem_of_spaced_eleven (hs : Spaced persisted 11 s h w) {results : List Bytes}
    (hread : readAll AesGcm.aead h.enc h.dir = .ok results) : spacedText 0 ∉ results := by
  intro hmem
  -- at least two of the twelve files are gone
  obtain ⟨d, hstored, _⟩ := hs.inv.stored
  have hlen := hstored.length_dir
  have hfew := hs.few
  have hcount : h.files.length = 12 := by rw [hs.files]; rfl
  obtain ⟨j, rfl⟩ : ∃ j, d = 2 + j := ⟨d - 2, by omega⟩
  have hfiles : h.files.drop 2 = ((List.range 11).drop 1).map fun i => [spacedText i] := by
    rw [hs.files]; rfl
  obtain rfl := Except.ok.inj ((hstored.readAll hs.inv.count).symm.trans hread)
  rw [← List.drop_drop, hfiles, ← List.map_drop] at hmem
  obtain ⟨l, hl, hmem⟩ := List.mem_flatten.1 hmem
  obtain ⟨i, hi, rfl⟩ := List.mem_map.1 hl
  exact spacedText_spec.2 i (List.mem_of_mem_drop hi) (List.mem_singleton.1 hmem).symm

end Spaced

/-- The first add, a snapshot, which is persisted, and ten more adds. -/
def coveredRun : List Event :=
  spacedAdds 0 1 ++ ([.snapshot (spacedTime 1), .persist 0 (spacedTime 1) none none] ++ spacedAdds 1 10)

/-- The snapshot after the first add. -/
private theorem spaced_persist {s : SnapshotRun} {h : History} {w : WALWriter} (hs : Spaced none 1 s h w)
    (htaken : s.taken = []) :
    Spaced (some 1) 1 (exec (step repoEnv AesGcm.aead defaultWALConfig) s
      [.snapshot (spacedTime 1), .persist 0 (spacedTime 1) none none]) h w := by
  have hpersist : ((BloomFSM.snapshot repoEnv (spacedTime 1)
      { bloom := addTimes 1, walWriter := none, lastAppliedIndex := 1, lastAppliedTerm := 1,
        startTime := sampleTime }).persist repoEnv (spacedTime 1) (.fresh none none)).2 = none := by
    decide +kernel
  have hsnapshot : s.fsm.snapshot repoEnv (spacedTime 1) = BloomFSM.snapshot repoEnv (spacedTime 1)
      { bloom := addTimes 1, walWriter := none, lastAppliedIndex := 1, lastAppliedTerm := 1,
        startTime := sampleTime } := by
    rw [hs.fsm]
    rfl
  have hindex : s.fsm.lastAppliedIndex = 1 := by rw [hs.fsm]; rfl
  have hexec : exec (step repoEnv AesGcm.aead defaultWALConfig) s
      [.snapshot (spacedTime 1), .persist 0 (spacedTime 1) none none] =
        { s with taken := [(s.fsm.snapshot repoEnv (spacedTime 1), 1)], persisted := some 1 } := by
    simp only [Run.exec_cons, Run.exec_nil, step, htaken, List.nil_append, List.getElem?_cons_zero, hindex, hsnapshot,
      hpersist, if_pos]
  rw [hexec]
  exact ⟨hs.fsm, hs.writer, hs.time, hs.inv, hs.enc, hs.files, hs.few, rfl, hs.applied⟩

/-- The eleventh add rolls and deletes the entry of the first, which the snapshot covers; the ten entries after the
snapshot are read back. -/
theorem retains_coveredRun :
    (exec (step repoEnv AesGcm.aead defaultWALConfig) spacedStart coveredRun).persisted = some 1 ∧
    (∀ h ∈ (exec (step repoEnv AesGcm.aead defaultWALConfig) spacedStart coveredRun).fsm.walWriter, ∀ results,
      readAll AesGcm.aead h.enc h.dir = .ok results → spacedText 0 ∉ results) ∧
    (exec (step repoEnv AesGcm.aead defaultWALConfig) spacedStart coveredRun).Retains AesGcm.aead := by
  obtain ⟨h, w, hs⟩ := spaced_start
  obtain ⟨hwal, h₁, w₁, hs₁⟩ := spaced_exec (show 0 + 1 ≤ 11 by decide) hs
  have hs₂ := spaced_persist hs₁ rfl
  obtain ⟨hwal', h₃, w₃, hs₃⟩ := spaced_exec (show 1 + 10 ≤ 11 by decide) hs₂
  have hcov := covering_spacedAdds (show 0 + 1 ≤ 11 by decide) hs (.inl (by decide))
  have hcov' := covering_spacedAdds (show 1 + 10 ≤ 11 by decide) hs₂ (.inr ⟨1, rfl, by decide⟩)
  have hpersist : ∀ s : SnapshotRun, s.persisted = none →
      s.Covering repoEnv defaultWALConfig (.persist 0 (spacedTime 1) none none) := by
    intro s hs p hp
    rw [hs] at hp
    cases hp
  have hadmits : Admits (step repoEnv AesGcm.aead defaultWALConfig)
      (fun s e => s.WalOk repoEnv AesGcm.aead e ∧ s.Covering repoEnv defaultWALConfig e) spacedStart coveredRun := by
    rw [Run.admits_and, coveredRun, Run.admits_append, Run.admits_append, Run.admits_append, Run.admits_append]
    exact ⟨⟨hwal, ⟨trivial, trivial, trivial⟩, hwal'⟩, hcov, ⟨trivial, hpersist _ hs₁.persisted, trivial⟩, hcov'⟩
  have hexec : Spaced (some 1) 11
      (exec (step repoEnv AesGcm.aead defaultWALConfig) spacedStart coveredRun) h₃ w₃ := by
    rw [coveredRun, Run.exec_append, Run.exec_append]
    exact hs₃
  refine ⟨hexec.persisted, fun h hh results hread => ?_,
    retains_of_covering (by decide) KeyRun.secretEncryptor 2 1 sampleTime hadmits⟩
  rw [hexec.fsm] at hh
  obtain rfl := Option.some.inj hh
  exact not_mem_of_spaced_eleven hexec hread

/-- Eleven adds, each in a file of its own, and no snapshot: the eleventh roll deletes the entry of the first. -/
theorem not_retains_spacedAdds :
    Admits (step repoEnv AesGcm.aead defaultWALConfig) (WalOk repoEnv AesGcm.aead) spacedStart (spacedAdds 0 11) ∧
    ¬ (exec (step repoEnv AesGcm.aead defaultWALConfig) spacedStart (spacedAdds 0 11)).Retains AesGcm.aead := by
  obtain ⟨h, w, hs⟩ := spaced_start
  obtain ⟨hadm, h, w, hs⟩ := spaced_exec (show 0 + 11 ≤ 11 by decide) hs
  refine ⟨hadm, ?_⟩
  rintro ⟨h', results, hh', hread, hall⟩
  rw [hs.fsm] at hh'
  obtain rfl := Option.some.inj hh'
  refine not_mem_of_spaced_eleven hs hread ?_
  refine hall (1, spacedText 0) (by rw [hs.applied]; exact List.mem_cons_self) ?_
  rintro ⟨p, hp, _⟩
  rw [hs.persisted] at hp
  cases hp

end SnapshotRun

end DistributedBloomFilter
