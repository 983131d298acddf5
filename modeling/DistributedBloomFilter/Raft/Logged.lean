import DistributedBloomFilter.Bloom.Outstanding
import DistributedBloomFilter.Raft.Formats
import DistributedBloomFilter.Wal.History

/-!
# The state machine and its write-ahead log

`BloomFSM` over the log of `internal/wal`: what `Apply` hands to `WALWriter.Write` goes to the files of a `History`.
Only commands that returned nil are recorded.  Replaying the records on an empty filter gives the live filter as long
as a command that fails leaves the filter alone; an `Add` that meets a full counter after it has raised others does
not (`AddSettles`).
-/

namespace DistributedBloomFilter

open Run (exec Admits)

/-- What a `Write` gets from outside: the clock at its two readings, and the nonce. -/
structure WriteInput where
  now : Time
  later : Time
  rand : Except String (BytesN 12)

/-- A call of `Apply`, with the clock reading for the timestamp of the WAL entry. -/
structure ApplyCall where
  now : Time
  write : WriteInput
  log : Log

def Failure.message : Failure → String
  | .error msg => msg
  | .panic msg => msg

section Model

variable {W : Type} (env : Env W) (aead : Aead) (config : WALConfig)

namespace History

/-- The `Write` method of the log's writer, with the file system working. -/
def walWrite (t : WriteInput) (h : History) (data : Bytes) : History × Option String :=
  (h.step aead config (.write t.now t.later t.rand data),
    (h.writer.bind fun w => (w.write aead h.enc h.dir .none t.now t.later t.rand data).err).map Failure.message)

/-- The `Write` returns nil. -/
def Writes (h : History) (t : WriteInput) (data : Bytes) : Prop :=
  ∃ w ∈ h.writer, (w.write aead h.enc h.dir .none t.now t.later t.rand data).err = none

instance (h : History) (t : WriteInput) (data : Bytes) : Decidable (h.Writes aead t data) :=
  inferInstanceAs (Decidable (∃ w ∈ h.writer, _))

/-- Every file ever made is still there. -/
def NoneDeleted (h : History) : Prop := h.dir.length = h.files.length

instance (h : History) : Decidable h.NoneDeleted := inferInstanceAs (Decidable (_ = _))

end History

/-- The functions of the package, with the log for its WAL writer. -/
def Env.withLog (t : WriteInput) : Env History where
  sum32 := env.sum32
  crc32 := env.crc32
  command := env.command
  fsmCommand := env.fsmCommand
  snapshotData := env.snapshotData
  walWrite := History.walWrite aead config t

namespace BloomFSM

/-- `NewBloomFSM` with an empty filter and a new WAL directory. -/
def newLogged (enc : WALEncryptor) (m k : Nat) (now : Time) : BloomFSM History :=
  newBloomFSM (newCountingBloomFilter m k) (some ((History.start enc).step aead config (.restart now))) now

def applyLogged (f : BloomFSM History) (c : ApplyCall) : BloomFSM History :=
  (f.apply (env.withLog aead config c.write) c.now c.log).1

/-- The text of the WAL entry of a command. -/
def walEntry (c : ApplyCall) (cmd : Command) : Except String Bytes :=
  env.fsmCommand.marshal ⟨cmd.cmdType, cmd.item, Int64.ofInt c.now, c.log.index, c.log.term⟩

/-- The WAL entry of a command that returned nil is encoded, and its `Write` returns nil. -/
def WalOk (f : BloomFSM History) (c : ApplyCall) : Prop :=
  ∀ cmd, parseCommand env c.log.data = .ok cmd → (execute env f.bloom cmd).2 = none →
    ∃ text h, walEntry env c cmd = .ok text ∧ f.walWriter = some h ∧ h.Writes aead c.write text

/-- A record read back is executed as the recovery does it, without looking at the error of `Add`. -/
def replayCommand (f : CountingBloomFilter) (cmd : FSMCommand) : CountingBloomFilter :=
  if cmd.cmdType = "add" then (f.add env.sum32 cmd.item).1
  else if cmd.cmdType = "remove" then f.remove env.sum32 cmd.item
  else f

/-- The records in order; one that cannot be decoded is skipped. -/
def replay (records : List Bytes) (f : CountingBloomFilter) : CountingBloomFilter :=
  records.foldl (fun f record =>
    match env.fsmCommand.unmarshal record with
    | .ok cmd => replayCommand env f cmd
    | .error _ => f) f

/-- What is read from the log gives the live counters when it is replayed on an empty filter. -/
def Reproduced (f : BloomFSM History) : Prop :=
  ∃ h records, f.walWriter = some h ∧ readAll aead h.enc h.dir = .ok records ∧
    (replay env records (newCountingBloomFilter f.bloom.m f.bloom.k)).counters = f.bloom.counters

/-- An `Add` does all or nothing, and the length of the record fits its field. -/
def Replayable (f : BloomFSM History) (c : ApplyCall) : Prop :=
  ∀ cmd, parseCommand env c.log.data = .ok cmd →
    (cmd.cmdType = "add" → f.bloom.AddSettles env.sum32 cmd.item) ∧
    ∀ text, walEntry env c cmd = .ok text → text.length < 2 ^ 32 - 64

end BloomFSM

end Model

/-- The two fields of a record that are replayed. -/
def FSMCommand.SameEffect (a b : FSMCommand) : Prop := a.cmdType = b.cmdType ∧ a.item = b.item

variable {W : Type} {env : Env W} {aead : Aead} {config : WALConfig}

/-! ### A `Write` to a log from which nothing was deleted -/

namespace History

/-- A new log has one file, and nothing in it. -/
theorem new_log (aead : Aead) (hmax : 1 ≤ config.maxFiles) (enc : WALEncryptor) (now : Time) :
    ∃ w g, (start enc).step aead config (.restart now) = ⟨enc, [g], some w, [], [[]]⟩ ∧
      ((start enc).step aead config (.restart now)).Inv aead config := by
  have hstart : (start enc).Inv aead config := inv_start enc
  obtain ⟨d, hstored, _⟩ := hstart.stored
  obtain ⟨w, g, hstep, _⟩ := step_restart hmax hstored hstart.count now
  refine ⟨w, g, hstep, inv_restart hmax hstart now ⟨?_, trivial⟩⟩
  rw [hstep]
  show 1 < 10 ^ 6
  decide

theorem acked_step_write {h : History} {t : WriteInput} {data : Bytes} (hw : h.Writes aead t data) :
    (h.step aead config (.write t.now t.later t.rand data)).acked = h.acked ++ [data] := by
  obtain ⟨w, hwriter, hok⟩ := hw
  have hwriter' : h.writer = some w := hwriter
  simp only [step, hwriter', hok]

theorem dir_step_write {h : History} {t : WriteInput} {data : Bytes} {w : WALWriter} (hw : h.writer = some w) :
    (h.step aead config (.write t.now t.later t.rand data)).dir =
      (w.write aead h.enc h.dir .none t.now t.later t.rand data).dir := by
  simp only [step, hw]
  split <;> rfl

/-- The writer of a log is in the newest file, whose number is the number of files made so far. -/
theorem Inv.active {h : History} (hinv : h.Inv aead config) {w : WALWriter} (hw : h.writer = some w) :
    w.config = config ∧ w.currentIndex = h.files.length ∧
      ∃ olds f first, h.dir = olds ++ [f] ∧ w.Active olds f first := by
  obtain ⟨d, hstored, hrun⟩ := hinv.stored
  obtain ⟨hconfig, olds, f, _, _, hdir, _, hactive, _⟩ := hrun w hw
  refine ⟨hconfig, ?_, olds, f, d + 1, hdir, hactive⟩
  have hlen := hstored.length_dir
  rw [hdir, List.length_append, List.length_singleton] at hlen
  have hindex := hactive.index
  omega

/-- A payload goes to the newest file or, after a roll, to one of its own. -/
theorem files_step_write (config : WALConfig) {h : History} (hinv : h.Inv aead config) {w : WALWriter}
    (hw : h.writer = some w) {t : WriteInput} {data : Bytes} (hwrites : h.Writes aead t data) :
    ∃ pss ps, h.files = pss ++ [ps] ∧
      ((h.step aead config (.write t.now t.later t.rand data)).files = pss ++ [ps ++ [data]] ∨
        w.Rolls t.now data ∧
          (h.step aead config (.write t.now t.later t.rand data)).files = h.files ++ [[data]]) := by
  obtain ⟨w', hw', hok⟩ := hwrites
  obtain rfl : w' = w := Option.some.inj (hw'.symm.trans hw)
  obtain ⟨d, _, hrun⟩ := hinv.stored
  obtain ⟨_, _, _, pss, ps, _, hfiles, _⟩ := hrun w' hw
  refine ⟨pss, ps, hfiles, ?_⟩
  simp only [step, hw, hok, filesAfter]
  split
  · left
    rw [hfiles, List.modifyLast_concat]
  · rename_i hne
    right
    refine ⟨by_contra fun hno => hne (WALWriter.currentName_write_of_not_rolls hno ..), ?_⟩
    rw [List.modifyLast_concat]
    rfl

theorem inv_step_write_of_lt (hmax : 1 ≤ config.maxFiles) {h : History} (hinv : h.Inv aead config) {t : WriteInput}
    {data : Bytes} (hwrites : h.Writes aead t data) (hdata : data.length < 2 ^ 32 - 64)
    (hcount : h.files.length + 1 < 10 ^ 6) :
    (h.step aead config (.write t.now t.later t.rand data)).Inv aead config := by
  obtain ⟨w, hw, _⟩ := id hwrites
  refine inv_write hmax hinv ⟨?_, hdata⟩
  obtain ⟨pss, ps, hfiles, hsame | ⟨_, hnew⟩⟩ := files_step_write config hinv hw hwrites
  · rw [hfiles] at hcount
    rw [hsame]
    simp only [List.length_append, List.length_singleton] at hcount ⊢
    omega
  · rw [hnew, List.length_append, List.length_singleton]
    exact hcount

theorem enc_step_write (h : History) (t : WriteInput) (data : Bytes) :
    (h.step aead config (.write t.now t.later t.rand data)).enc = h.enc := by
  simp only [step]
  split
  · rfl
  · split <;> rfl

/-- A `Write` returns nil once its payload is encrypted. -/
theorem writes_of_encrypt (hmax : 1 ≤ config.maxFiles) {h : History} (hinv : h.Inv aead config) {w : WALWriter}
    (hw : h.writer = some w) (hcount : h.files.length + 1 < 10 ^ 6) {t : WriteInput} {data encrypted : Bytes}
    (henc : h.enc.encrypt aead t.rand data = .ok encrypted) : h.Writes aead t data := by
  obtain ⟨hconfig, hindex, olds, f, first, hdir, hactive⟩ := hinv.active hw
  refine ⟨w, hw, ?_⟩
  rw [hdir]
  rcases WALWriter.write_none_cases hactive (by rw [hconfig]; exact hmax) rfl (fun _ => by omega) with
    ⟨hok, _⟩ | ⟨⟨err, herr⟩, _⟩
  · exact hok
  · exact absurd (henc.symm.trans herr) (by simp)

/-- When nothing is deleted there are never more than `maxFiles` files, and the number of a new one is small. -/
theorem inv_step_write (hmax : 1 ≤ config.maxFiles) (hmax' : config.maxFiles + 1 < 10 ^ 6) {h : History}
    (hinv : h.Inv aead config) (hkept : h.NoneDeleted) (hfew : h.dir.length ≤ config.maxFiles.toNat) {t : WriteInput}
    {data : Bytes} (hdata : data.length < 2 ^ 32 - 64) (hwrites : h.Writes aead t data)
    (hkept' : (h.step aead config (.write t.now t.later t.rand data)).NoneDeleted) :
    (h.step aead config (.write t.now t.later t.rand data)).Inv aead config ∧
      (h.step aead config (.write t.now t.later t.rand data)).dir.length ≤ config.maxFiles.toNat := by
  obtain ⟨w, hw, hok⟩ := hwrites
  obtain ⟨hconfig, hindex, olds, f, first, hdir, hactive⟩ := hinv.active hw
  have hfew' : (h.step aead config (.write t.now t.later t.rand data)).dir.length ≤ config.maxFiles.toNat := by
    unfold NoneDeleted at hkept
    have hbound : w.currentIndex + 1 < 10 ^ 6 := by omega
    rw [dir_step_write hw, hdir]
    rcases WALWriter.write_none_cases hactive (by rw [hconfig]; exact hmax) rfl (fun _ => hbound) with
      ⟨_, hle⟩ | ⟨_, _, hsame⟩
    · refine hle.trans ?_
      rw [hconfig, ← hdir]
      omega
    · rw [hsame, ← hdir]
      exact hfew
  refine ⟨inv_write hmax hinv ⟨?_, hdata⟩, hfew'⟩
  unfold NoneDeleted at hkept'
  omega

/-- No file is deleted before there are more than `maxFiles`. -/
theorem Inv.noneDeleted {h : History} (hinv : h.Inv aead config) (hfew : h.files.length ≤ config.maxFiles.toNat) :
    h.NoneDeleted := by
  obtain ⟨d, hstored, _⟩ := hinv.stored
  have hlen := hstored.length_dir
  have hd := hstored.deleted
  unfold NoneDeleted
  omega

/-- A `Write` makes at most one file. -/
theorem length_files_step_write (config : WALConfig) {h : History} (hinv : h.Inv aead config) {t : WriteInput}
    {data : Bytes} (hwrites : h.Writes aead t data) :
    (h.step aead config (.write t.now t.later t.rand data)).files.length ≤ h.files.length + 1 := by
  obtain ⟨w, hw, _⟩ := id hwrites
  obtain ⟨pss, ps, hfiles, hsame | ⟨_, hnew⟩⟩ := files_step_write config hinv hw hwrites
  · rw [hsame, hfiles, List.length_append, List.length_append]
    exact Nat.le_succ _
  · rw [hnew, List.length_append, List.length_singleton]

theorem writer_step_write (h : History) (t : WriteInput) (data : Bytes) (hw : h.writer ≠ none) :
    (h.step aead config (.write t.now t.later t.rand data)).writer ≠ none := by
  simp only [step]
  split
  · exact hw
  · split <;> exact Option.some_ne_none _

theorem Inv.readAll_of_noneDeleted {h : History} (hinv : h.Inv aead config) (hkept : h.NoneDeleted) :
    readAll aead h.enc h.dir = .ok h.acked := by
  obtain ⟨d, hstored, _⟩ := hinv.stored
  obtain rfl := hstored.eq_zero_of_length_eq hkept
  rw [hstored.readAll hinv.count, hinv.acked, List.drop_zero]

end History

/-! ### Replaying the log -/

namespace BloomFSM

theorem replay_concat (records : List Bytes) (record : Bytes) (f : CountingBloomFilter) :
    replay env (records ++ [record]) f =
      match env.fsmCommand.unmarshal record with
      | .ok cmd => replayCommand env (replay env records f) cmd
      | .error _ => replay env records f := by
  rw [replay, List.foldl_append]
  rfl

theorem applyLogged_of_error {f : BloomFSM History} {c : ApplyCall} {err : String}
    (hcmd : parseCommand env c.log.data = .error err) : applyLogged env aead config f c = f := by
  have hparse : parseCommand (env.withLog aead config c.write) c.log.data = .error err := hcmd
  rw [applyLogged, apply, hparse]

/-- A command that fails is not recorded. -/
theorem applyLogged_of_failed {f : BloomFSM History} {c : ApplyCall} {cmd : Command}
    (hcmd : parseCommand env c.log.data = .ok cmd) (hfail : (execute env f.bloom cmd).2 ≠ none) :
    applyLogged env aead config f c =
      { f with
        bloom := (execute env f.bloom cmd).1, lastAppliedIndex := c.log.index, lastAppliedTerm := c.log.term } := by
  have hparse : parseCommand (env.withLog aead config c.write) c.log.data = .ok cmd := hcmd
  have hfail' : (execute (env.withLog aead config c.write) f.bloom cmd).2 ≠ none := hfail
  rw [applyLogged, apply, hparse]
  dsimp only
  rw [if_neg hfail']
  rfl

/-- A command that returns nil is. -/
theorem applyLogged_of_recorded {f : BloomFSM History} {c : ApplyCall} {cmd : Command} {text : Bytes} {h : History}
    (hcmd : parseCommand env c.log.data = .ok cmd) (hok : (execute env f.bloom cmd).2 = none)
    (htext : walEntry env c cmd = .ok text) (hh : f.walWriter = some h) :
    applyLogged env aead config f c =
      { f with
        bloom := (execute env f.bloom cmd).1
        walWriter := some (h.step aead config (.write c.write.now c.write.later c.write.rand text))
        lastAppliedIndex := c.log.index
        lastAppliedTerm := c.log.term } := by
  have hparse : parseCommand (env.withLog aead config c.write) c.log.data = .ok cmd := hcmd
  have hok' : (execute (env.withLog aead config c.write) f.bloom cmd).2 = none := hok
  have hentry : (env.withLog aead config c.write).fsmCommand.marshal
      ⟨cmd.cmdType, cmd.item, Int64.ofInt c.now, c.log.index, c.log.term⟩ = .ok text := htext
  rw [applyLogged, apply, hparse]
  dsimp only
  rw [if_pos hok', hh, Option.map_some, writeWAL, hentry]
  rfl

/-- A command that is not recorded has changed nothing. -/
private theorem bloom_of_failed {f : CountingBloomFilter} (hm : 2 ≤ f.m) {cmd : Command}
    (hsettles : cmd.cmdType = "add" → f.AddSettles env.sum32 cmd.item) (hfail : (execute env f cmd).2 ≠ none) :
    (execute env f cmd).1 = f := by
  unfold execute at hfail ⊢
  split_ifs at hfail ⊢ with hadd hremove
  · exact (hsettles hadd).add env.sum32 hm hfail
  · exact absurd rfl hfail
  · rfl

/-- A command that is recorded is replayed. -/
private theorem replayCommand_of_recorded {f : CountingBloomFilter} {cmd : Command} {cmd' : FSMCommand}
    (htype : cmd.cmdType = cmd'.cmdType) (hitem : cmd.item = cmd'.item) (hok : (execute env f cmd).2 = none) :
    replayCommand env f cmd' = (execute env f cmd).1 := by
  unfold execute at hok ⊢
  unfold replayCommand
  rw [← htype, ← hitem]
  split_ifs at hok ⊢ with hadd hremove
  · rfl
  · rfl

/-- The log has everything, and replaying it gives the live filter. -/
structure Replays (aead : Aead) (config : WALConfig) (env : Env W) (m k : Nat) (f : BloomFSM History) (h : History) :
    Prop where
  writer : f.walWriter = some h
  inv : h.Inv aead config
  kept : h.NoneDeleted
  few : h.dir.length ≤ config.maxFiles.toNat
  shape : f.bloom.m = m ∧ f.bloom.k = k
  replayed : replay env h.acked (newCountingBloomFilter m k) = f.bloom

theorem replays_new (hmax : 1 ≤ config.maxFiles) (enc : WALEncryptor) (m k : Nat) (now : Time) :
    ∃ h, Replays aead config env m k (newLogged aead config enc m k now) h := by
  obtain ⟨w, g, hnew, hinv⟩ := History.new_log aead hmax enc now
  refine ⟨_, rfl, hinv, ?_, ?_, ⟨rfl, rfl⟩, ?_⟩
  · rw [hnew]; rfl
  · rw [hnew]
    show 1 ≤ config.maxFiles.toNat
    omega
  · rw [hnew]; rfl

theorem replays_step (hJ : env.fsmCommand.RoundTrips FSMCommand.SameEffect) (hmax : 1 ≤ config.maxFiles)
    (hmax' : config.maxFiles + 1 < 10 ^ 6) {m k : Nat} (hm : 2 ≤ m) (f : BloomFSM History) (c : ApplyCall)
    (h : ∃ h, Replays aead config env m k f h)
    (hc : (f.WalOk env aead c ∧ ∀ h ∈ (applyLogged env aead config f c).walWriter, h.NoneDeleted) ∧
      f.Replayable env c) :
    ∃ h, Replays aead config env m k (applyLogged env aead config f c) h := by
  obtain ⟨h, hf⟩ := h
  obtain ⟨⟨hwal, hkept⟩, hc⟩ := hc
  cases hcmd : parseCommand env c.log.data with
  | error err =>
    rw [applyLogged_of_error hcmd]
    exact ⟨h, hf⟩
  | ok cmd =>
    obtain ⟨hsettles, hlen⟩ := hc cmd hcmd
    by_cases hok : (execute env f.bloom cmd).2 = none
    · obtain ⟨text, h', htext, hh', hwrites⟩ := hwal cmd hcmd hok
      obtain rfl : h' = h := Option.some.inj (hh'.symm.trans hf.writer)
      rw [applyLogged_of_recorded hcmd hok htext hh'] at hkept ⊢
      have hkept' := hkept _ rfl
      obtain ⟨hinv', hfew'⟩ :=
        History.inv_step_write hmax hmax' hf.inv hf.kept hf.few (hlen text htext) hwrites hkept'
      obtain ⟨cmd', hcmd', htype, hitem⟩ := hJ _ _ htext
      have hshape := shape_execute env f.bloom cmd
      refine ⟨_, rfl, hinv', hkept', hfew', ?_, ?_⟩
      · dsimp only
        rw [hshape.1, hshape.2]
        exact hf.shape
      · rw [History.acked_step_write hwrites, replay_concat, hcmd']
        dsimp only
        rw [hf.replayed]
        exact replayCommand_of_recorded htype hitem hok
    · rw [applyLogged_of_failed hcmd hok, bloom_of_failed (hf.shape.1 ▸ hm) hsettles hok]
      exact ⟨h, hf.writer, hf.inv, hf.kept, hf.few, hf.shape, hf.replayed⟩

/-- As long as every `Add` does all or nothing, no `Write` fails and no file is deleted, the log reproduces the live
filter. -/
theorem reproduced_of_replayable (hJ : env.fsmCommand.RoundTrips FSMCommand.SameEffect) (enc : WALEncryptor)
    {m k : Nat} (hm : 2 ≤ m) (now : Time) {calls : List ApplyCall}
    (hcalls : Admits (applyLogged env aead defaultWALConfig)
      (fun f c => (f.WalOk env aead c ∧ ∀ h ∈ (applyLogged env aead defaultWALConfig f c).walWriter, h.NoneDeleted) ∧
        f.Replayable env c) (newLogged aead defaultWALConfig enc m k now) calls) :
    (exec (applyLogged env aead defaultWALConfig) (newLogged aead defaultWALConfig enc m k now) calls).Reproduced
      env aead := by
  obtain ⟨h, hf⟩ := Run.invariant (replays_step hJ (by decide) (by decide) hm)
    (replays_new (by decide) enc m k now) hcalls
  refine ⟨h, h.acked, hf.writer, hf.inv.readAll_of_noneDeleted hf.kept, ?_⟩
  rw [hf.shape.1, hf.shape.2, hf.replayed]

/-! ### Runs over a young log -/

/-- A log with at most `n` files, whose writer is open. -/
structure Young (aead : Aead) (config : WALConfig) (enc : WALEncryptor) (n : Nat) (f : BloomFSM History)
    (h : History) :
    Prop where
  log : f.walWriter = some h
  writer : h.writer ≠ none
  inv : h.Inv aead config
  enc : h.enc = enc
  files : h.files.length ≤ n

theorem young_new (hmax : 1 ≤ config.maxFiles) (enc : WALEncryptor) (m k : Nat) (now : Time) :
    ∃ h, Young aead config enc 1 (newLogged aead config enc m k now) h := by
  obtain ⟨w, g, hnew, hinv⟩ := History.new_log aead hmax enc now
  refine ⟨_, rfl, ?_, hinv, ?_, ?_⟩ <;> rw [hnew]
  · exact Option.some_ne_none w
  · exact Nat.le_refl 1

/-- While there is room for another file, an entry that can be encrypted is recorded and nothing is deleted. -/
theorem young_step (hmax : 1 ≤ config.maxFiles) {enc : WALEncryptor} {n : Nat} (hn : n + 1 < 10 ^ 6)
    (hroom : n + 1 ≤ config.maxFiles.toNat) {f : BloomFSM History} {c : ApplyCall}
    (h : ∃ h, Young aead config enc n f h) (htext : ∀ cmd, ∃ text, walEntry env c cmd = .ok text)
    (henc : ∀ data, ∃ encrypted, enc.encrypt aead c.write.rand data = .ok encrypted) (hc : f.Replayable env c) :
    (f.WalOk env aead c ∧ ∀ h ∈ (applyLogged env aead config f c).walWriter, h.NoneDeleted) ∧
      ∃ h, Young aead config enc (n + 1) (applyLogged env aead config f c) h := by
  obtain ⟨h, hf⟩ := h
  have hfiles := hf.files
  have hwrites : ∀ data, h.Writes aead c.write data := by
    intro data
    obtain ⟨w, hw⟩ := Option.ne_none_iff_exists'.1 hf.writer
    obtain ⟨encrypted, hencrypted⟩ := henc data
    exact History.writes_of_encrypt hmax hf.inv hw (by omega) (hf.enc ▸ hencrypted)
  have hwal : f.WalOk env aead c := by
    intro cmd _ _
    obtain ⟨text, htext⟩ := htext cmd
    exact ⟨text, h, htext, hf.log, hwrites text⟩
  have hyoung : ∃ h, Young aead config enc (n + 1) (applyLogged env aead config f c) h := by
    cases hcmd : parseCommand env c.log.data with
    | error err =>
      rw [applyLogged_of_error hcmd]
      exact ⟨h, hf.log, hf.writer, hf.inv, hf.enc, Nat.le_succ_of_le hfiles⟩
    | ok cmd =>
      by_cases hok : (execute env f.bloom cmd).2 = none
      · obtain ⟨text, htext⟩ := htext cmd
        have hinv := History.inv_step_write_of_lt hmax hf.inv (hwrites text) ((hc cmd hcmd).2 text htext) (by omega)
        have hlen := History.length_files_step_write config hf.inv (hwrites text)
        rw [applyLogged_of_recorded hcmd hok htext hf.log]
        exact ⟨_, rfl, History.writer_step_write h c.write text hf.writer, hinv,
          (History.enc_step_write ..).trans hf.enc, by omega⟩
      · rw [applyLogged_of_failed hcmd hok]
        exact ⟨h, hf.log, hf.writer, hf.inv, hf.enc, Nat.le_succ_of_le hfiles⟩
  refine ⟨⟨hwal, fun h' hh' => ?_⟩, hyoung⟩
  obtain ⟨h'', hf'⟩ := hyoung
  obtain rfl := Option.some.inj (hf'.log.symm.trans hh')
  exact hf'.inv.noneDeleted (hf'.files.trans hroom)

theorem young_exec (hmax : 1 ≤ config.maxFiles) {enc : WALEncryptor} {calls : List ApplyCall}
    (htext : ∀ c ∈ calls, ∀ cmd, ∃ text, walEntry env c cmd = .ok text)
    (henc : ∀ c ∈ calls, ∀ data, ∃ encrypted, enc.encrypt aead c.write.rand data = .ok encrypted) {n : Nat}
    (hn : n + calls.length < 10 ^ 6) (hroom : n + calls.length ≤ config.maxFiles.toNat) {f : BloomFSM History}
    (h : ∃ h, Young aead config enc n f h) (hcalls : Admits (applyLogged env aead config) (Replayable env) f calls) :
    Admits (applyLogged env aead config)
      (fun f c => (f.WalOk env aead c ∧ ∀ h ∈ (applyLogged env aead config f c).walWriter, h.NoneDeleted) ∧
        f.Replayable env c) f calls := by
  induction calls generalizing f n with
  | nil => trivial
  | cons c calls ih =>
    rw [List.length_cons] at hn hroom
    obtain ⟨hc, hcalls⟩ := hcalls
    obtain ⟨hok, hyoung⟩ := young_step hmax (by omega) (by omega) h (htext c (List.mem_cons_self ..))
      (henc c (List.mem_cons_self ..)) hc
    exact ⟨⟨hok, hc⟩, ih (fun c hc => htext c (List.mem_cons_of_mem _ hc))
      (fun c hc => henc c (List.mem_cons_of_mem _ hc)) (by omega) (by omega) hyoung hcalls⟩

/-! ### Adds that are recorded, that are refused, and that fail half-way -/

/-- The texts and the hash functions the repository uses, with all times in UTC. -/
def repoEnv : Env History := textEnv utcEnv Murmur3.sum32 Crc32.checksum fun h _ => (h, none)

theorem repoEnv_roundTrips : repoEnv.fsmCommand.RoundTrips FSMCommand.SameEffect := by
  intro cmd data h
  obtain ⟨cmd', hread, rfl⟩ := FSMCommand.lawful.roundTrips cmd data h
  exact ⟨cmd, hread, rfl, rfl⟩

/-- The entry of a log with this index. -/
def entryCall (index : Nat) (text : Bytes) : ApplyCall :=
  ⟨sampleTime, ⟨sampleTime, sampleTime, .ok ⟨List.replicate 12 (UInt8.ofNat index), List.length_replicate⟩⟩,
    ⟨UInt64.ofNat index, 1, text⟩⟩

/-- Two counters and `k` hash functions. -/
def twoCounters (k : Nat) : BloomFSM History :=
  newLogged AesGcm.aead defaultWALConfig KeyRun.secretEncryptor 2 k sampleTime

private theorem parseCommand_texts :
    parseCommand repoEnv addText = .ok ⟨"add", [97], zeroTime⟩ ∧
      parseCommand repoEnv removeText = .ok ⟨"remove", [97], zeroTime⟩ := by
  decide +kernel

theorem parseCommand_addText : parseCommand repoEnv addText = .ok ⟨"add", [97], zeroTime⟩ := parseCommand_texts.1

theorem parseCommand_removeText : parseCommand repoEnv removeText = .ok ⟨"remove", [97], zeroTime⟩ :=
  parseCommand_texts.2

private theorem bloom_applyLogged {f : BloomFSM History} {b : CountingBloomFilter} (hf : f.bloom = b) {c : ApplyCall}
    {cmd : Command} (hcmd : parseCommand env c.log.data = .ok cmd) :
    (applyLogged env aead config f c).bloom = (execute env b cmd).1 := by
  have hparse : parseCommand (env.withLog aead config c.write) c.log.data = .ok cmd := hcmd
  rw [applyLogged, bloom_apply, bloomStep, hparse, hf]
  rfl

private theorem replayable_of_parseCommand {f : BloomFSM History} {b : CountingBloomFilter} (hf : f.bloom = b)
    {c : ApplyCall} {cmd : Command} (hcmd : parseCommand repoEnv c.log.data = .ok cmd)
    (hsettles : cmd.cmdType = "add" → b.AddSettles Murmur3.sum32 cmd.item)
    (hlen : (⟨cmd.cmdType, cmd.item, Int64.ofInt c.now, c.log.index, c.log.term⟩ : FSMCommand).text.length <
      2 ^ 32 - 64) : f.Replayable repoEnv c := by
  intro cmd' hcmd'
  obtain rfl := Except.ok.inj (hcmd.symm.trans hcmd')
  refine ⟨fun hadd => hf ▸ hsettles hadd, fun text htext => ?_⟩
  obtain rfl := Except.ok.inj htext
  exact hlen

/-- Three `add`s fill the first counter, the next one finds it full, and the last one follows a `remove`. -/
def refusedCalls : List ApplyCall :=
  [entryCall 1 addText, entryCall 2 addText, entryCall 3 addText, entryCall 4 addText, entryCall 5 removeText,
    entryCall 6 addText]

/-- The filters of that run: with 169 hash functions `a` has the first counter 85 times and the second one 84
times. -/
private def raised (n : Nat) : CountingBloomFilter :=
  { m := 2, k := 169, counters := [UInt8.ofNat (85 * n), UInt8.ofNat (84 * n)], length_counters := rfl }

private theorem raised_spec :
    (newCountingBloomFilter 2 169 = raised 0 ∧
      (∀ n < 3, (raised n).add Murmur3.sum32 [97] = (raised (n + 1), none)) ∧
      (raised 3).add Murmur3.sum32 [97] = (raised 3, some ErrCounterOverflow) ∧
      (raised 3).remove Murmur3.sum32 [97] = raised 2) ∧
    ∃ i ∈ ((raised 3).indices Murmur3.sum32 [97]).head?, 255 ≤ counterAt (raised 3).counters i := by
  decide +kernel

/-- The entries of the log are short. -/
private theorem length_entries :
    (∀ i < 7, (⟨"add", [97], Int64.ofInt sampleTime, UInt64.ofNat i, 1⟩ : FSMCommand).text.length < 2 ^ 32 - 64) ∧
      (⟨"remove", [97], Int64.ofInt sampleTime, 5, 1⟩ : FSMCommand).text.length < 2 ^ 32 - 64 := by
  decide +kernel

private theorem settles_raised {n : Nat} (hn : n < 4) : (raised n).AddSettles Murmur3.sum32 [97] := by
  obtain hlt | rfl : n < 3 ∨ n = 3 := by omega
  · exact CountingBloomFilter.addSettles_of_add Murmur3.sum32 (Nat.le_refl 2) (by rw [raised_spec.1.2.1 n hlt])
  · exact .inl raised_spec.2

private theorem bloom_add (index : Nat) {f : BloomFSM History} {n n' : Nat} (hf : f.bloom = raised n)
    (hadd : ((raised n).add Murmur3.sum32 [97]).1 = raised n') :
    (applyLogged repoEnv AesGcm.aead defaultWALConfig f (entryCall index addText)).bloom = raised n' := by
  rw [bloom_applyLogged hf parseCommand_addText]
  exact hadd

private theorem bloom_remove (index : Nat) {f : BloomFSM History} {n n' : Nat} (hf : f.bloom = raised n)
    (hremove : (raised n).remove Murmur3.sum32 [97] = raised n') :
    (applyLogged repoEnv AesGcm.aead defaultWALConfig f (entryCall index removeText)).bloom = raised n' := by
  rw [bloom_applyLogged hf parseCommand_removeText]
  exact hremove

private theorem replayable_add {f : BloomFSM History} {n index : Nat} (hf : f.bloom = raised n) (hn : n < 4)
    (hindex : index < 7) : f.Replayable repoEnv (entryCall index addText) :=
  replayable_of_parseCommand hf parseCommand_addText (fun _ => settles_raised hn) (length_entries.1 index hindex)

private theorem replayable_remove {f : BloomFSM History} {n : Nat} (hf : f.bloom = raised n) :
    f.Replayable repoEnv (entryCall 5 removeText) :=
  replayable_of_parseCommand hf parseCommand_removeText
    (fun h => absurd h (by decide : ("remove" : String) ≠ "add")) length_entries.2

/-- The filters and the conditions of the run, step by step. -/
private theorem refusedCalls_spec :
    Admits (applyLogged repoEnv AesGcm.aead defaultWALConfig) (Replayable repoEnv) (twoCounters 169) refusedCalls ∧
    (exec (applyLogged repoEnv AesGcm.aead defaultWALConfig) (twoCounters 169) (refusedCalls.take 3)).bloom =
      raised 3 ∧
    (exec (applyLogged repoEnv AesGcm.aead defaultWALConfig) (twoCounters 169) refusedCalls).bloom = raised 3 := by
  obtain ⟨⟨hzero, hadd, hrefused, hremove⟩, -⟩ := raised_spec
  have h0 : (twoCounters 169).bloom = raised 0 := hzero
  have h1 := bloom_add 1 h0 (congrArg Prod.fst (hadd 0 (by decide)))
  have h2 := bloom_add 2 h1 (congrArg Prod.fst (hadd 1 (by decide)))
  have h3 := bloom_add 3 h2 (congrArg Prod.fst (hadd 2 (by decide)))
  have h4 := bloom_add 4 h3 (congrArg Prod.fst hrefused)
  have h5 := bloom_remove 5 h4 hremove
  have h6 := bloom_add 6 h5 (congrArg Prod.fst (hadd 2 (by decide)))
  exact ⟨⟨replayable_add h0 (by decide) (by decide), replayable_add h1 (by decide) (by decide),
    replayable_add h2 (by decide) (by decide), replayable_add h3 (by decide) (by decide), replayable_remove h4,
    replayable_add h5 (by decide) (by decide), trivial⟩, h3, h6⟩

/-- The six entries meet every condition. -/
theorem admits_refusedCalls :
    Admits (applyLogged repoEnv AesGcm.aead defaultWALConfig)
      (fun f c => (f.WalOk repoEnv AesGcm.aead c ∧
        ∀ h ∈ (applyLogged repoEnv AesGcm.aead defaultWALConfig f c).walWriter, h.NoneDeleted) ∧
        f.Replayable repoEnv c) (twoCounters 169) refusedCalls := by
  refine young_exec (by decide) (fun c _ cmd => ⟨_, rfl⟩) (fun c hc data => ?_) (by decide) (by decide)
    (young_new (by decide) KeyRun.secretEncryptor 2 169 sampleTime) refusedCalls_spec.1
  simp only [refusedCalls, List.mem_cons, List.not_mem_nil, or_false] at hc
  rcases hc with rfl | rfl | rfl | rfl | rfl | rfl <;> exact ⟨_, rfl⟩

/-- Six entries, of which the fourth is refused at a full first counter: the log has the other five. -/
theorem reproduced_refusedCalls :
    (execute repoEnv (exec (applyLogged repoEnv AesGcm.aead defaultWALConfig) (twoCounters 169)
      (refusedCalls.take 3)).bloom ⟨"add", [97], zeroTime⟩).2 = some ErrCounterOverflow ∧
    (exec (applyLogged repoEnv AesGcm.aead defaultWALConfig) (twoCounters 169) refusedCalls).bloom.counters =
      [255, 252] ∧
    (exec (applyLogged repoEnv AesGcm.aead defaultWALConfig) (twoCounters 169) refusedCalls).Reproduced repoEnv
      AesGcm.aead := by
  refine ⟨?_, ?_, reproduced_of_replayable repoEnv_roundTrips KeyRun.secretEncryptor (by decide) sampleTime
    admits_refusedCalls⟩
  · rw [refusedCalls_spec.2.1]
    exact congrArg Prod.snd raised_spec.1.2.2.1
  · rw [refusedCalls_spec.2.2]
    rfl

private theorem execute_many :
    execute repoEnv (twoCounters 511).bloom ⟨"add", [97], zeroTime⟩ =
      ({ m := 2, k := 511, counters := [255, 255], length_counters := rfl }, some ErrCounterOverflow) := by
  show CountingBloomFilter.add Murmur3.sum32 (newCountingBloomFilter 2 511) [97] = _
  decide +kernel

/-- 511 hash functions: the `add` raises both counters to 255 before it fails, and the log has nothing of it. -/
theorem not_reproduced_failed_add :
    repoEnv.fsmCommand.RoundTrips FSMCommand.SameEffect ∧
    Admits (applyLogged repoEnv AesGcm.aead defaultWALConfig)
      (fun f c => f.WalOk repoEnv AesGcm.aead c ∧
        ∀ h ∈ (applyLogged repoEnv AesGcm.aead defaultWALConfig f c).walWriter, h.NoneDeleted)
      (twoCounters 511) [entryCall 1 addText] ∧
    ¬ (exec (applyLogged repoEnv AesGcm.aead defaultWALConfig) (twoCounters 511) [entryCall 1 addText]).Reproduced
      repoEnv AesGcm.aead := by
  have hnew : ∀ h ∈ (twoCounters 511).walWriter, h.NoneDeleted ∧ readAll AesGcm.aead h.enc h.dir = .ok [] := by
    decide +kernel
  have hfail : (execute repoEnv (twoCounters 511).bloom ⟨"add", [97], zeroTime⟩).2 ≠ none := by
    rw [execute_many]; exact Option.some_ne_none _
  have hstep : applyLogged repoEnv AesGcm.aead defaultWALConfig (twoCounters 511) (entryCall 1 addText) = _ :=
    applyLogged_of_failed parseCommand_addText hfail
  refine ⟨repoEnv_roundTrips, ⟨⟨?_, ?_⟩, trivial⟩, ?_⟩
  · intro cmd hcmd hok
    obtain rfl := Except.ok.inj (parseCommand_addText.symm.trans hcmd)
    exact absurd hok hfail
  · intro h hh
    rw [hstep] at hh
    exact (hnew h hh).1
  · rintro ⟨h, records, hh, hread, hcounters⟩
    -- one event: the run is that step
    have hexec : exec (applyLogged repoEnv AesGcm.aead defaultWALConfig) (twoCounters 511) [entryCall 1 addText] =
      _ := hstep
    rw [hexec, execute_many] at hh hcounters
    obtain rfl := Except.ok.inj ((hnew h hh).2.symm.trans hread)
    exact absurd hcounters (by decide)

end BloomFSM

end DistributedBloomFilter
