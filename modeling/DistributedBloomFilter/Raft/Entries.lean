import DistributedBloomFilter.Raft.Logged

/-!
# The entries of the write-ahead log

What `Apply` hands to `WALWriter.Write` in a run: one entry for every command that returned nil, in order
(`executed`).  As long as no `Write` fails, `ReadAll` returns the last of them, and all of them until the writer
deletes a file.  `BloomFSM` would apply every entry again as the same command.  A `Node` refuses them all: the
timestamp of an entry is a number, and `Node.Apply` wants the text of a time.
-/

namespace DistributedBloomFilter

open Run (exec Admits)

namespace BloomFSM

section Model

variable {W : Type} (env : Env W)

/-- The commands of a log that return nil. -/
def executed (b : CountingBloomFilter) : List Log → List Command
  | [] => []
  | log :: logs =>
    match parseCommand env log.data with
    | .error _ => executed b logs
    | .ok cmd =>
      if (execute env b cmd).2 = none then cmd :: executed (execute env b cmd).1 logs
      else executed (execute env b cmd).1 logs

/-- The entries of the commands: `BloomFSM` reads each of them as a command with that type and item, and every node
refuses it. -/
structure Records (texts : List Bytes) (cmds : List Command) : Prop where
  parsed : (texts.map fun t => (parseCommand env t).map fun c => (c.cmdType, c.item)) =
    cmds.map fun c => .ok (c.cmdType, c.item)
  refused : ∀ t ∈ texts, ∀ (n : Node) (index term : UInt64), n.apply env ⟨index, term, t⟩ =
    (n, some "failed to parse command: Time.UnmarshalJSON: input is not a JSON string")

/-- The WAL entry is shorter than `2 ^ 32 - 64` bytes, and a million files are not made. -/
def Fits (f : BloomFSM History) (c : ApplyCall) : Prop :=
  ∀ cmd, parseCommand env c.log.data = .ok cmd → (execute env f.bloom cmd).2 = none →
    ∀ text, walEntry env c cmd = .ok text → text.length < 2 ^ 32 - 64 ∧
      ∀ h ∈ f.walWriter, h.files.length + 1 < 10 ^ 6

end Model

variable {W : Type} {env : Env W} {aead : Aead} {config : WALConfig}

theorem records_nil : Records env [] [] := ⟨rfl, fun _ ht => by cases ht⟩

theorem Records.append {texts texts' : List Bytes} {cmds cmds' : List Command} (h : Records env texts cmds)
    (h' : Records env texts' cmds') : Records env (texts ++ texts') (cmds ++ cmds') := by
  refine ⟨?_, fun t ht => ?_⟩
  · rw [List.map_append, List.map_append, h.parsed, h'.parsed]
  · rcases List.mem_append.1 ht with ht | ht
    · exact h.refused t ht
    · exact h'.refused t ht

section Run

/-- What was acknowledged so far are the entries of the commands so far. -/
def Recorded (aead : Aead) (config : WALConfig) (env : Env W) (f : BloomFSM History) (cmds : List Command) : Prop :=
  ∃ h, f.walWriter = some h ∧ h.Inv aead config ∧ Records env h.acked cmds

/-- The commands of a log are those of its first entry and those of the rest. -/
theorem executed_cons (b : CountingBloomFilter) (log : Log) (logs : List Log) :
    executed env b (log :: logs) = executed env b [log] ++ executed env (bloomStep env b log) logs := by
  simp only [executed, bloomStep]
  cases parseCommand env log.data with
  | error err => rfl
  | ok cmd =>
    dsimp only
    split <;> rfl

variable (hmax : 1 ≤ config.maxFiles)
  (hentry : ∀ c cmd text, walEntry env c cmd = .ok text → Records env [text] [cmd])

include hmax hentry

/-- One `Apply` adds the entry of its command if that returns nil. -/
theorem recorded_step {f : BloomFSM History} {c : ApplyCall} {cmds : List Command}
    (hf : Recorded aead config env f cmds) (hwal : f.WalOk env aead c) (hfits : f.Fits env c) :
    Recorded aead config env (applyLogged env aead config f c) (cmds ++ executed env f.bloom [c.log]) := by
  obtain ⟨h, hh, hinv, hrecords⟩ := hf
  cases hcmd : parseCommand env c.log.data with
  | error err =>
    rw [applyLogged_of_error hcmd]
    simp only [executed, hcmd, List.append_nil]
    exact ⟨h, hh, hinv, hrecords⟩
  | ok cmd =>
    by_cases hok : (execute env f.bloom cmd).2 = none
    · obtain ⟨text, h', htext, hh', hwrites⟩ := hwal cmd hcmd hok
      obtain rfl : h' = h := Option.some.inj (hh'.symm.trans hh)
      obtain ⟨hlen, hcount⟩ := hfits cmd hcmd hok text htext
      rw [applyLogged_of_recorded hcmd hok htext hh]
      simp only [executed, hcmd, hok, if_pos]
      refine ⟨_, rfl, History.inv_step_write_of_lt hmax hinv hwrites hlen (hcount h' hh), ?_⟩
      rw [History.acked_step_write hwrites]
      exact hrecords.append (hentry c cmd text htext)
    · rw [applyLogged_of_failed hcmd hok]
      simp only [executed, hcmd, if_neg hok, List.append_nil]
      exact ⟨h, hh, hinv, hrecords⟩

theorem recorded_exec {f : BloomFSM History} {cmds : List Command} (hf : Recorded aead config env f cmds)
    {calls : List ApplyCall}
    (hcalls : Admits (applyLogged env aead config) (fun f c => f.WalOk env aead c ∧ f.Fits env c) f calls) :
    Recorded aead config env (exec (applyLogged env aead config) f calls)
      (cmds ++ executed env f.bloom (calls.map (·.log))) := by
  induction calls generalizing f cmds with
  | nil => rwa [List.map_nil, executed, List.append_nil]
  | cons c calls ih =>
    obtain ⟨⟨hwal, hfits⟩, hcalls⟩ := hcalls
    have hbloom : (applyLogged env aead config f c).bloom = bloomStep env f.bloom c.log :=
      bloom_apply c.now f c.log
    have h := ih (recorded_step hmax hentry hf hwal hfits) hcalls
    rwa [hbloom, List.append_assoc, ← executed_cons] at h

end Run

section Texts

variable {j : JsonEnv} {sum32 crc32 : Bytes → UInt32} {walWrite : W → Bytes → W × Option String}

theorem records_walEntry (c : ApplyCall) (cmd : Command) (text : Bytes)
    (htext : walEntry (textEnv j sum32 crc32 walWrite) c cmd = .ok text) :
    Records (textEnv j sum32 crc32 walWrite) [text] [cmd] := by
  obtain rfl := Except.ok.inj htext
  refine ⟨?_, fun t ht n index term => ?_⟩
  · rw [List.map_singleton]
    exact congrArg (fun r => [Except.map (fun c : Command => (c.cmdType, c.item)) r])
      (parseCommand_fsmCommand_text sum32 crc32 walWrite _)
  · rw [List.mem_singleton.1 ht]
    exact Node.apply_fsmCommand_text sum32 crc32 walWrite _ n index term

/-- In every run over a new log in which no `Write` fails, the log was handed the entries of the commands that
returned nil, and `ReadAll` returns the last of them: at least those in the newest `maxFiles` files, and all of them
when no file was deleted. -/
theorem records_of_run (hmax : 1 ≤ config.maxFiles) (enc : WALEncryptor) (m k : Nat) (now : Time)
    {calls : List ApplyCall}
    (hcalls : Admits (applyLogged (textEnv j sum32 crc32 walWrite) aead config)
      (fun f c => f.WalOk (textEnv j sum32 crc32 walWrite) aead c ∧ f.Fits (textEnv j sum32 crc32 walWrite) c)
      (newLogged aead config enc m k now) calls) :
    ∃ h results,
      (exec (applyLogged (textEnv j sum32 crc32 walWrite) aead config) (newLogged aead config enc m k now)
        calls).walWriter = some h ∧
      Records (textEnv j sum32 crc32 walWrite) h.acked
        (executed (textEnv j sum32 crc32 walWrite) (newCountingBloomFilter m k) (calls.map (·.log))) ∧
      readAll aead h.enc h.dir = .ok results ∧ results <:+ h.acked ∧
      (h.files.drop (h.files.length - config.maxFiles.toNat)).flatten <:+ results ∧
      (h.NoneDeleted → results = h.acked) := by
  obtain ⟨w, g, hnew, hinv⟩ := History.new_log aead hmax enc now
  have hstart : Recorded aead config (textEnv j sum32 crc32 walWrite) (newLogged aead config enc m k now) [] := by
    refine ⟨_, rfl, hinv, ?_⟩
    rw [hnew]
    exact records_nil
  obtain ⟨h, hh, hinv', hrecords⟩ := recorded_exec hmax records_walEntry hstart hcalls
  obtain ⟨results, hread, hsuffix, hnewest, _⟩ := hinv'.recovers
  exact ⟨h, results, hh, hrecords, hread, hsuffix, hnewest, fun hkept =>
    Except.ok.inj (hread.symm.trans (hinv'.readAll_of_noneDeleted hkept))⟩

end Texts

/-- A run from which nothing is deleted makes few files. -/
private theorem fits_of_replays {m k : Nat} {f : BloomFSM History} {c : ApplyCall}
    (hf : ∃ h, Replays aead defaultWALConfig env m k f h) (hc : f.Replayable env c) : f.Fits env c := by
  obtain ⟨h, hf⟩ := hf
  intro cmd hcmd _ text htext
  refine ⟨(hc cmd hcmd).2 text htext, fun h' hh' => ?_⟩
  obtain rfl := Option.some.inj (hh'.symm.trans hf.writer)
  have hkept : h'.dir.length = h'.files.length := hf.kept
  have hfew : h'.dir.length ≤ 10 := hf.few
  omega

/-- Six entries, of which the fourth is refused: the log was handed those of the other five. -/
theorem records_refusedCalls :
    ∃ h results, (exec (applyLogged repoEnv AesGcm.aead defaultWALConfig) (twoCounters 169) refusedCalls).walWriter =
        some h ∧ readAll AesGcm.aead h.enc h.dir = .ok results ∧ results <:+ h.acked ∧
      Records repoEnv h.acked [⟨"add", [97], zeroTime⟩, ⟨"add", [97], zeroTime⟩, ⟨"add", [97], zeroTime⟩,
        ⟨"remove", [97], zeroTime⟩, ⟨"add", [97], zeroTime⟩] := by
  have hexecuted : executed repoEnv (newCountingBloomFilter 2 169) (refusedCalls.map (·.log)) =
      [⟨"add", [97], zeroTime⟩, ⟨"add", [97], zeroTime⟩, ⟨"add", [97], zeroTime⟩, ⟨"remove", [97], zeroTime⟩,
        ⟨"add", [97], zeroTime⟩] := by
    decide +kernel
  have hcalls := Run.admits_of_invariant
    (replays_step repoEnv_roundTrips (by decide : 1 ≤ defaultWALConfig.maxFiles) (by decide) (Nat.le_refl 2))
    (fun f c hf hc => And.intro hc.1.1 (fits_of_replays hf hc.2))
    (replays_new (by decide) KeyRun.secretEncryptor 2 169 sampleTime) admits_refusedCalls
  obtain ⟨h, results, hh, hrecords, hread, hsuffix, -⟩ :=
    records_of_run (by decide) KeyRun.secretEncryptor 2 169 sampleTime hcalls
  exact ⟨h, results, hh, hread, hsuffix, hexecuted ▸ hrecords⟩

end BloomFSM

end DistributedBloomFilter
