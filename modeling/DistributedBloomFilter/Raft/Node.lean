import DistributedBloomFilter.Raft.Snapshot

/-!
# The Raft node

`Node` of `internal/raft/node.go` is the state machine a server runs: `Add` and `Remove` hand a command to Raft, and
Raft calls `Apply`, `Snapshot` and `Restore`.  It shares `fsmSnapshot` with `BloomFSM`, but its `Restore` reads the
raw form of a filter only.  `Persist` writes a JSON object, whose first byte is an opening brace; read as the high
byte of `m` it is far above `MaxFilterSize`, so no node restores a persisted snapshot.
-/

namespace DistributedBloomFilter

/-- The fields of a node that its state machine uses. -/
structure Node where
  bloomFilter : CountingBloomFilter
  /-- `raftNode` has been set by `Start`. -/
  started : Bool
deriving DecidableEq, Repr

def newNode (bloomFilter : CountingBloomFilter) : Node := { bloomFilter := bloomFilter, started := false }

namespace Node

variable {W : Type} (env : Env W)

/-- What `Add` and `Remove` do before they call Raft: the bytes of the command. -/
def encodeCommand (n : Node) (cmdType : String) (item : Bytes) : Except String Bytes :=
  if n.started = false then .error "raft node not started"
  else
    match env.command.marshal ⟨cmdType, item, zeroTime⟩ with
    | .error err => .error ("failed to marshal command: " ++ err)
    | .ok data => .ok data

/-- `Add` and `Remove`, which differ in the type of the command.  `raftApply` answers the bytes of an entry with the
error of its future; the response of the state machine is not looked at. -/
def submit (n : Node) (cmdType : String) (raftApply : Bytes → Option String) (item : Bytes) : Option String :=
  match n.encodeCommand env cmdType item with
  | .error err => some err
  | .ok data =>
    match raftApply data with
    | some err => some ("failed to apply command: " ++ err)
    | none => none

def add (n : Node) (raftApply : Bytes → Option String) (item : Bytes) : Option String :=
  n.submit env "add" raftApply item

def remove (n : Node) (raftApply : Bytes → Option String) (item : Bytes) : Option String :=
  n.submit env "remove" raftApply item

def contains (n : Node) (item : Bytes) : Bool := n.bloomFilter.contains env.sum32 item

def apply (n : Node) (log : Log) : Node × Option String :=
  match env.command.unmarshal log.data with
  | .error err => (n, some ("failed to parse command: " ++ err))
  | .ok cmd =>
    if cmd.cmdType = "add" then
      -- the error of the filter's `Add` is dropped
      ({ n with bloomFilter := (n.bloomFilter.add env.sum32 cmd.item).1 }, none)
    else if cmd.cmdType = "remove" then
      ({ n with bloomFilter := n.bloomFilter.remove env.sum32 cmd.item }, none)
    else (n, some ("unknown command: " ++ cmd.cmdType))

def snapshot (n : Node) : FsmSnapshot := { bloomData := n.bloomFilter.serialize env.crc32, metadata := none }

/-- `Restore` from the outcome of reading the stream. -/
def restore (n : Node) (rc : Except String Bytes) : Node × Option String :=
  match rc with
  | .error err => (n, some ("failed to read snapshot: " ++ err))
  | .ok data =>
    match deserialize env.crc32 data with
    | .error err => (n, some ("failed to restore bloom filter: " ++ err))
    | .ok newFilter => ({ n with bloomFilter := newFilter }, none)

/-- The node after some entries of the log. -/
def applyAll (n : Node) (logs : List Log) : Node := logs.foldl (fun n log => (n.apply env log).1) n

variable {env}

/-- A call returns nil when the command could be encoded and Raft reports no error. -/
theorem submit_eq_none_iff {n : Node} {cmdType : String} {raftApply : Bytes → Option String} {item : Bytes} :
    n.submit env cmdType raftApply item = none ↔
      ∃ data, n.encodeCommand env cmdType item = .ok data ∧ raftApply data = none := by
  unfold submit
  cases n.encodeCommand env cmdType item with
  | error err => simp
  | ok data => cases h : raftApply data <;> simp [h]

/-- `Restore` undoes `Snapshot` on the bytes of the snapshot itself. -/
theorem restore_bloomData {n : Node} (hm : n.bloomFilter.m ≤ MaxFilterSize) (hk : 1 ≤ n.bloomFilter.k)
    (hk' : n.bloomFilter.k ≤ MaxHashFunctions) (other : Node) :
    other.restore env (.ok (n.snapshot env).bloomData) = ({ other with bloomFilter := n.bloomFilter }, none) := by
  have hs : deserialize env.crc32 (n.snapshot env).bloomData = .ok n.bloomFilter :=
    n.bloomFilter.deserialize_serialize hm hk hk'
  rw [restore]
  simp only [hs]

/-! ### What `Persist` writes is not what `Restore` reads -/

variable (env) in
/-- `other` reads what `Persist` wrote of the snapshot of `n`, returns nil and has the filter of `n`. -/
def RestoredBy (n : Node) (now : Time) (writeErr closeErr : Option String) (other : Node) : Prop :=
  let restored := other.restore env (.ok ((n.snapshot env).persist env now (.fresh writeErr closeErr)).1.written)
  restored.2 = none ∧ restored.1.bloomFilter = n.bloomFilter

/-- A new sink holds nothing after `Persist`, or the text of an object. -/
private theorem written_persist (hJ : env.snapshotData.HeadIs 0x7B) (now : Time) (s : FsmSnapshot)
    (writeErr closeErr : Option String) :
    (s.persist env now (.fresh writeErr closeErr)).1.written = [] ∨
      ∃ rest, (s.persist env now (.fresh writeErr closeErr)).1.written = 0x7B :: rest := by
  unfold FsmSnapshot.persist
  cases hd : env.snapshotData.marshal (s.toSnapshotData now) with
  | error err => left; rfl
  | ok data =>
    cases writeErr with
    | some err => left; rfl
    | none =>
      right
      obtain ⟨rest, rfl⟩ := List.head?_eq_some_iff.1 (hJ _ _ hd)
      exact ⟨rest, rfl⟩

/-- A node answers the bytes of `Persist` with an error and stays as it was. -/
theorem restore_persist_eq (hJ : env.snapshotData.HeadIs 0x7B) (now : Time) (s : FsmSnapshot)
    (writeErr closeErr : Option String) (other : Node) :
    other.restore env (.ok (s.persist env now (.fresh writeErr closeErr)).1.written) =
      (other, some ("failed to restore bloom filter: " ++ ErrInvalidData)) := by
  have hd : deserialize env.crc32 (s.persist env now (.fresh writeErr closeErr)).1.written =
      .error ErrInvalidData := by
    rcases written_persist hJ now s writeErr closeErr with h | ⟨rest, h⟩
    · rw [h]; rfl
    · rw [h]; exact deserialize_first_byte _ (by decide) rest
  rw [restore]
  simp only [hd]

/-- No node restores a persisted snapshot of any node, whatever entries it has applied. -/
theorem not_restoredBy (hJ : env.snapshotData.HeadIs 0x7B) (n : Node) (logs : List Log) (now : Time)
    (writeErr closeErr : Option String) (other : Node) :
    ¬ (n.applyAll env logs).RestoredBy env now writeErr closeErr other := by
  rintro ⟨hnil, -⟩
  rw [restore_persist_eq hJ] at hnil
  cases hnil

end Node

/-! ### The snapshot of a node with one item -/

def nodeRecord : SnapshotData where
  bloomFilter := [0, 0, 0, 2, 0, 0, 0, 1, 1, 0, 108, 204, 34, 41]
  metadata := none
  timestamp := sampleTime
  index := 0
  term := 0

def nodeText : Bytes :=
  utf8 ("\x7b\"bloom_filter\":\"AAAAAgAAAAEBAGzMIik=\",\"metadata\":null," ++
    "\"timestamp\":\"2026-03-14T00:00:00Z\",\"index\":0,\"term\":0\x7d")

def nodeEnv : Env Unit := sampleEnvOf nodeRecord nodeText

/-- A started node of two counters and one hash function. -/
def sampleNode : Node := { newNode (newCountingBloomFilter 2 1) with started := true }

private theorem nodeEnv_headIs : nodeEnv.snapshotData.HeadIs 0x7B := by
  have h : ∀ e ∈ [(nodeRecord, nodeText)], e.2.head? = some 0x7B := by
    intro e he
    obtain rfl := List.mem_singleton.1 he
    decide +kernel
  exact Json.headIs_ofTable h

theorem Node.not_restoredBy_sample :
    ¬ (sampleNode.applyAll nodeEnv [⟨5, 2, addText⟩]).RestoredBy nodeEnv sampleTime none none
      (newNode (newCountingBloomFilter 7 4)) :=
  not_restoredBy nodeEnv_headIs sampleNode [⟨5, 2, addText⟩] sampleTime none none _

private theorem sampleNode_applyAll :
    sampleNode.applyAll nodeEnv [⟨5, 2, addText⟩] =
      { bloomFilter := { m := 2, k := 1, counters := [1, 0], length_counters := rfl }, started := true } := by
  have hparse : nodeEnv.command.unmarshal addText = .ok ⟨"add", [97], zeroTime⟩ := Json.unmarshal_ofTable_head ..
  show (Node.apply nodeEnv sampleNode ⟨5, 2, addText⟩).1 = _
  rw [Node.apply]
  simp only [hparse]
  decide +kernel

private theorem nodeRecord_eq :
    ((sampleNode.applyAll nodeEnv [⟨5, 2, addText⟩]).snapshot nodeEnv).toSnapshotData sampleTime = nodeRecord := by
  rw [sampleNode_applyAll]
  decide +kernel

/-- `Persist` returns nil after one `add a`, and a new node answers its bytes with an error. -/
theorem Node.restore_persisted_sample :
    ((sampleNode.applyAll nodeEnv [⟨5, 2, addText⟩]).snapshot nodeEnv).persist nodeEnv sampleTime (.fresh none none) =
      ({ SnapshotSink.fresh none none with written := nodeText, closed := true }, none) ∧
    (newNode (newCountingBloomFilter 2 1)).restore nodeEnv (.ok nodeText) =
      (newNode (newCountingBloomFilter 2 1), some "failed to restore bloom filter: invalid bloom filter data") ∧
    ¬ (sampleNode.applyAll nodeEnv [⟨5, 2, addText⟩]).RestoredBy nodeEnv sampleTime none none
      (newNode (newCountingBloomFilter 2 1)) := by
  have hp : ((sampleNode.applyAll nodeEnv [⟨5, 2, addText⟩]).snapshot nodeEnv).persist nodeEnv sampleTime
      (.fresh none none) = ({ SnapshotSink.fresh none none with written := nodeText, closed := true }, none) := by
    rw [FsmSnapshot.persist, nodeRecord_eq,
      show nodeEnv.snapshotData.marshal nodeRecord = .ok nodeText from Json.marshal_ofTable_head ..]
    rfl
  have hr := restore_persist_eq nodeEnv_headIs sampleTime
    ((sampleNode.applyAll nodeEnv [⟨5, 2, addText⟩]).snapshot nodeEnv) none none
    (newNode (newCountingBloomFilter 2 1))
  refine ⟨hp, ?_, ?_⟩
  · rw [hp] at hr
    exact hr
  · rintro ⟨hnil, -⟩
    rw [hr] at hnil
    cases hnil

end DistributedBloomFilter
