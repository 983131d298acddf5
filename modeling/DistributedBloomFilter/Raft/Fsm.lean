import DistributedBloomFilter.Bloom.Serialize
import DistributedBloomFilter.Lib.Json

/-!
# The replicated state machine

`BloomFSM` of `internal/raft/fsm.go`: applying a log entry, taking a snapshot, persisting it and restoring from it.
`encoding/json`, the two hash functions and the writer of the write-ahead log are parameters (`Env`).  A clock reading
the code takes is an argument `now`.
-/

namespace DistributedBloomFilter

/-- An entry of the Raft log. -/
structure Log where
  index : UInt64
  term : UInt64
  data : Bytes
deriving DecidableEq, Repr

structure Command where
  cmdType : String
  item : Bytes
  timestamp : Time
deriving DecidableEq, Repr

structure FSMCommand where
  cmdType : String
  item : Bytes
  timestamp : Int64
  index : UInt64
  term : UInt64
deriving DecidableEq

/-- A value in the metadata of a snapshot: one of those the repository writes, or any other by its JSON text. -/
inductive MetaValue where
  | str (s : String)
  | int (n : Int)
  | raw (text : Bytes)
deriving DecidableEq, Repr

/-- `Metadata` is a Go map; `none` is the nil map. -/
structure SnapshotData where
  bloomFilter : Bytes
  metadata : Option (List (String × MetaValue))
  timestamp : Time
  index : UInt64
  term : UInt64
deriving DecidableEq, Repr

/-- The fields of a snapshot that `Restore` reads. -/
def SnapshotData.SameState (a b : SnapshotData) : Prop :=
  a.bloomFilter = b.bloomFilter ∧ a.timestamp = b.timestamp ∧ a.index = b.index ∧ a.term = b.term

/-- What the package calls: the two hash functions, `encoding/json` at its three types, and the `Write` method of the
WAL writer. -/
structure Env (W : Type) where
  sum32 : Bytes → UInt32
  crc32 : Bytes → UInt32
  command : Json Command
  fsmCommand : Json FSMCommand
  snapshotData : Json SnapshotData
  walWrite : W → Bytes → W × Option String

structure BloomFSM (W : Type) where
  bloom : CountingBloomFilter
  walWriter : Option W
  lastAppliedIndex : UInt64
  lastAppliedTerm : UInt64
  startTime : Time

structure FsmSnapshot where
  bloomData : Bytes
  metadata : Option (List (String × MetaValue))
deriving DecidableEq, Repr

/-- A snapshot sink: what it answers to `Write` and to `Close`, and what has been done with it. -/
structure SnapshotSink where
  writeErr : Option String
  closeErr : Option String
  written : Bytes
  cancelled : Bool
  closed : Bool

/-- A sink nothing has been written to. -/
def SnapshotSink.fresh (writeErr closeErr : Option String) : SnapshotSink :=
  { writeErr := writeErr, closeErr := closeErr, written := [], cancelled := false, closed := false }

variable {W : Type} (env : Env W)

def newBloomFSM (bloomFilter : CountingBloomFilter) (walWriter : Option W) (now : Time) : BloomFSM W :=
  { bloom := bloomFilter, walWriter := walWriter, lastAppliedIndex := 0, lastAppliedTerm := 0, startTime := now }

namespace BloomFSM

/-- The command in a log entry: a `Command`, or else an `FSMCommand`. -/
def parseCommand (data : Bytes) : Except String Command :=
  match env.command.unmarshal data with
  | .ok cmd => .ok cmd
  | .error err =>
    match env.fsmCommand.unmarshal data with
    | .ok fsmCmd => .ok ⟨fsmCmd.cmdType, fsmCmd.item, fsmCmd.timestamp.toInt⟩
    | .error _ => .error ("failed to parse command: " ++ err)

/-- The command on the filter, with the result of `Apply`. -/
def execute (f : CountingBloomFilter) (cmd : Command) : CountingBloomFilter × Option String :=
  if cmd.cmdType = "add" then f.add env.sum32 cmd.item
  else if cmd.cmdType = "remove" then (f.remove env.sum32 cmd.item, none)
  else (f, some ("unknown command type: " ++ cmd.cmdType))

/-- The write-ahead entry of a command; an error is logged and dropped. -/
def writeWAL (now : Time) (log : Log) (cmd : Command) (w : W) : W :=
  match env.fsmCommand.marshal ⟨cmd.cmdType, cmd.item, Int64.ofInt now, log.index, log.term⟩ with
  | .ok walData => (env.walWrite w walData).1
  | .error _ => w

def apply (now : Time) (f : BloomFSM W) (log : Log) : BloomFSM W × Option String :=
  match parseCommand env log.data with
  | .error err => (f, some err)
  | .ok cmd =>
    let result := execute env f.bloom cmd
    ({ f with
        bloom := result.1
        walWriter := if result.2 = none then f.walWriter.map (writeWAL env now log cmd) else f.walWriter
        lastAppliedIndex := log.index
        lastAppliedTerm := log.term },
      result.2)

def snapshot (now : Time) (f : BloomFSM W) : FsmSnapshot where
  bloomData := f.bloom.serialize env.crc32
  metadata := some
    [("version", .str "1.0"),
     ("created_by", .str "distributed-bloom-filter"),
     ("bloom_size", .int f.bloom.size),
     ("bloom_k", .int f.bloom.hashCount),
     ("last_applied_index", .int f.lastAppliedIndex.toNat),
     ("last_applied_term", .int f.lastAppliedTerm.toNat),
     ("timestamp", .int (Int64.ofInt now).toInt),
     ("start_time", .int (Int64.ofInt f.startTime).toInt)]

/-- `Restore` from the outcome of reading the stream: the JSON form is tried first, then the raw filter. -/
def restore (f : BloomFSM W) (rc : Except String Bytes) : BloomFSM W × Option String :=
  match rc with
  | .error err => (f, some ("failed to read snapshot: " ++ err))
  | .ok data =>
    match env.snapshotData.unmarshal data with
    | .ok snapshotData =>
      match deserialize env.crc32 snapshotData.bloomFilter with
      | .error err => (f, some ("failed to restore bloom filter: " ++ err))
      | .ok newFilter =>
        ({ f with
            bloom := newFilter
            lastAppliedIndex := snapshotData.index
            lastAppliedTerm := snapshotData.term
            startTime := snapshotData.timestamp },
          none)
    | .error _ =>
      match deserialize env.crc32 data with
      | .error err => (f, some ("failed to restore bloom filter: " ++ err))
      | .ok newFilter => ({ f with bloom := newFilter }, none)

end BloomFSM

namespace FsmSnapshot

/-- The record `Persist` writes. -/
def toSnapshotData (now : Time) (s : FsmSnapshot) : SnapshotData :=
  { bloomFilter := s.bloomData, metadata := s.metadata, timestamp := now, index := 0, term := 0 }

def persist (now : Time) (s : FsmSnapshot) (sink : SnapshotSink) : SnapshotSink × Option String :=
  match env.snapshotData.marshal (s.toSnapshotData now) with
  | .error err => ({ sink with cancelled := true }, some ("failed to marshal snapshot: " ++ err))
  | .ok data =>
    match sink.writeErr with
    | some err => ({ sink with cancelled := true }, some ("failed to write snapshot: " ++ err))
    | none => ({ sink with written := sink.written ++ data, closed := true }, sink.closeErr)

end FsmSnapshot

end DistributedBloomFilter
