import DistributedBloomFilter.Grpc.Server

/-!
# The handlers that redirect to the leader

`Add`, `Remove` and `BatchAdd` of `DBFService` in `internal/grpc/service.go`.  On a node that is not the leader they
answer with the ID and the address of the leader, in one text.
-/

namespace DistributedBloomFilter

/-- A value in the map of `GetState`. -/
inductive StateValue where
  | string (s : String)
  | int (i : Int)
  | bool (b : Bool)
deriving DecidableEq, Repr

/-- The `RaftNode` behind the handlers, with a state `σ` of its own.  `getState` looks up a key in the map that
`GetState` returns. -/
structure RaftNode (σ : Type) where
  isLeader : σ → Bool
  getState : σ → String → Option StateValue
  add : Bytes → σ → Option String × σ
  remove : Bytes → σ → Option String × σ
  batchAdd : List Bytes → σ → (Int × Int × List String) × σ

namespace DBFService

variable {σ : Type}

/-- `v, ok := state[key].(string)`, with the value for a failed assertion. -/
def stringOr (default : String) : Option StateValue → String
  | some (.string s) => s
  | _ => default

def getLeaderInfo (raftNode : RaftNode σ) (s : σ) : String × String :=
  (stringOr "unknown" (raftNode.getState s "leader"), stringOr "" (raftNode.getState s "leader_address"))

def redirectText (leaderID leaderAddr : String) : String :=
  "not the leader, redirect to: " ++ leaderID ++ " (" ++ leaderAddr ++ ")"

/-- `Add` and `Remove`, which differ in the call of the node and in the word of the error. -/
def mutate (verb : String) (raftNode : RaftNode σ) (call : Bytes → σ → Option String × σ) (item : Bytes) (s : σ) :
    MutateResponse × σ :=
  if item = [] then (⟨false, "item cannot be empty"⟩, s)
  else if ¬ raftNode.isLeader s then
    let (leaderID, leaderAddr) := getLeaderInfo raftNode s
    (⟨false, redirectText leaderID leaderAddr⟩, s)
  else
    match call item s with
    | (some err, s') => (⟨false, "failed to " ++ verb ++ " item: " ++ err⟩, s')
    | (none, s') => (⟨true, ""⟩, s')

def add (raftNode : RaftNode σ) (item : Bytes) (s : σ) : MutateResponse × σ :=
  mutate "add" raftNode raftNode.add item s

def remove (raftNode : RaftNode σ) (item : Bytes) (s : σ) : MutateResponse × σ :=
  mutate "remove" raftNode raftNode.remove item s

def batchAdd (raftNode : RaftNode σ) (items : List Bytes) (s : σ) : BatchAddResponse × σ :=
  if items.length = 0 then (⟨0, 0, ["no items provided"]⟩, s)
  else if ¬ raftNode.isLeader s then
    let (leaderID, leaderAddr) := getLeaderInfo raftNode s
    (⟨0, Int32.ofNat items.length, [redirectText leaderID leaderAddr]⟩, s)
  else
    let ((successCount, failureCount, errors), s') := raftNode.batchAdd items s
    (⟨Int32.ofInt successCount, Int32.ofInt failureCount, errors⟩, s')

/-- Where the node leads, `DBFService` answers as `DBFServer` does. -/
theorem mutate_of_isLeader {raftNode : RaftNode σ} {s : σ} (h : raftNode.isLeader s = true) (verb : String)
    (call : Bytes → σ → Option String × σ) (item : Bytes) :
    mutate verb raftNode call item s = DBFServer.mutate verb call item s := by
  unfold mutate DBFServer.mutate
  rw [h]
  rfl

/-- A node that does not lead changes nothing. -/
theorem mutate_of_follower {raftNode : RaftNode σ} {s : σ} (h : raftNode.isLeader s = false) (verb : String)
    (call : Bytes → σ → Option String × σ) {item : Bytes} (hitem : item ≠ []) :
    mutate verb raftNode call item s =
      (⟨false, redirectText (getLeaderInfo raftNode s).1 (getLeaderInfo raftNode s).2⟩, s) := by
  rw [mutate, if_neg hitem, h]
  rfl

end DBFService

end DistributedBloomFilter
