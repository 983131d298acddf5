import DistributedBloomFilter.Basic
import DistributedBloomFilter.Lib.Run

/-!
# Waiting for replication

`WaitForReplication` of `internal/raft/replication.go` polls a Raft node every 100 ms until it has an index, the
context is done or the time is up.  The variable it compares is called `commitIndex`, but it is `LastIndex()` of the
node: the end of the local log, where entries stand that are not committed yet and may be truncated again.
`nil_of_committed_iff` says for every schedule of polls and Raft steps when the wait ends as its name says.
-/

namespace DistributedBloomFilter

/-! ### The progress of a Raft node -/

/-- The last index of the log, that of the latest snapshot, and up to where entries are committed. -/
structure RaftProgress where
  logIndex : Nat
  snapshotIndex : Nat
  commitIndex : Nat
  snapshotIndex_le : snapshotIndex ≤ commitIndex
  commitIndex_le : commitIndex ≤ max logIndex snapshotIndex
deriving DecidableEq, Repr

/-- What happens to the log of a node: an entry is appended, the entries up to an index are committed, those from an
index on are truncated, and a snapshot is taken or received. -/
inductive RaftStep where
  | append
  | commit (index : Nat)
  | truncate (index : Nat)
  | takeSnapshot (index : Nat)
  | installSnapshot (index : Nat)
deriving DecidableEq, Repr

namespace RaftProgress

/-- A node that has just been created. -/
def empty : RaftProgress := ⟨0, 0, 0, by decide, by decide⟩

/-- `LastIndex()`: the last index in the log or in the snapshot. -/
def lastIndex (p : RaftProgress) : Nat := max p.logIndex p.snapshotIndex

/-- Nothing is committed that is not in the log, no committed entry is truncated, a node takes a snapshot of what is
committed, and a received snapshot has only committed entries. -/
def step (p : RaftProgress) : RaftStep → RaftProgress
  | .append =>
    { p with
      logIndex := p.lastIndex + 1
      commitIndex_le := by have := p.commitIndex_le; simp only [lastIndex]; omega }
  | .commit index =>
    { p with
      commitIndex := max p.commitIndex (min index p.lastIndex)
      snapshotIndex_le := by have := p.snapshotIndex_le; omega
      commitIndex_le := by have := p.commitIndex_le; simp only [lastIndex]; omega }
  | .truncate index =>
    if h : p.commitIndex < index then
      { p with
        logIndex := min p.logIndex (index - 1)
        commitIndex_le := by have := p.commitIndex_le; omega }
    else p
  | .takeSnapshot index =>
    { p with
      snapshotIndex := max p.snapshotIndex (min index p.commitIndex)
      snapshotIndex_le := by have := p.snapshotIndex_le; omega
      commitIndex_le := by have := p.commitIndex_le; omega }
  | .installSnapshot index =>
    { p with
      snapshotIndex := max p.snapshotIndex index
      commitIndex := max p.commitIndex index
      snapshotIndex_le := by have := p.snapshotIndex_le; omega
      commitIndex_le := by have := p.commitIndex_le; omega }

theorem commitIndex_le_lastIndex (p : RaftProgress) : p.commitIndex ≤ p.lastIndex := p.commitIndex_le

/-- What is committed stays so. -/
theorem commitIndex_le_step (p : RaftProgress) (e : RaftStep) : p.commitIndex ≤ (p.step e).commitIndex := by
  cases e with
  | append => exact Nat.le_refl _
  | commit index => exact Nat.le_max_left ..
  | truncate index =>
    unfold step
    dsimp only
    split <;> exact Nat.le_refl _
  | takeSnapshot index => exact Nat.le_refl _
  | installSnapshot index => exact Nat.le_max_left ..

end RaftProgress

/-! ### The wait -/

/-- The cases of the `select` in the loop. -/
inductive WaitCase where
  | ctxDone
  | timeout
  | tick
deriving DecidableEq, Repr

/-- What happens while a call of `WaitForReplication` waits.  `select` is the choice of a case. -/
inductive WaitEvent where
  | raft (e : RaftStep)
  | setRaftNode (node : Option RaftProgress)
  | elapse (nanoseconds : Nat)
  | cancel (err : String)
  | select (case : WaitCase)
deriving DecidableEq, Repr

/-- A call of `WaitForReplication` and the node of the manager.  `elapsed` is the time since the call, `tick` says
that there is a tick in the channel of the ticker, `result` is what the call has returned.  `committed` is for the
record: the last index that has been committed at some time. -/
structure ReplicationWait where
  raftNode : Option RaftProgress
  committed : Nat
  elapsed : Nat
  tick : Bool
  ctxErr : Option String
  result : Option (Except String Unit)

namespace ReplicationWait

def start (raftNode : Option RaftProgress) (ctxErr : Option String) : ReplicationWait where
  raftNode := raftNode
  committed := (raftNode.map RaftProgress.commitIndex).getD 0
  elapsed := 0
  tick := false
  ctxErr := ctxErr
  result := none

def tickInterval : Nat := 100000000

/-- The manager has this node from now on. -/
def withNode (s : ReplicationWait) (node : Option RaftProgress) : ReplicationWait :=
  { s with raftNode := node, committed := max s.committed ((node.map RaftProgress.commitIndex).getD 0) }

/-- The body of the case that receives a tick. -/
def poll (index : Nat) (s : ReplicationWait) : ReplicationWait :=
  match s.raftNode with
  | none => { s with tick := false, result := some (.error "raft node not started") }
  | some node =>
    let commitIndex := node.lastIndex
    if commitIndex ≥ index then { s with tick := false, result := some (.ok ()) } else { s with tick := false }

/-- A case is chosen only when its channel is ready. -/
def select (index : Nat) (timeout : Int) (s : ReplicationWait) : WaitCase → ReplicationWait
  | .ctxDone =>
    match s.ctxErr with
    | some err => { s with result := some (.error err) }
    | none => s
  | .timeout => if timeout ≤ s.elapsed then { s with result := some (.error "replication timeout") } else s
  | .tick => if s.tick then s.poll index else s

/-- Nothing happens to a call that has returned. -/
def step (index : Nat) (timeout : Int) (s : ReplicationWait) (e : WaitEvent) : ReplicationWait :=
  if s.result.isSome then s
  else
    match e with
    | .raft e => s.withNode (s.raftNode.map (·.step e))
    | .setRaftNode node => s.withNode node
    | .elapse d =>
      -- a tick that finds the channel full is dropped
      { s with elapsed := s.elapsed + d, tick := s.tick || s.elapsed / tickInterval < (s.elapsed + d) / tickInterval }
    | .cancel err => { s with ctxErr := s.ctxErr.or (some err) }
    | .select case => s.select index timeout case

variable {index : Nat} {timeout : Int} {s : ReplicationWait}

theorem step_of_result {r : Except String Unit} (h : s.result = some r) (e : WaitEvent) :
    s.step index timeout e = s := by
  unfold step
  rw [h]
  rfl

theorem step_tick (hresult : s.result = none) (htick : s.tick = true) :
    s.step index timeout (.select .tick) = s.poll index := by
  unfold step
  rw [hresult]
  exact if_pos htick

theorem poll_frame : (s.poll index).raftNode = s.raftNode ∧ (s.poll index).committed = s.committed := by
  unfold poll
  split
  · exact ⟨rfl, rfl⟩
  · dsimp only
    split <;> exact ⟨rfl, rfl⟩

/-- The loop does nothing to the node. -/
theorem select_frame (s : ReplicationWait) (index : Nat) (timeout : Int) (case : WaitCase) :
    (s.select index timeout case).raftNode = s.raftNode ∧ (s.select index timeout case).committed = s.committed := by
  unfold select
  split
  · split <;> exact ⟨rfl, rfl⟩
  · split <;> exact ⟨rfl, rfl⟩
  · split
    · exact poll_frame
    · exact ⟨rfl, rfl⟩

/-- A poll returns nil when it finds the index. -/
theorem result_poll_iff (hresult : s.result = none) :
    (s.poll index).result = some (.ok ()) ↔ ∃ node ∈ s.raftNode, index ≤ node.lastIndex := by
  unfold poll
  cases hnode : s.raftNode with
  | none => simp
  | some node =>
    dsimp only
    split <;> simp_all

/-! ### An index that is committed -/

/-- There is a node, and what it has committed is all that has been committed. -/
def Follows (s : ReplicationWait) : Prop := ∃ node, s.raftNode = some node ∧ node.commitIndex = s.committed

theorem follows_step {e : WaitEvent} (h : s.Follows) (he : ∀ node, e ≠ .setRaftNode node) :
    (s.step index timeout e).Follows := by
  obtain ⟨node, hnode, hcommitted⟩ := h
  unfold step
  split
  · exact ⟨node, hnode, hcommitted⟩
  · cases e with
    | raft e =>
      have hle := node.commitIndex_le_step e
      exact ⟨node.step e, by simp [withNode, hnode], by simp [withNode, hnode]; omega⟩
    | setRaftNode node => exact absurd rfl (he node)
    | select case =>
      obtain ⟨hnode', hcommitted'⟩ := select_frame s index timeout case
      exact ⟨node, hnode'.trans hnode, hcommitted.trans hcommitted'.symm⟩
    | _ => exact ⟨node, hnode, hcommitted⟩

/-- On a manager that keeps its node, the first poll after the index has been committed returns nil. -/
theorem result_of_committed {node : RaftProgress} {ctxErr : Option String} {es : List WaitEvent}
    (hes : ∀ e ∈ es, ∀ node, e ≠ .setRaftNode node)
    (hresult : (Run.exec (step index timeout) (start (some node) ctxErr) es).result = none)
    (htick : (Run.exec (step index timeout) (start (some node) ctxErr) es).tick = true)
    (hindex : index ≤ (Run.exec (step index timeout) (start (some node) ctxErr) es).committed) :
    (Run.exec (step index timeout) (start (some node) ctxErr) (es ++ [.select .tick])).result = some (.ok ()) := by
  have hfollows : (Run.exec (step index timeout) (start (some node) ctxErr) es).Follows := by
    have hkeeps := Run.admits_of_forall (step index timeout) hes (start (some node) ctxErr)
    exact Run.invariant (fun _ _ => follows_step) ⟨node, rfl, rfl⟩ hkeeps
  obtain ⟨node', hnode, hcommitted⟩ := hfollows
  rw [Run.exec_append, Run.exec_cons, Run.exec_nil, step_tick hresult htick, result_poll_iff hresult]
  exact ⟨node', hnode, Nat.le_trans (hcommitted ▸ hindex) node'.commitIndex_le_lastIndex⟩

/-! ### What nil says about the index -/

/-- If the call has returned nil, the index had been committed by then. -/
def Sound (index : Nat) (s : ReplicationWait) : Prop := s.result = some (.ok ()) → index ≤ s.committed

/-- When a poll finds the index in the log, it has been committed. -/
def FoundCommitted (index : Nat) (s : ReplicationWait) (e : WaitEvent) : Prop :=
  e = .select .tick → s.result = none → s.tick = true →
    ∀ node ∈ s.raftNode, index ≤ node.lastIndex → index ≤ s.committed

/-- Only a poll returns nil. -/
theorem result_step_ne_ok (hresult : s.result = none) {e : WaitEvent} (he : e = .select .tick → s.tick = false) :
    (s.step index timeout e).result ≠ some (.ok ()) := by
  unfold step
  rw [hresult]
  cases e with
  | select case =>
    cases case with
    | ctxDone => cases hctx : s.ctxErr <;> simp [select, hctx, hresult]
    | timeout => by_cases htime : timeout ≤ s.elapsed <;> simp [select, htime, hresult]
    | tick => simp [select, he rfl, hresult]
  | _ => simp [withNode, hresult]

theorem sound_of_result (h : s.result = none) : s.Sound index := fun hnil => absurd (h.symm.trans hnil) nofun

theorem sound_step_iff (s : ReplicationWait) (e : WaitEvent) :
    (s.step index timeout e).Sound index ↔ s.Sound index ∧ s.FoundCommitted index e := by
  cases hresult : s.result with
  | some r =>
    rw [step_of_result hresult]
    have hfound : s.FoundCommitted index e := fun _ hnone => absurd (hresult.symm.trans hnone) nofun
    exact (and_iff_left hfound).symm
  | none =>
    rw [and_iff_right (sound_of_result hresult)]
    by_cases he : e = .select .tick ∧ s.tick = true
    · obtain ⟨rfl, htick⟩ := he
      rw [step_tick hresult htick, Sound, result_poll_iff hresult, poll_frame.2]
      exact ⟨fun h _ _ _ node hnode hle => h ⟨node, hnode, hle⟩, fun h ⟨node, hnode, hle⟩ =>
        h rfl hresult htick node hnode hle⟩
    · have hnot : (s.step index timeout e).result ≠ some (.ok ()) :=
        result_step_ne_ok hresult fun heq => Bool.eq_false_iff.2 fun htick => he ⟨heq, htick⟩
      exact ⟨fun _ heq _ htick => absurd ⟨heq, htick⟩ he, fun _ hnil => absurd hnil hnot⟩

/-- A wait that returns nil does so after the index has been committed if and only if this is so for every poll that
finds the index in the log. -/
theorem nil_of_committed_iff (index : Nat) (timeout : Int) (raftNode : Option RaftProgress) (ctxErr : Option String)
    (es : List WaitEvent) :
    (Run.exec (step index timeout) (start raftNode ctxErr) es).Sound index ↔
      Run.Admits (step index timeout) (FoundCommitted index) (start raftNode ctxErr) es := by
  rw [Run.exec_iff_admits sound_step_iff, and_iff_right (sound_of_result rfl)]

/-- The entry with the index 1 is appended and found by the first poll. -/
def appendedOnly : List WaitEvent := [.raft .append, .elapse 100000000, .select .tick]

/-- The wait returns nil though nothing has been committed; then the entry can be truncated. -/
theorem nil_not_committed :
    let s := Run.exec (step 1 5000000000) (start (some .empty) none) appendedOnly
    s.result = some (.ok ()) ∧ s.committed = 0 ∧ ¬ s.Sound 1 ∧
      s.raftNode.map (fun node => (node.step (.truncate 1)).lastIndex) = some 0 := by
  refine ⟨rfl, by decide, fun h => ?_, by decide⟩
  exact absurd (h rfl) (by decide)

end ReplicationWait

end DistributedBloomFilter
