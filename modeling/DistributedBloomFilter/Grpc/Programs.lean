import DistributedBloomFilter.Grpc.Service
import DistributedBloomFilter.Lib.Program
import DistributedBloomFilter.Raft.Acknowledged

/-!
# The handlers of the server, call by call

All handlers of `DBFServer` in `internal/grpc/server.go`, as programs that call the node: gRPC serves many requests at
a time, and a handler of a batch calls the node once for every item, so that other handlers call it in between.

What a response tells can be seen from the answers that its handler got (`granted_of_batchAdd`, `mem_of_contains`,
`mem_of_batchContains`), and only `Remove` removes (`eq_remove_of_follows`).
-/

namespace DistributedBloomFilter

open Program (Answered Follows)

/-- A call of a method of `raft.Node`. -/
inductive NodeCall where
  | write (op : WriteOp) (item : Bytes)
  | contains (item : Bytes)
  | getState
deriving DecidableEq, Repr

/-- What the call returns; a map that `GetState` returns is looked up by key. -/
@[reducible] def NodeCall.Answer : NodeCall → Type
  | write _ _ => Option String
  | contains _ => Bool
  | getState => String → Option StateValue

structure ContainsResponse where
  found : Bool
  error : String
deriving DecidableEq, Repr

structure BatchContainsResponse where
  results : List Bool
  error : String
deriving DecidableEq, Repr

structure GetStatsResponse where
  nodeId : String
  isLeader : Bool
  raftState : String
  leader : String
  bloomSize : Int64
  bloomK : Int32
  bloomCount : Int64
  raftPort : Int32
  error : String
deriving DecidableEq, Repr

/-- A request to the service: `Add` and `Remove` are writes. -/
inductive GrpcRequest where
  | write (op : WriteOp) (item : Bytes)
  | contains (item : Bytes)
  | batchAdd (items : List Bytes)
  | batchContains (items : List Bytes)
  | getStats
deriving DecidableEq, Repr

@[reducible] def GrpcRequest.Response : GrpcRequest → Type
  | write _ _ => MutateResponse
  | contains _ => ContainsResponse
  | batchAdd _ => BatchAddResponse
  | batchContains _ => BatchContainsResponse
  | getStats => GetStatsResponse

abbrev ServerProgram (α : Type) := Program NodeCall NodeCall.Answer α

namespace DBFServer

/-- `Add` and `Remove`. -/
def write (op : WriteOp) (item : Bytes) : ServerProgram MutateResponse :=
  if item = [] then .done ⟨false, "item cannot be empty"⟩
  else .call (.write op item) fun
    | some err => .done ⟨false, "failed to " ++ op.cmdType ++ " item: " ++ err⟩
    | none => .done ⟨true, ""⟩

def contains (item : Bytes) : ServerProgram ContainsResponse :=
  if item = [] then .done ⟨false, "item cannot be empty"⟩
  else .call (.contains item) fun found => .done ⟨found, ""⟩

/-- The loop of `BatchAdd`; the state of the node is not one of its variables. -/
def batchAddLoop (b : BatchState Unit) : List Bytes → ServerProgram BatchAddResponse
  | [] => .done ⟨Int32.ofNat b.successCount, Int32.ofNat b.failureCount, b.errors⟩
  | item :: items =>
    if item = [] then
      batchAddLoop { b with failureCount := b.failureCount + 1, errors := b.errors ++ ["item cannot be empty"] } items
    else .call (.write .add item) fun
      | some err =>
        batchAddLoop
          { b with failureCount := b.failureCount + 1, errors := b.errors ++ ["failed to add item: " ++ err] } items
      | none => batchAddLoop { b with successCount := b.successCount + 1, errors := b.errors ++ [""] } items

def batchAddItems (items : List Bytes) : ServerProgram BatchAddResponse :=
  if items.length = 0 then .done ⟨0, 0, ["no items provided"]⟩ else batchAddLoop ⟨0, 0, [], ()⟩ items

def batchContainsLoop (results : List Bool) : List Bytes → ServerProgram BatchContainsResponse
  | [] => .done ⟨results, ""⟩
  | item :: items =>
    if item = [] then batchContainsLoop (results ++ [false]) items
    else .call (.contains item) fun found => batchContainsLoop (results ++ [found]) items

def batchContains (items : List Bytes) : ServerProgram BatchContainsResponse :=
  if items.length = 0 then .done ⟨[], "no items provided"⟩ else batchContainsLoop [] items

/-- `v, ok := state[key].(bool)` and `v, ok := state[key].(int)`, with the value for a failed assertion. -/
def boolOr (default : Bool) : Option StateValue → Bool
  | some (.bool b) => b
  | _ => default

def intOr (default : Int) : Option StateValue → Int
  | some (.int i) => i
  | _ => default

def getStats : ServerProgram GetStatsResponse :=
  .call .getState fun state => .done
    { nodeId := DBFService.stringOr "unknown" (state "node_id")
      isLeader := boolOr false (state "is_leader")
      raftState := DBFService.stringOr "unknown" (state "raft_state")
      leader := DBFService.stringOr "" (state "leader")
      bloomSize := Int64.ofInt (intOr 0 (state "bloom_size"))
      bloomK := Int32.ofInt (intOr 0 (state "bloom_k"))
      -- an eighth of the counters
      bloomCount := if 0 < intOr 0 (state "bloom_size") then Int64.ofInt (intOr 0 (state "bloom_size") / 8) else 0
      raftPort := Int32.ofInt (intOr 0 (state "raft_port"))
      error := "" }

def handle : (q : GrpcRequest) → ServerProgram q.Response
  | .write op item => write op item
  | .contains item => contains item
  | .batchAdd items => batchAddItems items
  | .batchContains items => batchContains items
  | .getStats => getStats

/-! ### Only `Remove` removes -/

private theorem uses_batchAddLoop (items : List Bytes) (b : BatchState Unit) :
    (batchAddLoop b items).Uses fun c => ∃ item, c = .write .add item := by
  induction items generalizing b with
  | nil => trivial
  | cons item items ih =>
    rw [batchAddLoop]
    split
    · exact ih _
    · refine ⟨⟨item, rfl⟩, fun answer => ?_⟩
      cases answer with
      | none => exact ih _
      | some err => exact ih _

private theorem uses_batchContainsLoop (items : List Bytes) (results : List Bool) :
    (batchContainsLoop results items).Uses fun c => ∃ item, c = .contains item := by
  induction items generalizing results with
  | nil => trivial
  | cons item items ih =>
    rw [batchContainsLoop]
    split
    · exact ih _
    · exact ⟨⟨item, rfl⟩, fun found => ih _⟩

variable {trace : List (Answered NodeCall.Answer)}

/-- Of a write nothing is left to call once it has been answered. -/
private theorem write_calls {op : WriteOp} {x : Bytes} {c : NodeCall} {next : c.Answer → ServerProgram MutateResponse}
    (h : Follows (write op x) trace (.call c next)) : c = .write op x ∧ trace = [] := by
  unfold write at h
  split at h
  · cases h
  · cases h with
    | refl => exact ⟨rfl, rfl⟩
    | call answer h => cases answer <;> cases h

private theorem contains_calls {x : Bytes} {c : NodeCall} {next : c.Answer → ServerProgram ContainsResponse}
    (h : Follows (contains x) trace (.call c next)) : c = .contains x := by
  unfold contains at h
  split at h
  · cases h
  · cases h with
    | refl => rfl
    | call answer h => cases h

private theorem batchAdd_calls {items : List Bytes} {c : NodeCall} {next : c.Answer → ServerProgram BatchAddResponse}
    (h : Follows (batchAddItems items) trace (.call c next)) : ∃ item, c = .write .add item := by
  unfold batchAddItems at h
  split at h
  · cases h
  · exact (h.uses (uses_batchAddLoop items _)).1

private theorem batchContains_calls {items : List Bytes} {c : NodeCall}
    {next : c.Answer → ServerProgram BatchContainsResponse}
    (h : Follows (batchContains items) trace (.call c next)) : ∃ item, c = .contains item := by
  unfold batchContains at h
  split at h
  · cases h
  · exact (h.uses (uses_batchContainsLoop items _)).1

theorem eq_remove_of_follows {q : GrpcRequest} {item : Bytes} {next : Option String → ServerProgram q.Response}
    (h : Follows (handle q) trace (.call (.write .remove item) next)) : q = .write .remove item ∧ trace = [] := by
  cases q with
  | write op x =>
    obtain ⟨hc, htrace⟩ := write_calls h
    cases hc
    exact ⟨rfl, htrace⟩
  | contains x => cases contains_calls h
  | batchAdd items =>
    obtain ⟨y, hy⟩ := batchAdd_calls h
    cases hy
  | batchContains items =>
    obtain ⟨y, hy⟩ := batchContains_calls h
    cases hy
  | getStats =>
    have h : Follows getStats trace (.call (.write .remove item) next) := h
    cases h with
    | call answer h => cases h

/-! ### What a response tells -/

/-- The item of an `Add` that returned nil. -/
def grant : Answered NodeCall.Answer → Option Bytes
  | ⟨.write .add item, none⟩ => some item
  | _ => none

/-- The items whose `Add` returned nil. -/
def granted (trace : List (Answered NodeCall.Answer)) : List Bytes := trace.filterMap grant

/-- The items with an empty error. -/
def accepted (items : List Bytes) (errors : List String) : List Bytes :=
  (items.zip errors).filterMap fun e => if e.2 = "" then some e.1 else none

theorem granted_of_write {item : Bytes} {resp : MutateResponse} (h : Follows (write .add item) trace (.done resp))
    (hresp : resp.success = true) : granted trace = [item] := by
  unfold write at h
  split at h
  · cases h
    cases hresp
  · cases h with
    | call answer h =>
      cases answer with
      | none =>
        cases h
        rfl
      | some err =>
        cases h
        cases hresp

private theorem granted_of_batchAddLoop {items : List Bytes} {b : BatchState Unit} {resp : BatchAddResponse}
    (h : Follows (batchAddLoop b items) trace (.done resp)) :
    ∃ errors, resp.errors = b.errors ++ errors ∧ granted trace = accepted items errors := by
  induction items generalizing b trace with
  | nil =>
    cases h
    exact ⟨[], (List.append_nil _).symm, rfl⟩
  | cons item items ih =>
    have hcons : ∀ (error : String) (errors : List String),
        b.errors ++ [error] ++ errors = b.errors ++ error :: errors :=
      fun error errors => by rw [List.append_assoc, List.singleton_append]
    rw [batchAddLoop] at h
    split at h
    · obtain ⟨errors, herrors, hgranted⟩ := ih h
      exact ⟨_, herrors.trans (hcons _ errors), hgranted⟩
    · cases h with
      | call answer h =>
        cases answer with
        | none =>
          obtain ⟨errors, herrors, hgranted⟩ := ih h
          exact ⟨_, herrors.trans (hcons _ errors), congrArg (item :: ·) hgranted⟩
        | some err =>
          obtain ⟨errors, herrors, hgranted⟩ := ih h
          refine ⟨_, herrors.trans (hcons _ errors), hgranted.trans ?_⟩
          have hne : "failed to add item: " ++ err ≠ "" := by
            intro heq
            have := congrArg String.length heq
            rw [String.length_append] at this
            have hlen : "failed to add item: ".length = 20 := rfl
            have hzero : "".length = 0 := rfl
            omega
          simp [accepted, hne]

/-- The items of a batch with an empty error are those whose `Add` returned nil. -/
theorem granted_of_batchAdd {items : List Bytes} {resp : BatchAddResponse}
    (h : Follows (batchAddItems items) trace (.done resp)) : granted trace = accepted items resp.errors := by
  unfold batchAddItems at h
  split at h
  · rename_i hnil
    cases h
    rw [List.length_eq_zero_iff.1 hnil]
    rfl
  · obtain ⟨errors, herrors, hgranted⟩ := granted_of_batchAddLoop h
    rw [herrors]
    exact hgranted

theorem mem_of_contains {item : Bytes} {resp : ContainsResponse} (h : Follows (contains item) trace (.done resp))
    (hresp : resp.error = "") : ⟨.contains item, resp.found⟩ ∈ trace := by
  unfold contains at h
  split at h
  · cases h
    exact absurd hresp (by decide)
  · cases h with
    | call found h =>
      cases h
      exact List.mem_singleton_self _

private theorem mem_of_batchContainsLoop {items : List Bytes} {results : List Bool} {resp : BatchContainsResponse}
    (h : Follows (batchContainsLoop results items) trace (.done resp)) :
    ∃ rest, resp.results = results ++ rest ∧ rest.length = items.length ∧
      ∀ e ∈ items.zip rest, e.1 ≠ [] → ⟨.contains e.1, e.2⟩ ∈ trace := by
  induction items generalizing results trace with
  | nil =>
    cases h
    exact ⟨[], (List.append_nil _).symm, rfl, by simp⟩
  | cons item items ih =>
    have hcons : ∀ (b : Bool) (rest : List Bool), results ++ [b] ++ rest = results ++ b :: rest :=
      fun b rest => by rw [List.append_assoc, List.singleton_append]
    rw [batchContainsLoop] at h
    split at h
    · rename_i hitem
      obtain ⟨rest, hrest, hlen, hmem⟩ := ih h
      refine ⟨_, hrest.trans (hcons _ rest), by simp [hlen], fun e he hne => ?_⟩
      rcases List.mem_cons.1 he with rfl | he
      · exact absurd hitem hne
      · exact hmem e he hne
    · cases h with
      | call found h =>
        obtain ⟨rest, hrest, hlen, hmem⟩ := ih h
        refine ⟨_, hrest.trans (hcons _ rest), by simp [hlen], fun e he hne => ?_⟩
        rcases List.mem_cons.1 he with rfl | he
        · exact List.mem_cons_self
        · exact List.mem_cons_of_mem _ (hmem e he hne)

theorem mem_of_batchContains {items : List Bytes} {resp : BatchContainsResponse}
    (h : Follows (batchContains items) trace (.done resp)) (hresp : resp.error = "") :
    resp.results.length = items.length ∧
      ∀ e ∈ items.zip resp.results, e.1 ≠ [] → ⟨.contains e.1, e.2⟩ ∈ trace := by
  unfold batchContains at h
  split at h
  · cases h
    exact absurd hresp (by decide)
  · obtain ⟨rest, hrest, hlen, hmem⟩ := mem_of_batchContainsLoop h
    rw [List.nil_append] at hrest
    rw [hrest]
    exact ⟨hlen, hmem⟩

end DBFServer

end DistributedBloomFilter
