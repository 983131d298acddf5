import DistributedBloomFilter.Sdk.Client

/-!
# Adding and removing over a network that loses messages

`Client.Add` and `Client.Remove` against `DBFServer`.  For every attempt the schedule says whether the request and its
response get through and what the node makes of the command.  An attempt whose response is lost is repeated like one
whose request was lost, so a command can be applied more than once before the call returns nil.
-/

namespace DistributedBloomFilter

/-- What the network does with a request; the texts are the errors the client sees. -/
inductive Delivery where
  | lost (err : String)
  | unanswered (err : String)
  | answered
deriving DecidableEq

/-- What the node does with a command: it applies it and returns nil, or returns an error and has applied it or
not. -/
inductive NodeReply where
  | ok
  | failed (applied : Bool) (err : String)
deriving DecidableEq

/-- The request gets through. -/
def Delivery.reaches : Delivery → Bool
  | .lost _ => false
  | .unanswered _ | .answered => true

def NodeReply.applies : NodeReply → Bool
  | .ok => true
  | .failed applied _ => applied

/-- Everything that is not the client's during an attempt; `ctxErr` is the error of a context that is done in the wait
after it. -/
structure Attempt where
  delivery : Delivery
  node : NodeReply
  ctxErr : Option String
  dialer : Dialer

inductive Op where
  | add
  | remove
deriving DecidableEq

namespace Attempt

variable (a : Attempt)

/-- The node's `Add` or `Remove`, with the commands it has applied. -/
def nodeCall (op : Op) (item : Bytes) (applied : List (Op × Bytes)) : Option String × List (Op × Bytes) :=
  match a.node with
  | .ok => (none, applied ++ [(op, item)])
  | .failed done err => (some err, if done then applied ++ [(op, item)] else applied)

/-- A call of the server: the handler runs unless the request is lost. -/
def rpc {ρ σ : Type} (handle : σ → ρ × σ) (s : σ) : Except String ρ × σ :=
  match a.delivery with
  | .lost err => (.error err, s)
  | .unanswered err => (.error err, (handle s).2)
  | .answered => (.ok (handle s).1, (handle s).2)

/-- The command is applied in this attempt. -/
def Applies (key : Bytes) : Prop := key ≠ [] ∧ a.delivery.reaches = true ∧ a.node.applies = true

/-- The client is told that it was. -/
def Acked (key : Bytes) : Prop := key ≠ [] ∧ a.delivery = .answered ∧ a.node = .ok

instance (key : Bytes) : Decidable (a.Applies key) := inferInstanceAs (Decidable (_ ∧ _ ∧ _))

instance (key : Bytes) : Decidable (a.Acked key) := inferInstanceAs (Decidable (_ ∧ _ ∧ _))

end Attempt

namespace Client

variable (c : Client) (schedule : Nat → Attempt)

/-- `Add` and `Remove`, which differ in the handler they call and in the word of their errors. -/
def mutate (verb : String) (op : Op)
    (handler : (Bytes → List (Op × Bytes) → Option String × List (Op × Bytes)) → Bytes → List (Op × Bytes) →
      MutateResponse × List (Op × Bytes)) (key : Bytes) : CallResult (List (Op × Bytes)) :=
  c.executeWithRetry (fun i => (schedule i).dialer) (fun i => (schedule i).ctxErr)
    (fun i _ s =>
      let (reply, s') := (schedule i).rpc (handler ((schedule i).nodeCall op) key) s
      (mutateError verb reply, s'))
    []

def add (key : Bytes) : CallResult (List (Op × Bytes)) := c.mutate schedule "add" .add DBFServer.add key

def remove (key : Bytes) : CallResult (List (Op × Bytes)) := c.mutate schedule "remove" .remove DBFServer.remove key

def call (op : Op) (key : Bytes) : CallResult (List (Op × Bytes)) :=
  match op with
  | .add => c.add schedule key
  | .remove => c.remove schedule key

/-- A call that returns nil has had its command applied exactly once. -/
def AppliedOnce (op : Op) (key : Bytes) : Prop :=
  (c.call schedule op key).err = none → (c.call schedule op key).state = [(op, key)]

/-- There is an attempt, and none before the acknowledged one is applied.  That is the first attempt to be
acknowledged, provided that the client goes on after all those before it. -/
def FirstApplied (key : Bytes) : Prop :=
  0 ≤ c.config.maxRetries ∧ (c.client ≠ none → ∀ i : Nat, i ≤ c.config.maxRetries → (schedule i).Acked key →
    (∀ j < i, ¬ (schedule j).Acked key ∧ (schedule j).ctxErr = none) → ∀ j < i, ¬ (schedule j).Applies key)

end Client

/-! ### One attempt -/

namespace Attempt

/-- The error the client makes of an attempt. -/
def outcome (verb : String) (a : Attempt) (key : Bytes) : Option String :=
  match a.delivery with
  | .lost err => some err
  | .unanswered err => some err
  | .answered =>
    if key = [] then some (verb ++ " failed: " ++ "item cannot be empty")
    else
      match a.node with
      | .ok => none
      | .failed _ err => some (verb ++ " failed: " ++ ("failed to " ++ verb ++ " item: " ++ err))

/-- The commands applied in an attempt: the one of the call, or none. -/
def log (op : Op) (a : Attempt) (key : Bytes) : List (Op × Bytes) := if a.Applies key then [(op, key)] else []

theorem outcome_eq_none_iff {verb : String} {a : Attempt} {key : Bytes} :
    a.outcome verb key = none ↔ a.Acked key := by
  unfold outcome Acked
  cases a.delivery with
  | lost err => simp
  | unanswered err => simp
  | answered =>
    by_cases hkey : key = []
    · simp [hkey]
    · cases a.node <;> simp [hkey]

theorem Acked.applies {a : Attempt} {key : Bytes} (h : a.Acked key) : a.Applies key := by
  obtain ⟨hkey, hdelivery, hnode⟩ := h
  exact ⟨hkey, by rw [hdelivery]; rfl, by rw [hnode]; rfl⟩

/-- The handler records the command once if the key is not empty and the node applies it. -/
private theorem mutate_snd (verb : String) (op : Op) (a : Attempt) (key : Bytes) (s : List (Op × Bytes)) :
    (DBFServer.mutate verb (a.nodeCall op) key s).2 =
      s ++ if key ≠ [] ∧ a.node.applies = true then [(op, key)] else [] := by
  unfold DBFServer.mutate nodeCall
  by_cases hkey : key = []
  · simp [hkey]
  · cases a.node with
    | ok => simp [hkey, NodeReply.applies]
    | failed applied err => cases applied <;> simp [hkey, NodeReply.applies]

private theorem mutateError_fst (verb : String) (op : Op) (a : Attempt) (key : Bytes) (s : List (Op × Bytes)) :
    Client.mutateError verb (.ok (DBFServer.mutate verb (a.nodeCall op) key s).1) =
      (Attempt.outcome verb { a with delivery := .answered } key).map .other := by
  unfold DBFServer.mutate nodeCall outcome
  by_cases hkey : key = []
  · have hempty : isLeaderRedirect "item cannot be empty" = false := by decide
    simp [hkey, Client.mutateError, hempty]
  · cases a.node with
    | ok => simp [hkey, Client.mutateError]
    | failed applied err =>
      have hfailed : isLeaderRedirect ("failed to " ++ verb ++ " item: " ++ err) = false := by
        rw [String.append_assoc, String.append_assoc]
        exact not_isLeaderRedirect_append rfl (by decide) (by decide) _
      simp [hkey, Client.mutateError, hfailed]

/-- The call of the server in an attempt, seen from the client: it is never a redirect. -/
theorem rpc_mutate (verb : String) (op : Op) (a : Attempt) (key : Bytes) (s : List (Op × Bytes)) :
    (Client.mutateError verb (a.rpc (DBFServer.mutate verb (a.nodeCall op) key) s).1,
      (a.rpc (DBFServer.mutate verb (a.nodeCall op) key) s).2) =
    ((a.outcome verb key).map .other, s ++ a.log op key) := by
  have hsnd := mutate_snd verb op a key s
  have hfst := mutateError_fst verb op a key s
  obtain ⟨delivery, node, ctxErr, dialer⟩ := a
  cases delivery with
  | lost err => simp [rpc, log, Applies, outcome, Client.mutateError, Delivery.reaches]
  | unanswered err => simp [rpc, log, Applies, outcome, Client.mutateError, Delivery.reaches, hsnd]
  | answered => simp [rpc, log, Applies, Delivery.reaches, hsnd, hfst]

end Attempt

/-! ### Whole calls -/

namespace Client

variable {c : Client} {schedule : Nat → Attempt}

theorem mutate_eq (verb : String) (op : Op) (key : Bytes) :
    c.mutate schedule verb op (DBFServer.mutate verb) key =
      c.executeWithRetry (fun i => (schedule i).dialer) (fun i => (schedule i).ctxErr)
        (fun i _ s => (((schedule i).outcome verb key).map .other, s ++ (schedule i).log op key)) [] := by
  have hfn : (fun (i : Nat) (_ : String) (s : List (Op × Bytes)) =>
      (mutateError verb ((schedule i).rpc (DBFServer.mutate verb ((schedule i).nodeCall op) key) s).1,
        ((schedule i).rpc (DBFServer.mutate verb ((schedule i).nodeCall op) key) s).2)) =
      fun i _ s => (((schedule i).outcome verb key).map .other, s ++ (schedule i).log op key) := by
    funext i _ s
    exact Attempt.rpc_mutate verb op (schedule i) key s
  rw [← hfn]
  rfl

/-- The commands of the attempts that are made, and when the call returns nil. -/
theorem mutate_spec (schedule : Nat → Attempt) (hclient : c.client ≠ none) (hmax : 0 ≤ c.config.maxRetries)
    (verb : String) (op : Op) (key : Bytes) :
    ∃ n, (∀ i : Nat, i < n ↔ (i : Int) ≤ c.config.maxRetries ∧
        ∀ j < i, ¬ (schedule j).Acked key ∧ (schedule j).ctxErr = none) ∧
      (c.mutate schedule verb op (DBFServer.mutate verb) key).state =
        (List.range n).flatMap (fun i => (schedule i).log op key) ∧
      ((c.mutate schedule verb op (DBFServer.mutate verb) key).err = none ↔
        ∃ i, n = i + 1 ∧ (schedule i).Acked key) := by
  rw [mutate_eq]
  obtain ⟨n, hn, hstate, herr⟩ := executeWithRetry_spec (fun i => (schedule i).dialer) (fun i => (schedule i).ctxErr)
    (fun i => (schedule i).outcome verb key) (fun i => (schedule i).log op key) (fun i _ s => rfl) hclient hmax
  simp only [Attempt.outcome_eq_none_iff, ne_eq] at hn herr
  exact ⟨n, hn, hstate, herr⟩

/-- Up to an acknowledged attempt one command has been applied if and only if none has before it. -/
private theorem flatMap_log_eq_iff {op : Op} {key : Bytes} {i : Nat} (hacked : (schedule i).Acked key) :
    (List.range (i + 1)).flatMap (fun i => (schedule i).log op key) = [(op, key)] ↔
      ∀ j < i, ¬ (schedule j).Applies key := by
  have hlog : (schedule i).log op key = [(op, key)] := if_pos hacked.applies
  rw [List.range_succ, List.flatMap_append, List.flatMap_singleton, hlog, List.append_left_eq_self,
    List.flatMap_eq_nil_iff]
  refine ⟨fun h j hj happlies => ?_, fun h j hj => if_neg (h j (List.mem_range.1 hj))⟩
  have hnil : (schedule j).log op key = [] := h j (List.mem_range.2 hj)
  rw [Attempt.log, if_pos happlies] at hnil
  cases hnil

theorem mutate_appliedOnce_iff (verb : String) (op : Op) (key : Bytes) :
    ((c.mutate schedule verb op (DBFServer.mutate verb) key).err = none →
      (c.mutate schedule verb op (DBFServer.mutate verb) key).state = [(op, key)]) ↔ c.FirstApplied schedule key := by
  by_cases hmax : 0 ≤ c.config.maxRetries
  swap
  · -- no attempt: nil, and nothing was sent
    rw [mutate, executeWithRetry_of_neg _ _ _ (by omega)]
    exact ⟨fun h => absurd (h rfl) (by simp), fun h => absurd h.1 hmax⟩
  by_cases hclient : c.client = none
  · rw [mutate, executeWithRetry_of_closed _ _ _ hclient hmax]
    exact ⟨fun _ => ⟨hmax, fun h => absurd hclient h⟩, fun _ h => by cases h⟩
  obtain ⟨n, hn, hstate, herr⟩ := mutate_spec schedule hclient hmax verb op key
  rw [herr, hstate]
  constructor
  · refine fun h => ⟨hmax, fun _ i hi hacked hbefore => ?_⟩
    -- the attempt `i` is made, and it is the last one
    have hmade : i < n := (hn i).2 ⟨hi, hbefore⟩
    have hlast : n = i + 1 := by
      by_contra hne
      exact (((hn (i + 1)).1 (by omega)).2 i (Nat.lt_succ_self i)).1 hacked
    have hstate' := h ⟨i, hlast, hacked⟩
    rw [hlast] at hstate'
    exact (flatMap_log_eq_iff hacked).1 hstate'
  · rintro ⟨_, hfirst⟩ ⟨i, rfl, hacked⟩
    obtain ⟨hi, hbefore⟩ := (hn i).1 (Nat.lt_succ_self i)
    exact (flatMap_log_eq_iff hacked).2 (hfirst hclient i hi hacked hbefore)

/-- A call of `Add` or `Remove` that returns nil has had its command applied exactly once if and only if there is an
attempt and none before the acknowledged one was applied. -/
theorem appliedOnce_iff_firstApplied (c : Client) (schedule : Nat → Attempt) (op : Op) (key : Bytes) :
    c.AppliedOnce schedule op key ↔ c.FirstApplied schedule key := by
  cases op with
  | add => exact mutate_appliedOnce_iff "add" .add key
  | remove => exact mutate_appliedOnce_iff "remove" .remove key

/-! ### A lost response -/

def sampleClient : Client where
  config := ⟨["127.0.0.1:7000"], "", false, 3, 100000000, 5000000000⟩
  client := some "127.0.0.1:7000"
  connections := ["127.0.0.1:7000"]
  leaderAddress := ""

example : newClient ⟨["127.0.0.1:7000"], "", false, 0, 0, 0⟩ quietDialer = .ok sampleClient := by decide

/-- The response to the first request is lost; everything else works. -/
def lostResponse (i : Nat) : Attempt where
  delivery := if i = 0 then .unanswered "connection reset by peer" else .answered
  node := .ok
  ctxErr := none
  dialer := quietDialer

/-- `Remove("a")` returns nil and the server has applied two removes. -/
theorem not_appliedOnce_lostResponse :
    (sampleClient.remove lostResponse [97]).err = none ∧
    (sampleClient.remove lostResponse [97]).state = [(.remove, [97]), (.remove, [97])] ∧
    ¬ sampleClient.AppliedOnce lostResponse .remove [97] := by
  have herr : (sampleClient.remove lostResponse [97]).err = none := by decide
  have hstate : (sampleClient.remove lostResponse [97]).state = [(.remove, [97]), (.remove, [97])] := by decide
  refine ⟨herr, hstate, fun h => ?_⟩
  exact absurd (hstate.symm.trans (h herr)) (by decide)

end Client

end DistributedBloomFilter
