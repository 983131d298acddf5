import DistributedBloomFilter.Sdk.Delivery
import Mathlib.Data.List.Nodup

/-!
# Adding a batch

`Client.BatchAdd` against `DBFServer.BatchAdd` over a network that loses nothing.  A batch with a failure is an error
for the client, and the retry loop sends the whole batch again, with the items that are in the filter already.
-/

namespace DistributedBloomFilter

/-- Everything that is not the client's during an attempt: the error of the node's `Add` at each position, and the
error of a context that is done in the wait after it. -/
structure BatchAttempt where
  node : Nat → Option String
  ctxErr : Option String
  dialer : Dialer

namespace BatchAttempt

variable (a : BatchAttempt)

/-- The node's `Add`, with the positions at which it has returned nil. -/
def nodeAdd (position : Nat) (_ : Bytes) (added : List Nat) : Option String × List Nat :=
  match a.node position with
  | none => (none, added ++ [position])
  | some err => (some err, added)

/-- The item at the position is added. -/
def adds (x : Bytes × Nat) : Bool := x.1 ≠ [] ∧ a.node x.2 = none

def Adds (keys : List Bytes) (position : Nat) : Prop := ∃ key, keys[position]? = some key ∧ a.adds (key, position)

/-- The failure count of the response is positive. -/
def Fails (keys : List Bytes) : Prop := 0 < Int32.ofNat (keys.zipIdx.countP fun x => !a.adds x)

instance (keys : List Bytes) : Decidable (a.Fails keys) := inferInstanceAs (Decidable (_ < _))

end BatchAttempt

namespace Client

variable (c : Client) (schedule : Nat → BatchAttempt) (keys : List Bytes)

/-- `BatchAdd`, with the positions at which the node has returned nil. -/
def batchAdd : CallResult (List Nat) :=
  c.executeWithRetry (fun i => (schedule i).dialer) (fun i => (schedule i).ctxErr)
    (fun i _ s =>
      let (resp, s') := DBFServer.batchAdd (schedule i).nodeAdd keys s
      (batchAddError keys.length (.ok resp), s'))
    []

/-- Every position of the batch is added at most once. -/
def AddedOnce : Prop := ∀ position, (c.batchAdd schedule keys).state.count position ≤ 1

/-- No position is added in an attempt and again in a later one that the failures in between lead to. -/
def NotRepeated : Prop :=
  c.client ≠ none → ∀ i : Nat, i ≤ c.config.maxRetries →
    (∀ j < i, (schedule j).Fails keys ∧ (schedule j).ctxErr = none) →
    ∀ j < i, ∀ position, (schedule j).Adds keys position → ¬ (schedule i).Adds keys position

end Client

/-! ### One attempt -/

namespace BatchAttempt

variable {a : BatchAttempt} {keys : List Bytes}

/-- The positions that are added, when the first one has the number `k`. -/
def positions (a : BatchAttempt) (keys : List Bytes) (k : Nat) : List Nat :=
  ((keys.zipIdx k).filter a.adds).map Prod.snd

theorem mem_positions {position : Nat} : position ∈ a.positions keys 0 ↔ a.Adds keys position := by
  unfold positions Adds
  rw [List.mem_map]
  constructor
  · rintro ⟨⟨key, p⟩, hmem, rfl⟩
    obtain ⟨hkey, hadds⟩ := List.mem_filter.1 hmem
    exact ⟨key, List.mem_zipIdx_iff_getElem?.1 hkey, hadds⟩
  · rintro ⟨key, hkey, hadds⟩
    exact ⟨(key, position), List.mem_filter.2 ⟨List.mem_zipIdx_iff_getElem?.2 hkey, hadds⟩, rfl⟩

theorem nodup_positions (a : BatchAttempt) (keys : List Bytes) (k : Nat) : (a.positions keys k).Nodup := by
  have hsub : (a.positions keys k).Sublist ((keys.zipIdx k).map Prod.snd) := (List.filter_sublist).map _
  refine hsub.nodup ?_
  rw [List.zipIdx_map_snd]
  exact List.nodup_range'

/-- An item is counted and gets a text that is not a redirect; when it is added, so is its position. -/
theorem batchAddItem_cases (a : BatchAttempt) (b : DBFServer.BatchState (List Nat)) (item : Bytes) :
    ∃ text, isLeaderRedirect text = false ∧
      DBFServer.batchAddItem a.nodeAdd b item =
        if a.adds (item, b.errors.length) then
          ⟨b.successCount + 1, b.failureCount, b.errors ++ [text], b.node ++ [b.errors.length]⟩
        else ⟨b.successCount, b.failureCount + 1, b.errors ++ [text], b.node⟩ := by
  unfold DBFServer.batchAddItem nodeAdd adds
  by_cases hitem : item = []
  · exact ⟨"item cannot be empty", by decide, by simp [hitem]⟩
  · cases hnode : a.node b.errors.length with
    | none => exact ⟨"", by decide, by simp [hitem]⟩
    | some err =>
      have hfailed : isLeaderRedirect ("failed to add item: " ++ err) = false :=
        not_isLeaderRedirect_append rfl (by decide) (by decide) err
      exact ⟨_, hfailed, by simp [hitem]⟩

/-- The loop counts what is added and what is not. -/
theorem foldl_batchAddItem (a : BatchAttempt) (items : List Bytes) (b : DBFServer.BatchState (List Nat))
    (herrors : ∀ e ∈ b.errors, isLeaderRedirect e = false) :
    ∃ errors, (∀ e ∈ errors, isLeaderRedirect e = false) ∧
      items.foldl (DBFServer.batchAddItem a.nodeAdd) b =
        ⟨b.successCount + (items.zipIdx b.errors.length).countP a.adds,
          b.failureCount + (items.zipIdx b.errors.length).countP (fun x => !a.adds x), errors,
          b.node ++ a.positions items b.errors.length⟩ := by
  induction items generalizing b with
  | nil => exact ⟨b.errors, herrors, by simp [positions]⟩
  | cons item items ih =>
    obtain ⟨text, htext, hitem⟩ := batchAddItem_cases a b item
    have hnext : ∀ e ∈ b.errors ++ [text], isLeaderRedirect e = false := by
      intro e he
      rcases List.mem_append.1 he with he | he
      · exact herrors e he
      · rw [List.mem_singleton.1 he]
        exact htext
    rw [List.foldl_cons, hitem, List.zipIdx_cons]
    split
    · rename_i hadds
      obtain ⟨errors, herrors', hrest⟩ :=
        ih ⟨b.successCount + 1, b.failureCount, b.errors ++ [text], b.node ++ [b.errors.length]⟩ hnext
      refine ⟨errors, herrors', hrest.trans ?_⟩
      simp [positions, List.zipIdx_cons, hadds, Nat.add_assoc, Nat.add_comm 1]
    · rename_i hadds
      obtain ⟨errors, herrors', hrest⟩ := ih ⟨b.successCount, b.failureCount + 1, b.errors ++ [text], b.node⟩ hnext
      refine ⟨errors, herrors', hrest.trans ?_⟩
      simp [positions, List.zipIdx_cons, hadds, Nat.add_assoc, Nat.add_comm 1]

/-- The error the client makes of an attempt. -/
def outcome (a : BatchAttempt) (keys : List Bytes) : Option String :=
  if a.Fails keys then
    some ("batch add partially failed: " ++ toString (Int32.ofNat (keys.zipIdx.countP a.adds)) ++ " successes, " ++
      toString (Int32.ofNat (keys.zipIdx.countP fun x => !a.adds x)) ++ " failures")
  else none

theorem outcome_ne_none_iff : a.outcome keys ≠ none ↔ a.Fails keys := by
  unfold outcome
  split <;> simp_all

/-- Errors that are not redirects leave the counts to decide. -/
private theorem batchAddError_of_errors {errors : List String} (herrors : ∀ e ∈ errors, isLeaderRedirect e = false)
    (count : Nat) (successCount failureCount : Int32) :
    Client.batchAddError count (.ok ⟨successCount, failureCount, errors⟩) =
      if failureCount > 0 then
        some (.other ("batch add partially failed: " ++ toString successCount ++ " successes, " ++
          toString failureCount ++ " failures"))
      else none := by
  have hfilter : errors.head?.filter isLeaderRedirect = none := by
    cases errors with
    | nil => rfl
    | cons e errors => simp [Option.filter, herrors e List.mem_cons_self]
  simp only [Client.batchAddError, hfilter, ite_self]

/-- The call of the server in an attempt, seen from the client: it is never a redirect. -/
theorem batchAdd_attempt (a : BatchAttempt) (keys : List Bytes) (s : List Nat) :
    (Client.batchAddError keys.length (.ok (DBFServer.batchAdd a.nodeAdd keys s).1),
      (DBFServer.batchAdd a.nodeAdd keys s).2) = ((a.outcome keys).map .other, s ++ a.positions keys 0) := by
  unfold DBFServer.batchAdd
  by_cases hkeys : keys.length = 0
  · obtain rfl := List.eq_nil_of_length_eq_zero hkeys
    have hfails : ¬ a.Fails [] := by
      show ¬ 0 < Int32.ofNat 0
      decide
    rw [if_pos hkeys, batchAddError_of_errors (by decide), if_neg (by decide), outcome, if_neg hfails]
    simp [positions]
  · obtain ⟨errors, herrors, hfold⟩ := foldl_batchAddItem a keys ⟨0, 0, [], s⟩ (fun e he => by cases he)
    simp only [List.length_nil, Nat.zero_add] at hfold
    rw [if_neg hkeys, hfold]
    dsimp only
    rw [batchAddError_of_errors herrors, outcome]
    by_cases hfails : a.Fails keys
    · have hcount : Int32.ofNat (keys.zipIdx.countP fun x => !a.adds x) > 0 := hfails
      rw [if_pos hcount, if_pos hfails]
      rfl
    · have hcount : ¬ Int32.ofNat (keys.zipIdx.countP fun x => !a.adds x) > 0 := hfails
      rw [if_neg hcount, if_neg hfails]
      rfl

end BatchAttempt

/-! ### Whole calls -/

namespace Client

variable {c : Client} {schedule : Nat → BatchAttempt} {keys : List Bytes}

theorem batchAdd_eq (c : Client) (schedule : Nat → BatchAttempt) (keys : List Bytes) :
    c.batchAdd schedule keys =
      c.executeWithRetry (fun i => (schedule i).dialer) (fun i => (schedule i).ctxErr)
        (fun i _ s => (((schedule i).outcome keys).map .other, s ++ (schedule i).positions keys 0)) [] := by
  have hfn : (fun (i : Nat) (_ : String) (s : List Nat) =>
      (batchAddError keys.length (.ok (DBFServer.batchAdd (schedule i).nodeAdd keys s).1),
        (DBFServer.batchAdd (schedule i).nodeAdd keys s).2)) =
      fun i _ s => (((schedule i).outcome keys).map .other, s ++ (schedule i).positions keys 0) := by
    funext i _ s
    exact BatchAttempt.batchAdd_attempt (schedule i) keys s
  rw [← hfn]
  rfl

/-- Nothing is added without an attempt. -/
private theorem batchAdd_state_of_none (h : c.client = none ∨ c.config.maxRetries < 0) :
    (c.batchAdd schedule keys).state = [] := by
  by_cases hneg : c.config.maxRetries < 0
  · rw [batchAdd, executeWithRetry_of_neg _ _ _ hneg]
  · rw [batchAdd, executeWithRetry_of_closed _ _ _ (h.resolve_right hneg) (by omega)]

/-- Every position is added at most once if and only if no attempt adds a position again that an earlier one, which
was followed by a retry, had added. -/
theorem addedOnce_iff_notRepeated (c : Client) (schedule : Nat → BatchAttempt) (keys : List Bytes) :
    c.AddedOnce schedule keys ↔ c.NotRepeated schedule keys := by
  by_cases hnone : c.client = none ∨ c.config.maxRetries < 0
  · rw [AddedOnce, batchAdd_state_of_none hnone]
    refine ⟨fun _ hclient i hi => ?_, fun _ _ => Nat.zero_le 1⟩
    have hneg := hnone.resolve_left hclient
    omega
  obtain ⟨hclient, hmax⟩ := not_or.1 hnone
  obtain ⟨n, hn, hstate, _⟩ := executeWithRetry_spec (fun i => (schedule i).dialer) (fun i => (schedule i).ctxErr)
    (fun i => (schedule i).outcome keys) (fun i => (schedule i).positions keys 0)
    (fun i _ s => rfl) hclient (by omega)
  simp only [BatchAttempt.outcome_ne_none_iff] at hn
  have hdisjoint : c.AddedOnce schedule keys ↔
      ∀ i < n, ∀ j < i, ((schedule j).positions keys 0).Disjoint ((schedule i).positions keys 0) := by
    rw [AddedOnce, batchAdd_eq, hstate, ← List.nodup_iff_count_le_one, List.nodup_flatMap,
      and_iff_right fun i _ => BatchAttempt.nodup_positions (schedule i) keys 0, List.pairwise_iff_getElem]
    simp only [List.length_range, List.getElem_range, Function.onFun]
    exact ⟨fun h i hi j hj => h j i (by omega) hi hj, fun h j i _ hi hj => h i hi j hj⟩
  rw [hdisjoint]
  constructor
  · intro h _ i hi hbefore j hj position hadds hadds'
    exact h i ((hn i).2 ⟨hi, hbefore⟩) j hj (BatchAttempt.mem_positions.2 hadds) (BatchAttempt.mem_positions.2 hadds')
  · intro h i hi j hj position hmem hmem'
    obtain ⟨hle, hbefore⟩ := (hn i).1 hi
    exact h hclient i hle hbefore j hj position (BatchAttempt.mem_positions.1 hmem)
      (BatchAttempt.mem_positions.1 hmem')

/-! ### A batch with an empty key -/

/-- The node and the network work. -/
def quietBatch (_ : Nat) : BatchAttempt := { node := fun _ => none, ctxErr := none, dialer := quietDialer }

/-- `BatchAdd(["a", ""])` adds `a` four times. -/
theorem not_addedOnce_empty_key :
    (sampleClient.batchAdd quietBatch [[97], []]).state = [0, 0, 0, 0] ∧
    ¬ sampleClient.AddedOnce quietBatch [[97], []] := by
  have hstate : (sampleClient.batchAdd quietBatch [[97], []]).state = [0, 0, 0, 0] := by decide
  refine ⟨hstate, fun h => ?_⟩
  have hcount := h 0
  rw [hstate] at hcount
  exact absurd hcount (by decide)

end Client

end DistributedBloomFilter
