import DistributedBloomFilter.Grpc.Service
import DistributedBloomFilter.Lib.Brackets
import DistributedBloomFilter.Sdk.Client

/-!
# From a redirect to the leader

The address of the leader reaches a client in the text of an error, in parentheses behind the ID of the leader, and
`extractLeaderAddress` takes the first text in parentheses.  So the ID decides whether it is found:
`redirect_decodes_iff`.  If it is found, the call that was redirected ends at the leader: `add_redirected`.
-/

namespace DistributedBloomFilter

/-! ### The scan for parentheses -/

/-- The positions that the loop finds are those of the text in the first parentheses. -/
theorem addressLoop_eq_scan (rest pre : List Char) (start : Option Nat) (hstart : ∀ i ∈ start, i ≤ pre.length) :
    (addressLoop rest pre.length start).map (fun p => ((pre ++ rest).take p.2).drop p.1) =
      Brackets.scan '(' ')' (start.map pre.drop) rest := by
  induction rest generalizing pre start with
  | nil => rfl
  | cons ch rest ih =>
    -- the loop goes on behind `ch`, which is then part of what has been read
    have hnext (start' : Option Nat) (hstart' : ∀ i ∈ start', i ≤ (pre ++ [ch]).length) :
        (addressLoop rest (pre.length + 1) start').map (fun p => ((pre ++ ch :: rest).take p.2).drop p.1) =
          Brackets.scan '(' ')' (start'.map (pre ++ [ch]).drop) rest := by
      have h := ih (pre ++ [ch]) start' hstart'
      rwa [List.length_append, List.append_assoc] at h
    unfold addressLoop
    by_cases hopen : ch = '('
    · subst hopen
      rw [if_pos rfl, Brackets.scan_opening, hnext _ (by simp)]
      simp
    · rw [if_neg hopen]
      cases start with
      | none => exact (hnext none nofun).trans (Brackets.scan_none_cons hopen).symm
      | some i =>
        have hi : i ≤ pre.length := hstart i rfl
        by_cases hclose : ch = ')'
        · subst hclose
          simp [Brackets.scan_closing]
        · dsimp only
          rw [if_neg hclose, hnext (some i) (by simpa using Nat.le_succ_of_le hi), Option.map_some, Option.map_some,
            Brackets.scan_some_cons hopen hclose, List.drop_append_of_le_length hi]

theorem toList_extractLeaderAddress (errorMsg : String) :
    (extractLeaderAddress errorMsg).toList = (Brackets.scan '(' ')' none errorMsg.toList).getD [] := by
  have h := addressLoop_eq_scan errorMsg.toList [] none nofun
  rw [Option.map_none, List.nil_append, List.length_nil] at h
  rw [← h, extractLeaderAddress]
  cases addressLoop errorMsg.toList 0 none with
  | none => rfl
  | some p =>
    dsimp only [Option.map_some, Option.getD_some]
    split
    · rw [String.toList_ofList]
    · -- an empty text in the parentheses
      rename_i hlt
      rw [List.drop_eq_nil_of_le (by simp; omega)]
      rfl

/-! ### The address of the leader -/

namespace DBFService

/-- The text, cut behind the words that make it a redirect and around the parentheses. -/
private theorem toList_redirectText (leaderID leaderAddr : String) :
    (redirectText leaderID leaderAddr).toList =
      "not the leader".toList ++ ", redirect to: ".toList ++ leaderID.toList ++ " ".toList ++
        '(' :: (leaderAddr.toList ++ ')' :: []) := by
  have hhead : "not the leader, redirect to: ".toList = "not the leader".toList ++ ", redirect to: ".toList := by
    decide +kernel
  have hopen : " (".toList = " ".toList ++ ['('] := by decide +kernel
  have hclose : ")".toList = [')'] := by decide +kernel
  delta redirectText
  rw [String.toList_append, String.toList_append, String.toList_append, String.toList_append, hhead, hopen, hclose]
  simp only [List.append_assoc, List.cons_append, List.nil_append]

theorem isLeaderRedirect_redirectText (leaderID leaderAddr : String) :
    isLeaderRedirect (redirectText leaderID leaderAddr) = true := by
  have hlen : "not the leader".toList.length = 14 := rfl
  unfold isLeaderRedirect
  rw [toList_redirectText, if_neg (by simp only [List.length_append, hlen]; omega)]
  simp only [List.append_assoc, List.take_left' hlen, decide_true, Bool.true_or]

/-- A text that can be the address of a node: it is not empty and has no parentheses. -/
def IsAddress (text : String) : Prop := text ≠ "" ∧ '(' ∉ text.toList ∧ ')' ∉ text.toList

instance (text : String) : Decidable (IsAddress text) := inferInstanceAs (Decidable (_ ∧ _ ∧ _))

/-- No parenthesis is closed in the ID, or the first that is has the address in it. -/
def PlainID (leaderID leaderAddr : String) : Prop :=
  ¬ Brackets.Closes '(' ')' leaderID.toList ∨ Brackets.Encloses '(' ')' leaderID.toList leaderAddr.toList

theorem extractLeaderAddress_redirectText_iff {leaderID leaderAddr : String} (haddr : IsAddress leaderAddr) :
    extractLeaderAddress (redirectText leaderID leaderAddr) = leaderAddr ↔ PlainID leaderID leaderAddr := by
  obtain ⟨hne, hopen, hclose⟩ := haddr
  have hpre : '(' ∉ "not the leader".toList ++ ", redirect to: ".toList := by decide
  have hpost : ')' ∉ " ".toList := by decide
  rw [PlainID, ← Brackets.scan_behind_iff (by decide) hpre hpost hopen hclose [], ← toList_redirectText,
    ← String.toList_inj, toList_extractLeaderAddress]
  cases Brackets.scan '(' ')' none (redirectText leaderID leaderAddr).toList with
  | none => simpa using Ne.symm hne
  | some text => simp

/-- The answer is a redirect to this address. -/
def RedirectsTo (leaderAddr : String) (resp : MutateResponse) : Prop :=
  isLeaderRedirect resp.error = true ∧ extractLeaderAddress resp.error = leaderAddr

variable {σ : Type}

/-- What `Add` and `Remove` of a follower answer. -/
private theorem redirectsTo_mutate_iff {raftNode : RaftNode σ} {s : σ} (hfollower : raftNode.isLeader s = false)
    {leaderID leaderAddr : String} (hinfo : getLeaderInfo raftNode s = (leaderID, leaderAddr))
    (haddr : IsAddress leaderAddr) (verb : String) (call : Bytes → σ → Option String × σ) (item : Bytes) :
    RedirectsTo leaderAddr (mutate verb raftNode call item s).1 ↔ item ≠ [] ∧ PlainID leaderID leaderAddr := by
  by_cases hitem : item = []
  · rw [mutate, if_pos hitem]
    refine ⟨fun h => ?_, fun h => absurd hitem h.1⟩
    exact absurd h.1 (show isLeaderRedirect "item cannot be empty" ≠ true by decide)
  · rw [mutate_of_follower hfollower verb call hitem, hinfo, RedirectsTo, isLeaderRedirect_redirectText,
      extractLeaderAddress_redirectText_iff haddr]
    simp [hitem]

/-- What `Add` and `Remove` of a node that is not the leader answer is read as a redirect to the address of the leader
if and only if the item is not empty and the ID of the leader is plain. -/
theorem redirect_decodes_iff {raftNode : RaftNode σ} {s : σ} (hfollower : raftNode.isLeader s = false)
    {leaderID leaderAddr : String} (hinfo : getLeaderInfo raftNode s = (leaderID, leaderAddr))
    (haddr : IsAddress leaderAddr) (item : Bytes) :
    (RedirectsTo leaderAddr (add raftNode item s).1 ↔ item ≠ [] ∧ PlainID leaderID leaderAddr) ∧
      (RedirectsTo leaderAddr (remove raftNode item s).1 ↔ item ≠ [] ∧ PlainID leaderID leaderAddr) :=
  ⟨redirectsTo_mutate_iff hfollower hinfo haddr "add" raftNode.add item,
    redirectsTo_mutate_iff hfollower hinfo haddr "remove" raftNode.remove item⟩

end DBFService

/-! ### A call that is redirected once -/

namespace Client

theorem switchToLeader_redirectText {leaderID leaderAddr : String} (haddr : DBFService.IsAddress leaderAddr)
    (hplain : DBFService.PlainID leaderID leaderAddr) (d : Dialer) (c : Client) :
    c.switchToLeader d (DBFService.redirectText leaderID leaderAddr) =
      { c with leaderAddress := leaderAddr }.connect d leaderAddr := by
  rw [switchToLeader, (DBFService.extractLeaderAddress_redirectText_iff haddr).2 hplain]
  exact if_neg haddr.1

variable {σ : Type}

/-- The operation of `Add` on a cluster in which the service at every address is a `DBFService` with a node of its
own. -/
def addTo (nodes : String → RaftNode σ) (item : Bytes) (_ : Nat) (address : String) (s : σ) : Option CallError × σ :=
  let (resp, s') := DBFService.add (nodes address) item s
  (mutateError "add" (.ok resp), s')

/-- The follower answers with a redirect, and changes nothing. -/
theorem addTo_follower {nodes : String → RaftNode σ} {address leaderID leaderAddr : String} {s : σ} {item : Bytes}
    (hitem : item ≠ []) (hfollower : (nodes address).isLeader s = false)
    (hinfo : DBFService.getLeaderInfo (nodes address) s = (leaderID, leaderAddr)) (attempt : Nat) :
    addTo nodes item attempt address s =
      (some (.leaderRedirect (DBFService.redirectText leaderID leaderAddr)), s) := by
  rw [addTo, DBFService.add, DBFService.mutate_of_follower hfollower _ _ hitem, hinfo]
  simp only [mutateError, DBFService.isLeaderRedirect_redirectText]
  rfl

theorem addTo_leader {nodes : String → RaftNode σ} {address : String} {s s' : σ} {item : Bytes} (hitem : item ≠ [])
    (hleader : (nodes address).isLeader s = true) (hadd : (nodes address).add item s = (none, s')) (attempt : Nat) :
    addTo nodes item attempt address s = (none, s') := by
  rw [addTo, DBFService.add, DBFService.mutate_of_isLeader hleader, DBFServer.mutate, if_neg hitem, hadd]
  rfl

/-- `Add` on a client that is connected to a follower reaches the leader with the second attempt, if the follower
knows the leader by a plain ID, and the client goes on with the leader. -/
theorem add_redirected {nodes : String → RaftNode σ} {follower leaderID leaderAddr : String} {s s' : σ} {item : Bytes}
    (hitem : item ≠ []) (hfollower : (nodes follower).isLeader s = false)
    (hinfo : DBFService.getLeaderInfo (nodes follower) s = (leaderID, leaderAddr))
    (haddr : DBFService.IsAddress leaderAddr) (hplain : DBFService.PlainID leaderID leaderAddr)
    (hleader : (nodes leaderAddr).isLeader s = true) (hadd : (nodes leaderAddr).add item s = (none, s'))
    {c : Client} (hclient : c.client = some follower) (hmax : 1 ≤ c.config.maxRetries) {dialer : Nat → Dialer}
    (hdial : ({ c with leaderAddress := leaderAddr }.connect (dialer 0) leaderAddr).2 = none)
    (ctxErr : Nat → Option String) :
    let r := c.executeWithRetry dialer ctxErr (addTo nodes item) s
    r.err = none ∧ r.state = s' ∧ r.client.client = some leaderAddr := by
  obtain ⟨n, hn⟩ : ∃ n, (c.config.maxRetries + 1).toNat = n + 1 + 1 := ⟨(c.config.maxRetries - 1).toNat, by omega⟩
  obtain ⟨c', hc'⟩ : ∃ c', { c with leaderAddress := leaderAddr }.connect (dialer 0) leaderAddr = (c', none) :=
    ⟨_, Prod.ext rfl hdial⟩
  have hconnected : c'.client = some leaderAddr := by
    have h := client_connect hdial
    rwa [hc'] at h
  rw [executeWithRetry, hn, retryLoop, hclient]
  dsimp only
  rw [addTo_follower hitem hfollower hinfo]
  dsimp only
  rw [switchToLeader_redirectText haddr hplain, hc']
  dsimp only
  rw [retryLoop, hconnected]
  dsimp only
  rw [addTo_leader hitem hleader hadd]
  exact ⟨rfl, rfl, hconnected⟩

end Client

/-! ### An ID with parentheses -/

namespace DBFService

/-- A follower that knows the leader by this ID, at the address of the first node. -/
def followerOf (leaderID : String) : RaftNode Unit where
  isLeader _ := false
  getState _ key :=
    if key = "leader" then some (.string leaderID)
    else if key = "leader_address" then some (.string "127.0.0.1:7000")
    else none
  add _ _ := (some "node is not the leader", ())
  remove _ _ := (some "node is not the leader", ())
  batchAdd items _ := ((0, items.length, []), ())

theorem redirect_decodes_node1 : RedirectsTo "127.0.0.1:7000" (add (followerOf "node-1") [97] ()).1 := by
  have hplain : PlainID "node-1" "127.0.0.1:7000" :=
    .inl fun h => absurd (Brackets.mem_of_closes h) (by decide)
  have hinfo : getLeaderInfo (followerOf "node-1") () = ("node-1", "127.0.0.1:7000") := rfl
  exact (redirect_decodes_iff rfl hinfo (by decide) [97]).1.2 ⟨by decide, hplain⟩

/-- The leader with the ID `node(1)` is looked for at the address `1`. -/
theorem extractLeaderAddress_parenthesized :
    (add (followerOf "node(1)") [97] ()).1.error = "not the leader, redirect to: node(1) (127.0.0.1:7000)" ∧
    extractLeaderAddress (add (followerOf "node(1)") [97] ()).1.error = "1" ∧
    (remove (followerOf "node(1)") [97] ()).1.error = (add (followerOf "node(1)") [97] ()).1.error ∧
    ¬ RedirectsTo "127.0.0.1:7000" (add (followerOf "node(1)") [97] ()).1 := by
  have haddr : extractLeaderAddress (add (followerOf "node(1)") [97] ()).1.error = "1" := by decide
  exact ⟨by decide, haddr, rfl, fun h => absurd (haddr.symm.trans h.2) (by decide)⟩

end DBFService

end DistributedBloomFilter
