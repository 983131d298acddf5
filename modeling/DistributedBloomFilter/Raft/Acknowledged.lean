import DistributedBloomFilter.Bloom.Outstanding
import DistributedBloomFilter.Raft.Node

/-!
# Acknowledged writes

Clients call `Node.Add` and `Node.Remove`; the entries of the calls are in flight until Raft commits them, in any
order, and calls `Apply` on the node.  A call returns nil as soon as Raft reports no error for its entry, so an `Add`
the filter refused is acknowledged like any other.  As long as the counters have room for every `Add` that is
committed, the filter covers what is acknowledged and outstanding.
-/

namespace DistributedBloomFilter

open Run (exec Admits)

inductive WriteOp where
  | add
  | remove
deriving DecidableEq, Repr

/-- A call of `Node.Add` or of `Node.Remove`. -/
structure Write where
  op : WriteOp
  item : Bytes
deriving DecidableEq, Repr

def WriteOp.cmdType : WriteOp → String
  | .add => "add"
  | .remove => "remove"

/-- What `Apply` reads of a command. -/
def Command.SameWrite (a b : Command) : Prop := a.cmdType = b.cmdType ∧ a.item = b.item

/-! ### The balance of a log of writes -/

namespace Write

def adds (log : List Write) (x : Bytes) : Nat := log.count ⟨.add, x⟩

def removes (log : List Write) (x : Bytes) : Nat := log.count ⟨.remove, x⟩

/-- At no position of the log has an item been removed more often than added. -/
def Balanced (log : List Write) : Prop := ∀ i x, removes (log.take i) x ≤ adds (log.take i) x

/-- The items added and not removed. -/
def outstanding (log : List Write) : Multiset Bytes :=
  log.foldl (fun S w => match w.op with | .add => w.item ::ₘ S | .remove => S.erase w.item) 0

/-- What the committed write does to the filter. -/
def onFilter (sum32 : Bytes → UInt32) (f : CountingBloomFilter) (w : Write) : CountingBloomFilter :=
  match w.op with
  | .add => (f.add sum32 w.item).1
  | .remove => f.remove sum32 w.item

theorem Balanced.of_append {log rest : List Write} (h : Balanced (log ++ rest)) : Balanced log := by
  intro i x
  have hi := h (min i log.length) x
  rw [List.take_append_of_le_length (Nat.min_le_right ..), ← List.take_take, List.take_length] at hi
  exact hi

/-- The positions of the log and the items in it are enough to check the balance. -/
theorem balanced_iff {log : List Write} :
    Balanced log ↔ ∀ i < log.length + 1, ∀ x ∈ log.map item, removes (log.take i) x ≤ adds (log.take i) x := by
  refine ⟨fun h i _ x _ => h i x, fun h i x => ?_⟩
  by_cases hx : x ∈ log.map item
  · by_cases hi : i < log.length + 1
    · exact h i hi x hx
    · have hlen := h log.length (Nat.lt_succ_self _) x hx
      rwa [List.take_length, ← List.take_of_length_le (show log.length ≤ i by omega)] at hlen
  · -- an item that is not in the log is never removed
    have hnot : (⟨.remove, x⟩ : Write) ∉ log.take i :=
      fun hmem => hx (List.mem_map.2 ⟨_, List.mem_of_mem_take hmem, rfl⟩)
    rw [removes, List.count_eq_zero_of_not_mem hnot]
    exact Nat.zero_le _

instance (log : List Write) : Decidable (Balanced log) := decidable_of_iff _ balanced_iff.symm

theorem Balanced.removes_le {log : List Write} (h : Balanced log) (x : Bytes) : removes log x ≤ adds log x := by
  have := h log.length x
  rwa [List.take_length] at this

theorem adds_concat (log : List Write) (w : Write) (x : Bytes) :
    adds (log ++ [w]) x = adds log x + if w = ⟨.add, x⟩ then 1 else 0 := by
  simp only [adds, List.count_append, List.count_singleton, beq_iff_eq]

theorem removes_concat (log : List Write) (w : Write) (x : Bytes) :
    removes (log ++ [w]) x = removes log x + if w = ⟨.remove, x⟩ then 1 else 0 := by
  simp only [removes, List.count_append, List.count_singleton, beq_iff_eq]

theorem outstanding_concat (log : List Write) (w : Write) :
    outstanding (log ++ [w]) =
      match w.op with
      | .add => w.item ::ₘ outstanding log
      | .remove => (outstanding log).erase w.item := by
  unfold outstanding
  rw [List.foldl_concat]

/-- In a balanced log the outstanding copies of an item are its adds without its removes. -/
theorem count_outstanding {log : List Write} (h : Balanced log) (x : Bytes) :
    (outstanding log).count x + removes log x = adds log x := by
  induction log using List.reverseRecOn with
  | nil => rfl
  | append_singleton log w ih =>
    have hlog := ih h.of_append
    have hw := h.removes_le x
    rw [adds_concat, removes_concat] at hw
    rw [outstanding_concat, adds_concat, removes_concat]
    obtain ⟨op, y⟩ := w
    cases op with
    | add =>
      rw [Multiset.count_cons]
      by_cases hxy : x = y
      · subst hxy; simp; omega
      · simpa [hxy, Ne.symm hxy] using hlog
    | remove =>
      by_cases hxy : x = y
      · subst hxy
        rw [Multiset.count_erase_self]
        simp at hw ⊢
        omega
      · rw [Multiset.count_erase_of_ne hxy]
        simpa [Ne.symm hxy] using hlog

/-- The next remove of a balanced log finds its item outstanding. -/
theorem mem_outstanding_of_balanced {log : List Write} {x : Bytes} (h : Balanced (log ++ [⟨.remove, x⟩])) :
    x ∈ outstanding log := by
  have hx := h.removes_le x
  have hlog := count_outstanding h.of_append x
  rw [adds_concat, removes_concat] at hx
  simp at hx
  exact Multiset.count_pos.1 (by omega)

end Write

/-! ### The run of a cluster, seen from one node -/

/-- A node, the calls whose entries Raft has accepted, and the calls that returned nil in the order of the log. -/
structure Cluster where
  node : Node
  inFlight : List (Write × Bytes)
  acked : List Write

namespace Cluster

inductive Event where
  /-- a client calls `Add` or `Remove` -/
  | call (w : Write)
  /-- Raft commits one of the entries in flight and reports no error for it -/
  | commit (i : Nat) (index term : UInt64)

def start (n : Node) : Cluster := { node := n, inFlight := [], acked := [] }

section Steps

variable {W : Type} (env : Env W)

def step (s : Cluster) : Event → Cluster
  | .call w =>
    match s.node.encodeCommand env w.op.cmdType w.item with
    | .error _ => s
    | .ok data => { s with inFlight := s.inFlight ++ [(w, data)] }
  | .commit i index term =>
    match s.inFlight[i]? with
    | none => s
    | some (w, data) =>
      { node := (s.node.apply env ⟨index, term, data⟩).1
        inFlight := s.inFlight.eraseIdx i
        acked :=
          match s.node.submit env w.op.cmdType (fun _ => none) w.item with
          | none => s.acked ++ [w]
          | some _ => s.acked }

/-- The counters of an item have room for it. -/
def HasRoom (f : CountingBloomFilter) (x : Bytes) : Prop :=
  ∀ i ∈ f.indices env.sum32 x, counterAt f.counters i + (f.indices env.sum32 x).count i ≤ 255

instance (f : CountingBloomFilter) (x : Bytes) : Decidable (HasRoom env f x) :=
  inferInstanceAs (Decidable (∀ i ∈ f.indices env.sum32 x, _ ≤ _))

/-- The `Add` that is committed, if one is, finds room in the filter. -/
def Room (s : Cluster) : Event → Prop
  | .call _ => True
  | .commit i _ _ => ∀ e ∈ s.inFlight[i]?, e.1.op = .add → HasRoom env s.node.bloomFilter e.1.item

instance : ∀ (s : Cluster) (e : Event), Decidable (s.Room env e)
  | _, .call _ => .isTrue trivial
  | s, .commit i _ _ => inferInstanceAs
      (Decidable (∀ e ∈ s.inFlight[i]?, e.1.op = .add → HasRoom env s.node.bloomFilter e.1.item))

/-- Every entry in flight is the command of its call, and the filter covers what is acknowledged and outstanding. -/
structure Inv (s : Cluster) : Prop where
  two_le_m : 2 ≤ s.node.bloomFilter.m
  encoded : ∀ e ∈ s.inFlight, s.node.encodeCommand env e.1.op.cmdType e.1.item = .ok e.2
  covers : Write.Balanced s.acked → s.node.bloomFilter.Covers env.sum32 (Write.outstanding s.acked)

end Steps

variable {W : Type} {env : Env W}

theorem marshal_of_encodeCommand {n : Node} {cmdType : String} {item data : Bytes}
    (h : n.encodeCommand env cmdType item = .ok data) :
    n.started = true ∧ env.command.marshal ⟨cmdType, item, zeroTime⟩ = .ok data := by
  unfold Node.encodeCommand at h
  split at h
  · cases h
  · rename_i hs
    refine ⟨by simpa using hs, ?_⟩
    split at h
    · cases h
    · rename_i hd
      rw [hd, Except.ok.inj h]

/-- `Apply` on the entry of a call runs the call on the filter. -/
theorem apply_encoded (hJ : env.command.RoundTrips Command.SameWrite) {n : Node} {w : Write} {data : Bytes}
    (h : n.encodeCommand env w.op.cmdType w.item = .ok data) (index term : UInt64) :
    n.apply env ⟨index, term, data⟩ = ({ n with bloomFilter := w.onFilter env.sum32 n.bloomFilter }, none) := by
  obtain ⟨cmd, hcmd, htype, hitem⟩ := hJ _ _ (marshal_of_encodeCommand h).2
  obtain ⟨op, x⟩ := w
  rw [Node.apply]
  simp only [hcmd, ← htype, ← hitem]
  cases op <;> rfl

theorem commit_eq (hJ : env.command.RoundTrips Command.SameWrite) {s : Cluster} {i : Nat} {w : Write} {data : Bytes}
    (hi : s.inFlight[i]? = some (w, data)) (h : s.node.encodeCommand env w.op.cmdType w.item = .ok data)
    (index term : UInt64) :
    s.step env (.commit i index term) =
      { node := { s.node with bloomFilter := w.onFilter env.sum32 s.node.bloomFilter }
        inFlight := s.inFlight.eraseIdx i
        acked := s.acked ++ [w] } := by
  have hnil : s.node.submit env w.op.cmdType (fun _ => none) w.item = none :=
    Node.submit_eq_none_iff.2 ⟨data, h, rfl⟩
  simp only [step, hi, hnil, apply_encoded hJ h]

theorem add_eq_none_of_hasRoom {f : CountingBloomFilter} (hm : 2 ≤ f.m) {x : Bytes} (h : HasRoom env f x) :
    (f.add env.sum32 x).2 = none := by
  refine (addLoop_ok_iff (CountingBloomFilter.lt_length_of_mem_indices env.sum32 hm x)).2 fun j => ?_
  by_cases hj : j ∈ f.indices env.sum32 x
  · exact h j hj
  · rw [List.count_eq_zero_of_not_mem hj]
    have := counterAt_lt f.counters j
    omega

/-- A committed write that finds room, and an item that is outstanding if it is a remove, keep the filter covering. -/
theorem covers_onFilter {f : CountingBloomFilter} (hm : 2 ≤ f.m) {log : List Write} {w : Write}
    (hc : Write.Balanced log → f.Covers env.sum32 (Write.outstanding log))
    (hroom : w.op = .add → HasRoom env f w.item) (hb : Write.Balanced (log ++ [w])) :
    (w.onFilter env.sum32 f).Covers env.sum32 (Write.outstanding (log ++ [w])) := by
  have hlog := hc hb.of_append
  rw [Write.outstanding_concat]
  obtain ⟨op, x⟩ := w
  cases op with
  | add =>
    have hadd := hlog.add hm x
    rwa [if_pos (add_eq_none_of_hasRoom hm (hroom rfl))] at hadd
  | remove => exact hlog.remove hm (Write.mem_outstanding_of_balanced hb)

theorem onFilter_m (sum32 : Bytes → UInt32) (f : CountingBloomFilter) (w : Write) : (w.onFilter sum32 f).m = f.m := by
  obtain ⟨op, x⟩ := w
  cases op <;> rfl

theorem inv_start {n : Node} (hm : 2 ≤ n.bloomFilter.m) : Inv env (start n) where
  two_le_m := hm
  encoded := by simp [start]
  covers _ j := Nat.zero_le _

theorem inv_step (hJ : env.command.RoundTrips Command.SameWrite) (s : Cluster) (e : Event) (h : s.Inv env)
    (hroom : s.Room env e) : (s.step env e).Inv env := by
  cases e with
  | call w =>
    simp only [step]
    cases hd : s.node.encodeCommand env w.op.cmdType w.item with
    | error err => exact h
    | ok data =>
      refine ⟨h.two_le_m, fun e he => ?_, h.covers⟩
      rcases List.mem_append.1 he with he | he
      · exact h.encoded e he
      · obtain rfl := List.mem_singleton.1 he
        exact hd
  | commit i index term =>
    cases hi : s.inFlight[i]? with
    | none => simpa only [step, hi] using h
    | some e =>
      obtain ⟨w, data⟩ := e
      rw [commit_eq hJ hi (h.encoded _ (List.mem_of_getElem? hi))]
      refine ⟨(onFilter_m ..).symm ▸ h.two_le_m, fun e he => ?_, fun hb => ?_⟩
      · -- encoding does not look at the filter
        exact h.encoded e (List.mem_of_mem_eraseIdx he)
      · exact covers_onFilter h.two_le_m h.covers (hroom _ hi) hb

/-- In every run in which each committed `Add` finds room in the counters of its item and no item is removed more
often than added, an item with more acknowledged adds than removes is found. -/
theorem contains_of_acked (hJ : env.command.RoundTrips Command.SameWrite) {n : Node} (hm : 2 ≤ n.bloomFilter.m)
    {es : List Event} (hes : Admits (step env) (Room env) (start n) es)
    (hb : Write.Balanced (exec (step env) (start n) es).acked) {x : Bytes}
    (hx : Write.removes (exec (step env) (start n) es).acked x < Write.adds (exec (step env) (start n) es).acked x) :
    (exec (step env) (start n) es).node.contains env x = true := by
  have hinv : (exec (step env) (start n) es).Inv env := Run.invariant (inv_step hJ) (inv_start hm) hes
  have hcount := Write.count_outstanding hb x
  exact (hinv.covers hb).contains (by omega)

/-! ### Two runs of one item -/

private theorem sampleEnv_command_roundTrips : sampleEnv.command.RoundTrips Command.SameWrite := by
  have h : ([((⟨"add", [97], zeroTime⟩ : Command), addText), (⟨"remove", [97], zeroTime⟩, removeText)].map
      Prod.snd).Nodup := by
    simp only [List.map_cons, List.map_nil, List.nodup_cons, List.mem_singleton, List.not_mem_nil,
      not_false_eq_true, List.nodup_nil, and_true]
    decide +kernel
  exact Json.roundTrips_ofTable h fun _ => ⟨rfl, rfl⟩

/-- Two adds and a remove are in flight together and are committed in another order than they were called. -/
theorem contains_of_acked_sample :
    (exec (step sampleEnv) (start sampleNode) [.call ⟨.add, [97]⟩, .call ⟨.remove, [97]⟩, .call ⟨.add, [97]⟩,
      .commit 2 1 1, .commit 0 2 1, .commit 0 3 1]).node.contains sampleEnv [97] = true := by
  refine contains_of_acked sampleEnv_command_roundTrips (by decide) (by decide +kernel) (by decide +kernel)
    (by decide +kernel)

/-- The calls one after the other, each committed before the next. -/
def serial (ws : List Write) : List Event := ws.flatMap fun w => [.call w, .commit 0 0 0]

/-- Two counters, each ten times among the twenty indices of an item: 27 adds and 26 removes of it. -/
def refusedRun : Cluster :=
  exec (step sampleEnv) (start { newNode (newCountingBloomFilter 2 20) with started := true })
    (serial (List.replicate 27 ⟨.add, [97]⟩ ++ List.replicate 26 ⟨.remove, [97]⟩))

/-- All calls return nil, although the filter refuses the last two adds, and the item is lost. -/
theorem contains_refused_add :
    Write.Balanced refusedRun.acked ∧ Write.adds refusedRun.acked [97] = 27 ∧
      Write.removes refusedRun.acked [97] = 26 ∧ refusedRun.node.contains sampleEnv [97] = false := by
  decide +kernel

end Cluster

end DistributedBloomFilter
