import DistributedBloomFilter.Gateway.Handlers
import DistributedBloomFilter.Lib.Run
import DistributedBloomFilter.Raft.Formats

/-!
# Clients, gateway, server and node

HTTP requests come in at any time.  Those that the gateway passes on are served by handlers that call the node one
after the other, between calls of other handlers; Raft commits an entry, refuses it, or reports an error and may
commit it later all the same; the connection between gateway and server may break, and then the server may go on with
the request or not.

What clients see is enough to know that an item is there.  As long as they ask for no more removes of an item than
they have got confirmations of adds, and the counters have room for every `Add` that is committed, a request that
comes in when more adds are confirmed than removes are ever asked for finds the item (`finds_of_confirmed`).
-/

namespace DistributedBloomFilter

namespace Gateway

open Cluster (HasRoom)
open Run (exec Admits)

/-- How Raft ends the call with an entry. -/
inductive Outcome where
  | committed (index term : UInt64)
  | failed (err : String)
  /-- an error, but the entry is in the log and may still be committed -/
  | lost (err : String)
deriving DecidableEq, Repr

def Outcome.error : Outcome → Option String
  | committed _ _ => none
  | failed err => some err
  | lost err => some err

/-- A request that the gateway has passed on. -/
structure Exchange (elsewhere : HttpRequest → HttpResponse) where
  /-- The number of requests before it. -/
  arrival : Nat
  http : HttpRequest
  request : GrpcRequest
  resume : Except String request.Response → HttpResponse
  asks : serve elsewhere http = .call request resume
  server : Program.Thread (DBFServer.handle request)
  /-- The gateway waits for the response. -/
  waiting : Bool

namespace Exchange

variable {elsewhere : HttpRequest → HttpResponse}

/-- The write that the handler calls next. -/
def nextWrite (e : Exchange elsewhere) : Option Write :=
  match e.server.rest with
  | .call (.write op item) _ => some ⟨op, item⟩
  | _ => none

/-- The handler has still to remove the item. -/
def removes (e : Exchange elsewhere) (x : Bytes) : Bool :=
  e.request = .write .remove x && e.server.trace.isEmpty

end Exchange

structure Reply where
  arrival : Nat
  http : HttpRequest
  response : HttpResponse
deriving DecidableEq, Repr

/-- `limbo` has the entries that may still be committed, and `applied` the writes that have been, in the order of the
log. -/
structure Site (elsewhere : HttpRequest → HttpResponse) where
  node : Node
  exchanges : List (Exchange elsewhere)
  limbo : List (Write × Bytes)
  requests : List HttpRequest
  replies : List Reply
  applied : List Write

inductive Event where
  /-- a client sends a request -/
  | receive (r : HttpRequest)
  /-- the handler of an exchange calls the node, or returns -/
  | proceed (i : Nat) (outcome : Outcome)
  /-- the call of the gateway ends with an error; the handler may go on -/
  | disconnect (i : Nat) (err : String) (goesOn : Bool)
  /-- Raft commits an entry for which it has reported an error -/
  | late (j : Nat) (index term : UInt64)

namespace Site

variable {elsewhere : HttpRequest → HttpResponse}

def start (elsewhere : HttpRequest → HttpResponse) (n : Node) : Site elsewhere := ⟨n, [], [], [], [], []⟩

section Steps

variable {W : Type} (env : Env W) (getState : Node → String → Option StateValue)

def commit (s : Site elsewhere) (w : Write) (data : Bytes) (index term : UInt64) : Site elsewhere :=
  { s with node := (s.node.apply env ⟨index, term, data⟩).1, applied := s.applied ++ [w] }

/-- The entry of a write goes to Raft. -/
def submit (s : Site elsewhere) (w : Write) (outcome : Outcome) : Site elsewhere :=
  match s.node.encodeCommand env w.op.cmdType w.item with
  | .error _ => s
  | .ok data =>
    match outcome with
    | .committed index term => s.commit env w data index term
    | .failed _ => s
    | .lost _ => { s with limbo := s.limbo ++ [(w, data)] }

def perform (s : Site elsewhere) (outcome : Outcome) : (c : NodeCall) → c.Answer × Site elsewhere
  | .write op item =>
    (s.node.submit env op.cmdType (fun _ => outcome.error) item, s.submit env ⟨op, item⟩ outcome)
  | .contains item => (s.node.contains env item, s)
  | .getState => (getState s.node, s)

/-- The gateway replies with the result of its call, if it waits for one. -/
def reply (s : Site elsewhere) (e : Exchange elsewhere) (result : Except String e.request.Response) :
    Site elsewhere :=
  if e.waiting then { s with replies := s.replies ++ [⟨e.arrival, e.http, e.resume result⟩] } else s

def step (s : Site elsewhere) : Event → Site elsewhere
  | .receive r =>
    match h : serve elsewhere r with
    | .reply resp =>
      { s with requests := s.requests ++ [r], replies := s.replies ++ [⟨s.requests.length, r, resp⟩] }
    | .call q resume =>
      { s with
        requests := s.requests ++ [r]
        exchanges := s.exchanges ++ [⟨s.requests.length, r, q, resume, h, .start _, true⟩] }
  | .proceed i outcome =>
    match s.exchanges[i]? with
    | none => s
    | some e =>
      match h : e.server.rest with
      | .done a => { s.reply e (.ok a) with exchanges := s.exchanges.eraseIdx i }
      | .call c _ =>
        let (answer, s') := s.perform env getState outcome c
        { s' with exchanges := s.exchanges.set i { e with server := e.server.advance h answer } }
  | .disconnect i err goesOn =>
    match s.exchanges[i]? with
    | none => s
    | some e =>
      { s.reply e (.error err) with
        exchanges := if goesOn then s.exchanges.set i { e with waiting := false } else s.exchanges.eraseIdx i }
  | .late j index term =>
    match s.limbo[j]? with
    | none => s
    | some (w, data) => { s.commit env w data index term with limbo := s.limbo.eraseIdx j }

/-! ### What the clients see -/

/-- The item that the request removes. -/
def removal : GrpcRequest → Option Bytes
  | .write .remove x => some x
  | _ => none

/-- How often a remove of the item was asked for. -/
def removesAsked (s : Site elsewhere) (x : Bytes) : Nat :=
  (s.requests.filterMap (asked elsewhere)).count (.write .remove x)

/-- How often an add of the item was confirmed. -/
def addsConfirmed (s : Site elsewhere) (x : Bytes) : Nat :=
  (s.replies.flatMap fun rep => confirmed elsewhere rep.http rep.response).count x

/-- Nobody asks for a remove of an item without a confirmed add for it. -/
def Careful (s : Site elsewhere) : Event → Prop
  | .receive r => ∀ q ∈ asked elsewhere r, ∀ x ∈ removal q, s.removesAsked x < s.addsConfirmed x
  | _ => True

instance : ∀ (s : Site elsewhere) (e : Event), Decidable (s.Careful e)
  | s, .receive r => inferInstanceAs
      (Decidable (∀ q ∈ asked elsewhere r, ∀ x ∈ removal q, s.removesAsked x < s.addsConfirmed x))
  | _, .proceed _ _ | _, .disconnect _ _ _ | _, .late _ _ _ => .isTrue trivial

/-- The `Add` that is committed, if one is, finds room in the filter. -/
def Room (s : Site elsewhere) : Event → Prop
  | .proceed i (.committed _ _) =>
    ∀ e ∈ s.exchanges[i]?, ∀ w ∈ e.nextWrite, w.op = .add → HasRoom env s.node.bloomFilter w.item
  | .late j _ _ => ∀ l ∈ s.limbo[j]?, l.1.op = .add → HasRoom env s.node.bloomFilter l.1.item
  | _ => True

instance : ∀ (s : Site elsewhere) (e : Event), Decidable (s.Room env e)
  | s, .proceed i (.committed _ _) => inferInstanceAs (Decidable (∀ e ∈ s.exchanges[i]?, ∀ w ∈ e.nextWrite,
      w.op = .add → HasRoom env s.node.bloomFilter w.item))
  | s, .late j _ _ => inferInstanceAs (Decidable (∀ l ∈ s.limbo[j]?, l.1.op = .add →
      HasRoom env s.node.bloomFilter l.1.item))
  | _, .proceed _ (.failed _) | _, .proceed _ (.lost _) | _, .receive _ | _, .disconnect _ _ _ => .isTrue trivial

/-! ### The invariant -/

/-- How often `Add` of the item returned nil to a handler that is still at work. -/
def addsGranted (s : Site elsewhere) (x : Bytes) : Nat :=
  (s.exchanges.flatMap fun e => DBFServer.granted e.server.trace).count x

/-- How many removes of the item are still to be made or may still be committed. -/
def removesPending (s : Site elsewhere) (x : Bytes) : Nat :=
  s.exchanges.countP (·.removes x) + s.limbo.countP fun l => l.1 = ⟨.remove, x⟩

/-- Every add that was confirmed has been applied, and every remove that was applied has been asked for. -/
structure Inv (s : Site elsewhere) : Prop where
  two_le_m : 2 ≤ s.node.bloomFilter.m
  encoded : ∀ l ∈ s.limbo, s.node.encodeCommand env l.1.op.cmdType l.1.item = .ok l.2
  balanced : Write.Balanced s.applied
  covers : s.node.bloomFilter.Covers env.sum32 (Write.outstanding s.applied)
  adds_le : ∀ x, s.addsConfirmed x + s.addsGranted x ≤ Write.adds s.applied x
  removes_le : ∀ x, Write.removes s.applied x + s.removesPending x ≤ s.removesAsked x
  asked_le : ∀ x, s.removesAsked x ≤ s.addsConfirmed x

end Steps

variable {W : Type} {env : Env W} {getState : Node → String → Option StateValue} {s : Site elsewhere}
  {e : Exchange elsewhere}

theorem step_receive_reply {r : HttpRequest} {resp : HttpResponse} (h : serve elsewhere r = .reply resp) :
    s.step env getState (.receive r) =
      { s with requests := s.requests ++ [r], replies := s.replies ++ [⟨s.requests.length, r, resp⟩] } := by
  simp only [step]
  split
  · rename_i h'
    cases h.symm.trans h'
    rfl
  · rename_i h'
    cases h.symm.trans h'

theorem step_receive_call {r : HttpRequest} {q : GrpcRequest} {resume : Except String q.Response → HttpResponse}
    (h : serve elsewhere r = .call q resume) :
    s.step env getState (.receive r) =
      { s with
        requests := s.requests ++ [r]
        exchanges := s.exchanges ++ [⟨s.requests.length, r, q, resume, h, .start _, true⟩] } := by
  simp only [step]
  split
  · rename_i h'
    cases h.symm.trans h'
  · rename_i h'
    cases h.symm.trans h'
    rfl

theorem step_proceed_done {i : Nat} (hi : s.exchanges[i]? = some e) {a : e.request.Response}
    (h : e.server.rest = .done a) (outcome : Outcome) :
    s.step env getState (.proceed i outcome) =
      { s.reply e (.ok a) with exchanges := s.exchanges.eraseIdx i } := by
  simp only [step, hi]
  split
  · rename_i h'
    cases h.symm.trans h'
    rfl
  · rename_i h'
    cases h.symm.trans h'

theorem step_proceed_call {i : Nat} (hi : s.exchanges[i]? = some e) {c : NodeCall}
    {next : c.Answer → ServerProgram e.request.Response} (h : e.server.rest = .call c next) (outcome : Outcome) :
    s.step env getState (.proceed i outcome) =
      { (s.perform env getState outcome c).2 with
        exchanges := s.exchanges.set i
          { e with server := e.server.advance h (s.perform env getState outcome c).1 } } := by
  simp only [step, hi]
  split
  · rename_i h'
    cases h.symm.trans h'
  · rename_i h'
    cases h.symm.trans h'
    rfl

/-! ### A write is committed -/

theorem balanced_concat {log : List Write} {w : Write} (h : Write.Balanced log)
    (hlast : ∀ x, Write.removes (log ++ [w]) x ≤ Write.adds (log ++ [w]) x) : Write.Balanced (log ++ [w]) := by
  intro i x
  by_cases hi : i ≤ log.length
  · rw [List.take_append_of_le_length hi]
    exact h i x
  · rw [List.take_of_length_le (by simp; omega)]
    exact hlast x

theorem commit_node (hJ : env.command.RoundTrips Command.SameWrite) {w : Write} {data : Bytes}
    (hdata : s.node.encodeCommand env w.op.cmdType w.item = .ok data) (index term : UInt64) :
    (s.commit env w data index term).node =
      { s.node with bloomFilter := w.onFilter env.sum32 s.node.bloomFilter } := by
  simp only [commit, Cluster.apply_encoded hJ hdata]

/-- A write that finds room, and its item if it is a remove. -/
theorem covers_commit (hJ : env.command.RoundTrips Command.SameWrite) (h : s.Inv env) {w : Write} {data : Bytes}
    (hdata : s.node.encodeCommand env w.op.cmdType w.item = .ok data)
    (hroom : w.op = .add → HasRoom env s.node.bloomFilter w.item)
    (hremove : w.op = .remove → Write.removes s.applied w.item < Write.adds s.applied w.item) (index term : UInt64) :
    2 ≤ (s.commit env w data index term).node.bloomFilter.m ∧
      Write.Balanced (s.commit env w data index term).applied ∧
      (s.commit env w data index term).node.bloomFilter.Covers env.sum32
        (Write.outstanding (s.commit env w data index term).applied) := by
  have hbalanced : Write.Balanced (s.applied ++ [w]) := by
    refine balanced_concat h.balanced fun x => ?_
    have hx := h.balanced.removes_le x
    rw [Write.removes_concat, Write.adds_concat]
    obtain ⟨op, y⟩ := w
    cases op with
    | add => simp; omega
    | remove =>
      by_cases hxy : y = x
      · subst hxy
        have := hremove rfl
        simp at this ⊢
        omega
      · simpa [hxy] using hx
  rw [commit_node hJ hdata]
  refine ⟨(Cluster.onFilter_m ..).symm ▸ h.two_le_m, hbalanced, ?_⟩
  exact Cluster.covers_onFilter h.two_le_m (fun _ => h.covers) hroom hbalanced

/-- What becomes of the entry of a write. -/
theorem submit_cases (w : Write) (outcome : Outcome) :
    (s.node.submit env w.op.cmdType (fun _ => outcome.error) w.item ≠ none ∧ s.submit env w outcome = s) ∨
      (∃ data index term, s.node.encodeCommand env w.op.cmdType w.item = .ok data ∧
        outcome = .committed index term ∧ s.submit env w outcome = s.commit env w data index term) ∨
      ∃ data, s.node.encodeCommand env w.op.cmdType w.item = .ok data ∧
        s.node.submit env w.op.cmdType (fun _ => outcome.error) w.item ≠ none ∧
        s.submit env w outcome = { s with limbo := s.limbo ++ [(w, data)] } := by
  unfold submit Node.submit
  cases hdata : s.node.encodeCommand env w.op.cmdType w.item with
  | error err => exact .inl ⟨by simp, rfl⟩
  | ok data =>
    cases outcome with
    | committed index term => exact .inr (.inl ⟨data, index, term, rfl, rfl, rfl⟩)
    | failed err => exact .inl ⟨by simp [Outcome.error], rfl⟩
    | lost err => exact .inr (.inr ⟨data, rfl, by simp [Outcome.error], rfl⟩)

/-! ### Steps -/

private theorem split_getElem? {α : Type} {l : List α} {i : Nat} {a : α} (h : l[i]? = some a) :
    ∃ before after, l = before ++ a :: after ∧ (∀ b, l.set i b = before ++ b :: after) ∧
      l.eraseIdx i = before ++ after := by
  obtain ⟨hi, rfl⟩ := List.getElem?_eq_some_iff.1 h
  refine ⟨l.take i, l.drop (i + 1), ?_, fun b => ?_, ?_⟩
  · rw [List.cons_getElem_drop_succ, List.take_append_drop]
  · rw [List.set_eq_take_append_cons_drop, if_pos hi]
  · exact List.eraseIdx_eq_take_drop_succ l i

theorem addsConfirmed_reply_ok (s : Site elsewhere) {a : e.request.Response} (h : e.server.rest = .done a)
    (x : Bytes) :
    s.addsConfirmed x ≤ (s.reply e (.ok a)).addsConfirmed x ∧
      (s.reply e (.ok a)).addsConfirmed x ≤ s.addsConfirmed x + (DBFServer.granted e.server.trace).count x := by
  unfold reply
  split
  · have hdone := e.server.follows
    rw [h] at hdone
    have hsub := (confirmed_resume e.asks hdone).count_le x
    simp only [addsConfirmed, List.flatMap_append, List.flatMap_singleton, List.count_append]
    omega
  · exact ⟨Nat.le_refl _, Nat.le_add_right _ _⟩

theorem addsConfirmed_reply_error (s : Site elsewhere) (e : Exchange elsewhere) (err : String) (x : Bytes) :
    (s.reply e (.error err)).addsConfirmed x = s.addsConfirmed x := by
  unfold reply
  split
  · simp only [addsConfirmed, List.flatMap_append, List.flatMap_singleton, List.count_append, confirmed_error e.asks,
      List.count_nil, Nat.add_zero]
  · rfl

/-- A reply changes nothing else. -/
theorem reply_eq (s : Site elsewhere) (e : Exchange elsewhere) (result : Except String e.request.Response) :
    ∃ replies, s.reply e result = { s with replies := replies } := by
  unfold reply
  split
  · exact ⟨_, rfl⟩
  · exact ⟨s.replies, rfl⟩

private theorem asked_eq_none {r : HttpRequest} {resp : HttpResponse} (h : serve elsewhere r = .reply resp) :
    asked elsewhere r = none := by
  unfold asked
  rw [h]

theorem inv_receive (h : s.Inv env) {r : HttpRequest} (hcareful : s.Careful (.receive r)) :
    (s.step env getState (.receive r)).Inv env := by
  cases hserve : serve elsewhere r with
  | reply resp =>
    have hasked := asked_eq_none hserve
    have hconfirmed : confirmed elsewhere r resp = [] := by
      unfold confirmed
      rw [hasked]
      exact ite_self _
    rw [step_receive_reply hserve]
    refine ⟨h.two_le_m, h.encoded, h.balanced, h.covers, fun x => ?_, fun x => ?_, fun x => ?_⟩
    · simpa [addsConfirmed, addsGranted, hconfirmed] using h.adds_le x
    · simpa [removesAsked, removesPending, hasked] using h.removes_le x
    · simpa [addsConfirmed, removesAsked, hconfirmed, hasked] using h.asked_le x
  | call q resume =>
    have hasked := asked_of_serve hserve
    rw [step_receive_call hserve]
    refine ⟨h.two_le_m, h.encoded, h.balanced, h.covers, fun x => ?_, fun x => ?_, fun x => ?_⟩
    · simpa [addsConfirmed, addsGranted, Program.Thread.start, DBFServer.granted] using h.adds_le x
    · have hx := h.removes_le x
      simp only [removesPending, removesAsked, List.filterMap_append, List.filterMap_cons, List.filterMap_nil, hasked,
        List.count_append, List.countP_append, List.count_singleton, List.countP_singleton, Exchange.removes,
        Program.Thread.start, List.isEmpty_nil, Bool.and_true, decide_eq_true_eq, beq_iff_eq] at hx ⊢
      omega
    · have hx := h.asked_le x
      have hq := hcareful q hasked
      simp only [removesAsked, addsConfirmed, List.filterMap_append, List.filterMap_cons, List.filterMap_nil, hasked,
        List.count_append, List.count_singleton, beq_iff_eq] at hx hq ⊢
      split
      · rename_i heq
        have := hq x (heq ▸ rfl)
        omega
      · omega

theorem inv_done (h : s.Inv env) {i : Nat} (hi : s.exchanges[i]? = some e) {a : e.request.Response}
    (hdone : e.server.rest = .done a) (outcome : Outcome) : (s.step env getState (.proceed i outcome)).Inv env := by
  have hconfirmed := addsConfirmed_reply_ok s hdone
  obtain ⟨before, after, hsplit, -, herase⟩ := split_getElem? hi
  obtain ⟨replies, hreply⟩ := s.reply_eq e (.ok a)
  rw [step_proceed_done hi hdone, herase, hreply]
  rw [hreply] at hconfirmed
  refine ⟨h.two_le_m, h.encoded, h.balanced, h.covers, fun x => ?_, fun x => ?_, fun x => ?_⟩
  · have hx := h.adds_le x
    have hle := (hconfirmed x).2
    simp only [addsGranted, hsplit, List.flatMap_append, List.flatMap_cons, List.count_append] at hx ⊢
    simp only [addsConfirmed] at hx hle ⊢
    omega
  · have hx := h.removes_le x
    simp only [removesPending, hsplit, List.countP_append, List.countP_cons] at hx ⊢
    simp only [removesAsked] at hx ⊢
    omega
  · exact (h.asked_le x).trans (hconfirmed x).1

theorem inv_disconnect (h : s.Inv env) (i : Nat) (err : String) (goesOn : Bool) :
    (s.step env getState (.disconnect i err goesOn)).Inv env := by
  simp only [step]
  cases hi : s.exchanges[i]? with
  | none => exact h
  | some e =>
    have hconfirmed := s.addsConfirmed_reply_error e err
    obtain ⟨before, after, hsplit, hset, herase⟩ := split_getElem? hi
    obtain ⟨replies, hreply⟩ := s.reply_eq e (.error err)
    dsimp only
    rw [hreply] at hconfirmed ⊢
    refine ⟨h.two_le_m, h.encoded, h.balanced, h.covers, fun x => ?_, fun x => ?_, fun x => ?_⟩
    · have hx := h.adds_le x
      have heq := hconfirmed x
      simp only [addsGranted, hsplit, List.flatMap_append, List.flatMap_cons, List.count_append] at hx
      simp only [addsConfirmed] at hx heq ⊢
      simp only [addsGranted, hset, herase]
      cases goesOn <;> simp <;> omega
    · have hx := h.removes_le x
      simp only [removesPending, hsplit, List.countP_append, List.countP_cons] at hx
      simp only [removesAsked] at hx ⊢
      simp only [removesPending, hset, herase]
      cases goesOn <;> simp [List.countP_append, List.countP_cons, Exchange.removes] at hx ⊢ <;> omega
    · exact (h.asked_le x).trans_eq (hconfirmed x).symm

/-- The handlers and the entries change, and the log does not. -/
private theorem inv_of_counts (h : s.Inv env) {exchanges : List (Exchange elsewhere)} {limbo : List (Write × Bytes)}
    (hencoded : ∀ l ∈ limbo, s.node.encodeCommand env l.1.op.cmdType l.1.item = .ok l.2)
    (hgranted : ∀ x, addsGranted { s with exchanges := exchanges, limbo := limbo } x ≤ s.addsGranted x)
    (hpending : ∀ x, removesPending { s with exchanges := exchanges, limbo := limbo } x ≤ s.removesPending x) :
    Inv env { s with exchanges := exchanges, limbo := limbo } where
  two_le_m := h.two_le_m
  encoded := hencoded
  balanced := h.balanced
  covers := h.covers
  adds_le x := (Nat.add_le_add_left (hgranted x) _).trans (h.adds_le x)
  removes_le x := (Nat.add_le_add_left (hpending x) _).trans (h.removes_le x)
  asked_le := h.asked_le

/-- A write goes from the handlers and the entries to the log. -/
private theorem inv_commit (hJ : env.command.RoundTrips Command.SameWrite) (h : s.Inv env) {w : Write} {data : Bytes}
    (hdata : s.node.encodeCommand env w.op.cmdType w.item = .ok data)
    (hroom : w.op = .add → HasRoom env s.node.bloomFilter w.item)
    {exchanges : List (Exchange elsewhere)} {limbo : List (Write × Bytes)} (hlimbo : limbo ⊆ s.limbo)
    (hgranted : ∀ x, addsGranted { s with exchanges := exchanges, limbo := limbo } x ≤
      s.addsGranted x + if w = ⟨.add, x⟩ then 1 else 0)
    (hpending : ∀ x, removesPending { s with exchanges := exchanges, limbo := limbo } x +
      (if w = ⟨.remove, x⟩ then 1 else 0) ≤ s.removesPending x) (index term : UInt64) :
    Inv env { s.commit env w data index term with exchanges := exchanges, limbo := limbo } := by
  -- a remove that was still to be made was asked for, and asked for no more often than adds were applied
  have hremove : w.op = .remove → Write.removes s.applied w.item < Write.adds s.applied w.item := by
    intro hop
    have hw : w = ⟨.remove, w.item⟩ := by rw [← hop]
    have hadds := h.adds_le w.item
    have hremoves := h.removes_le w.item
    have hasked := h.asked_le w.item
    have hle := hpending w.item
    rw [if_pos hw] at hle
    omega
  obtain ⟨hm, hbalanced, hcovers⟩ := covers_commit hJ h hdata hroom hremove index term
  refine ⟨hm, fun l hl => ?_, hbalanced, hcovers, fun x => ?_, fun x => ?_, h.asked_le⟩
  · -- encoding does not look at the filter
    show (s.commit env w data index term).node.encodeCommand env l.1.op.cmdType l.1.item = .ok l.2
    rw [commit_node hJ hdata]
    exact h.encoded l (hlimbo hl)
  · have hx := h.adds_le x
    have hle := hgranted x
    show s.addsConfirmed x + addsGranted { s with exchanges := exchanges, limbo := limbo } x ≤
      Write.adds (s.applied ++ [w]) x
    rw [Write.adds_concat]
    omega
  · have hx := h.removes_le x
    have hle := hpending x
    show Write.removes (s.applied ++ [w]) x + removesPending { s with exchanges := exchanges, limbo := limbo } x ≤
      s.removesAsked x
    rw [Write.removes_concat]
    omega

theorem inv_late (hJ : env.command.RoundTrips Command.SameWrite) (h : s.Inv env) {j : Nat} {index term : UInt64}
    (hroom : s.Room env (.late j index term)) : (s.step env getState (.late j index term)).Inv env := by
  simp only [step]
  cases hj : s.limbo[j]? with
  | none => exact h
  | some l =>
    obtain ⟨w, data⟩ := l
    obtain ⟨before, after, hsplit, -, herase⟩ := split_getElem? hj
    refine inv_commit hJ h (h.encoded _ (List.mem_of_getElem? hj)) (hroom _ hj) (List.eraseIdx_subset ..)
      (fun x => Nat.le_add_right _ _) (fun x => ?_) index term
    show s.exchanges.countP _ + (s.limbo.eraseIdx j).countP _ + _ ≤ s.exchanges.countP _ + s.limbo.countP _
    rw [herase, hsplit]
    simp only [List.countP_append, List.countP_cons, decide_eq_true_eq]
    omega

/-- The exchange after its next call. -/
private def advanced (e : Exchange elsewhere) {c : NodeCall} {next : c.Answer → ServerProgram e.request.Response}
    (h : e.server.rest = .call c next) (answer : c.Answer) : Exchange elsewhere :=
  { e with server := e.server.advance h answer }

private theorem granted_advanced {c : NodeCall} {next : c.Answer → ServerProgram e.request.Response}
    (h : e.server.rest = .call c next) (answer : c.Answer) :
    DBFServer.granted (advanced e h answer).server.trace =
      DBFServer.granted e.server.trace ++ (DBFServer.grant ⟨c, answer⟩).toList := by
  show DBFServer.granted (e.server.trace ++ [⟨c, answer⟩]) = _
  rw [DBFServer.granted, List.filterMap_append]
  rfl

private theorem removes_advanced {c : NodeCall} {next : c.Answer → ServerProgram e.request.Response}
    (h : e.server.rest = .call c next) (answer : c.Answer) (x : Bytes) : (advanced e h answer).removes x = false := by
  simp [Exchange.removes, advanced, Program.Thread.advance]

/-- A handler that removes an item is about to do the one remove it was asked for. -/
private theorem removes_of_next {item : Bytes} {next : Option String → ServerProgram e.request.Response}
    (h : e.server.rest = .call (.write .remove item) next) : e.removes item = true := by
  have hfollows := e.server.follows
  rw [h] at hfollows
  obtain ⟨hrequest, htrace⟩ := DBFServer.eq_remove_of_follows hfollows
  simp [Exchange.removes, hrequest, htrace]

private theorem count_grant_le (op : WriteOp) (item : Bytes) (answer : Option String) (x : Bytes) :
    (DBFServer.grant ⟨.write op item, answer⟩).toList.count x ≤
      if (⟨op, item⟩ : Write) = ⟨.add, x⟩ then 1 else 0 := by
  cases op with
  | remove => exact Nat.zero_le _
  | add =>
    cases answer with
    | some err => exact Nat.zero_le _
    | none => simp [DBFServer.grant, List.count_singleton]

private theorem grant_of_ne_none {op : WriteOp} {item : Bytes} {answer : Option String} (h : answer ≠ none) :
    DBFServer.grant ⟨.write op item, answer⟩ = none := by
  cases answer with
  | none => exact absurd rfl h
  | some err => cases op <;> rfl

/-- What the answer to a call of the handler does to the counts. -/
private theorem counts_advanced {i : Nat} (hi : s.exchanges[i]? = some e) {c : NodeCall}
    {next : c.Answer → ServerProgram e.request.Response} (h : e.server.rest = .call c next) (answer : c.Answer)
    (x : Bytes) :
    ((s.exchanges.set i (advanced e h answer)).flatMap fun e => DBFServer.granted e.server.trace).count x =
        s.addsGranted x + (DBFServer.grant ⟨c, answer⟩).toList.count x ∧
      (s.exchanges.set i (advanced e h answer)).countP (·.removes x) + (if e.removes x then 1 else 0) =
        s.exchanges.countP (·.removes x) := by
  obtain ⟨before, after, hsplit, hset, -⟩ := split_getElem? hi
  rw [hset]
  constructor
  · simp only [addsGranted, hsplit, List.flatMap_append, List.flatMap_cons, granted_advanced, List.count_append]
    omega
  · simp only [hsplit, List.countP_append, List.countP_cons, removes_advanced]
    simp
    omega

theorem inv_call (hJ : env.command.RoundTrips Command.SameWrite) (h : s.Inv env) {i : Nat}
    (hi : s.exchanges[i]? = some e) {c : NodeCall} {next : c.Answer → ServerProgram e.request.Response}
    (hcall : e.server.rest = .call c next) {outcome : Outcome} (hroom : s.Room env (.proceed i outcome)) :
    (s.step env getState (.proceed i outcome)).Inv env := by
  have hcounts := counts_advanced hi hcall (s.perform env getState outcome c).1
  rw [step_proceed_call hi hcall]
  change Inv env { (s.perform env getState outcome c).2 with
    exchanges := s.exchanges.set i (advanced e hcall (s.perform env getState outcome c).1) }
  generalize s.exchanges.set i (advanced e hcall (s.perform env getState outcome c).1) = exchanges at hcounts ⊢
  -- a call that leaves the log as it is, and grants nothing
  have hsame : DBFServer.grant ⟨c, (s.perform env getState outcome c).1⟩ = none →
      Inv env { s with exchanges := exchanges } := by
    intro hgrant
    refine inv_of_counts h h.encoded (fun x => ?_) (fun x => ?_)
    · have hgranted := (hcounts x).1
      rw [hgrant] at hgranted
      exact Nat.le_of_eq hgranted
    · have hremoves := (hcounts x).2
      simp only [removesPending]
      omega
  cases c with
  | contains item => exact hsame rfl
  | getState => exact hsame rfl
  | write op item =>
    -- a remove is the one that the handler was asked for
    have hnext : ∀ x, (if (⟨op, item⟩ : Write) = ⟨.remove, x⟩ then 1 else 0) ≤ if e.removes x then 1 else 0 := by
      intro x
      split
      · rename_i heq
        cases heq
        rw [if_pos (removes_of_next hcall)]
      · exact Nat.zero_le _
    rcases s.submit_cases ⟨op, item⟩ outcome with ⟨hanswer, hsubmit⟩ | ⟨data, index, term, hdata, rfl, hsubmit⟩ |
      ⟨data, hdata, hanswer, hsubmit⟩
    · have hinv := hsame (grant_of_ne_none hanswer)
      simp only [perform, hsubmit]
      exact hinv
    · have hwrite : e.nextWrite = some ⟨op, item⟩ := by
        unfold Exchange.nextWrite
        rw [hcall]
      simp only [perform, hsubmit]
      refine inv_commit hJ h hdata (hroom e hi _ hwrite) (List.Subset.refl _) (fun x => ?_) (fun x => ?_) index term
      · have hgrant := count_grant_le op item (s.perform env getState (.committed index term) (.write op item)).1 x
        exact (Nat.le_of_eq (hcounts x).1).trans (Nat.add_le_add_left hgrant _)
      · have hremoves := (hcounts x).2
        have hle := hnext x
        simp only [removesPending]
        omega
    · have hgrant : DBFServer.grant ⟨.write op item, (s.perform env getState outcome (.write op item)).1⟩ = none :=
        grant_of_ne_none hanswer
      simp only [perform, hsubmit]
      refine inv_of_counts h (fun l hl => ?_) (fun x => ?_) (fun x => ?_)
      · rcases List.mem_append.1 hl with hl | hl
        · exact h.encoded l hl
        · obtain rfl := List.mem_singleton.1 hl
          exact hdata
      · have hgranted := (hcounts x).1
        rw [hgrant] at hgranted
        exact Nat.le_of_eq hgranted
      · have hremoves := (hcounts x).2
        have hle := hnext x
        simp only [removesPending, List.countP_append, List.countP_singleton, decide_eq_true_eq]
        omega

theorem inv_start {n : Node} (hm : 2 ≤ n.bloomFilter.m) : Inv env (start elsewhere n) where
  two_le_m := hm
  encoded := by simp [start]
  balanced i x := by simp [start, Write.removes, Write.adds]
  covers j := Nat.zero_le _
  adds_le x := by simp [start, addsConfirmed, addsGranted, Write.adds]
  removes_le x := by simp [start, removesPending, removesAsked, Write.removes]
  asked_le x := by simp [start, removesAsked, addsConfirmed]

theorem inv_step (hJ : env.command.RoundTrips Command.SameWrite) (s : Site elsewhere) (ev : Event) (h : s.Inv env)
    (hok : s.Room env ev ∧ s.Careful ev) : (s.step env getState ev).Inv env := by
  cases ev with
  | receive r => exact inv_receive h hok.2
  | disconnect i err goesOn => exact inv_disconnect h i err goesOn
  | late j index term => exact inv_late hJ h hok.1
  | proceed i outcome =>
    cases hi : s.exchanges[i]? with
    | none =>
      simp only [step, hi]
      exact h
    | some e =>
      cases hrest : e.server.rest with
      | done a => exact inv_done h hi hrest outcome
      | call c next => exact inv_call hJ h hi hrest hok.1

/-! ### Requests that come in later -/

private theorem submit_frame (s : Site elsewhere) (w : Write) (outcome : Outcome) :
    (s.submit env w outcome).requests = s.requests ∧ (s.submit env w outcome).replies = s.replies := by
  rcases s.submit_cases w outcome with ⟨-, h⟩ | ⟨_, _, _, -, -, h⟩ | ⟨_, -, -, h⟩ <;> rw [h] <;> exact ⟨rfl, rfl⟩

private theorem perform_frame (env : Env W) (getState : Node → String → Option StateValue) (s : Site elsewhere)
    (outcome : Outcome) (c : NodeCall) :
    (s.perform env getState outcome c).2.requests = s.requests ∧
      (s.perform env getState outcome c).2.replies = s.replies := by
  cases c with
  | write op item => exact submit_frame s ⟨op, item⟩ outcome
  | contains item => exact ⟨rfl, rfl⟩
  | getState => exact ⟨rfl, rfl⟩

private theorem reply_frame (s : Site elsewhere) (e : Exchange elsewhere)
    (result : Except String e.request.Response) :
    (s.reply e result).requests = s.requests ∧ s.replies <+: (s.reply e result).replies ∧
      ∀ rep ∈ (s.reply e result).replies, rep ∈ s.replies ∨ rep = ⟨e.arrival, e.http, e.resume result⟩ := by
  unfold reply
  split
  · refine ⟨rfl, List.prefix_append _ _, fun rep hrep => ?_⟩
    rcases List.mem_append.1 hrep with hrep | hrep
    · exact .inl hrep
    · exact .inr (List.mem_singleton.1 hrep)
  · exact ⟨rfl, List.prefix_refl _, fun rep hrep => .inl hrep⟩

/-- What a new reply answers: a request that is not passed on, or the call of an exchange. -/
inductive Answers (s s' : Site elsewhere) (rep : Reply) : Prop
  | atOnce (harrival : rep.arrival = s.requests.length) (hgrown : s.requests.length < s'.requests.length)
      (h : serve elsewhere rep.http = .reply rep.response)
  | response (e : Exchange elsewhere) (he : e ∈ s.exchanges) {a : e.request.Response} (h : e.server.rest = .done a)
      (hrep : rep = ⟨e.arrival, e.http, e.resume (.ok a)⟩)
  | failure (e : Exchange elsewhere) (he : e ∈ s.exchanges) (err : String)
      (hrep : rep = ⟨e.arrival, e.http, e.resume (.error err)⟩)

/-- Where an exchange comes from: it is new, or it was there with the same answers or with one less. -/
inductive Continues (env : Env W) (s s' : Site elsewhere) (e' : Exchange elsewhere) : Prop
  | new (harrival : e'.arrival = s.requests.length) (hgrown : s.requests.length < s'.requests.length)
      (htrace : e'.server.trace = [])
  | same (e : Exchange elsewhere) (he : e ∈ s.exchanges) (harrival : e'.arrival = e.arrival)
      (htrace : e'.server.trace = e.server.trace)
  | answered (e : Exchange elsewhere) (he : e ∈ s.exchanges) (harrival : e'.arrival = e.arrival)
      (last : Program.Answered NodeCall.Answer) (htrace : e'.server.trace = e.server.trace ++ [last])
      (htrue : ∀ x b, last = ⟨.contains x, b⟩ → b = s.node.contains env x)

/-- What clients see only grows; every new reply answers a request, and every exchange goes on with one. -/
structure View (env : Env W) (s s' : Site elsewhere) : Prop where
  requests : s.requests <+: s'.requests
  replies : s.replies <+: s'.replies
  answers : ∀ rep ∈ s'.replies, rep ∈ s.replies ∨ s.Answers s' rep
  continues : ∀ e' ∈ s'.exchanges, s.Continues env s' e'

private theorem view_refl (env : Env W) (s : Site elsewhere) : s.View env s :=
  ⟨List.prefix_refl _, List.prefix_refl _, fun _ hrep => .inl hrep, fun e' he' => .same e' he' rfl rfl⟩

private theorem view_receive (s : Site elsewhere) (r : HttpRequest) :
    s.View env (s.step env getState (.receive r)) := by
  have hgrown : s.requests.length < (s.requests ++ [r]).length := by simp
  cases hserve : serve elsewhere r with
  | reply resp =>
    rw [step_receive_reply hserve]
    refine ⟨List.prefix_append _ _, List.prefix_append _ _, fun rep hrep => ?_, fun e' he' => .same e' he' rfl rfl⟩
    rcases List.mem_append.1 hrep with hrep | hrep
    · exact .inl hrep
    · obtain rfl := List.mem_singleton.1 hrep
      exact .inr (.atOnce rfl hgrown hserve)
  | call q resume =>
    rw [step_receive_call hserve]
    refine ⟨List.prefix_append _ _, List.prefix_refl _, fun rep hrep => .inl hrep, fun e' he' => ?_⟩
    rcases List.mem_append.1 he' with he' | he'
    · exact .same e' he' rfl rfl
    · obtain rfl := List.mem_singleton.1 he'
      exact .new rfl hgrown rfl

private theorem view_proceed (s : Site elsewhere) (i : Nat) (outcome : Outcome) :
    s.View env (s.step env getState (.proceed i outcome)) := by
  cases hi : s.exchanges[i]? with
  | none =>
    simp only [step, hi]
    exact view_refl env s
  | some e =>
    have he := List.mem_of_getElem? hi
    cases hrest : e.server.rest with
    | done a =>
      obtain ⟨hrequests, hreplies, hmem⟩ := reply_frame s e (.ok a)
      rw [step_proceed_done hi hrest]
      refine ⟨hrequests ▸ List.prefix_refl _, hreplies, fun rep hrep => ?_, fun e' he' => ?_⟩
      · exact (hmem rep hrep).imp_right fun h => .response e he hrest h
      · exact .same e' (List.mem_of_mem_eraseIdx he') rfl rfl
    | call c next =>
      obtain ⟨hrequests, hreplies⟩ := perform_frame env getState s outcome c
      rw [step_proceed_call hi hrest]
      refine ⟨hrequests ▸ List.prefix_refl _, hreplies ▸ List.prefix_refl _, fun rep hrep => .inl (hreplies ▸ hrep),
        fun e' he' => ?_⟩
      rcases List.mem_or_eq_of_mem_set he' with he' | rfl
      · exact .same e' he' rfl rfl
      · refine .answered e he rfl ⟨c, (s.perform env getState outcome c).1⟩ rfl fun x b hlast => ?_
        cases hlast
        rfl

private theorem view_disconnect (s : Site elsewhere) (i : Nat) (err : String) (goesOn : Bool) :
    s.View env (s.step env getState (.disconnect i err goesOn)) := by
  simp only [step]
  cases hi : s.exchanges[i]? with
  | none => exact view_refl env s
  | some e =>
    have he := List.mem_of_getElem? hi
    obtain ⟨hrequests, hreplies, hmem⟩ := reply_frame s e (.error err)
    refine ⟨hrequests ▸ List.prefix_refl _, hreplies, fun rep hrep => ?_, fun e' he' => ?_⟩
    · exact (hmem rep hrep).imp_right fun h => .failure e he err h
    · cases goesOn with
      | false => exact .same e' (List.mem_of_mem_eraseIdx he') rfl rfl
      | true =>
        rcases List.mem_or_eq_of_mem_set he' with he' | rfl
        · exact .same e' he' rfl rfl
        · exact .same e he rfl rfl

theorem view_step (s : Site elsewhere) (ev : Event) : s.View env (s.step env getState ev) := by
  cases ev with
  | receive r => exact view_receive s r
  | proceed i outcome => exact view_proceed s i outcome
  | disconnect i err goesOn => exact view_disconnect s i err goesOn
  | late j index term =>
    simp only [step]
    split
    · exact view_refl env s
    · exact ⟨List.prefix_refl _, List.prefix_refl _, fun _ hrep => .inl hrep, fun e' he' => .same e' he' rfl rfl⟩

theorem View.removesAsked_le {s' : Site elsewhere} (h : s.View env s') (x : Bytes) :
    s.removesAsked x ≤ s'.removesAsked x :=
  (h.requests.sublist.filterMap _).count_le _

theorem removesAsked_le_exec (s : Site elsewhere) (es : List Event) (x : Bytes) :
    s.removesAsked x ≤ (exec (step env getState) s es).removesAsked x := by
  induction es generalizing s with
  | nil => exact Nat.le_refl _
  | cons ev es ih => exact ((view_step s ev).removesAsked_le x).trans (ih _)

theorem View.addsConfirmed_le {s' : Site elsewhere} (h : s.View env s') (x : Bytes) :
    s.addsConfirmed x ≤ s'.addsConfirmed x := by
  obtain ⟨new, hnew⟩ := h.replies
  unfold addsConfirmed
  rw [← hnew, List.flatMap_append, List.count_append]
  exact Nat.le_add_right _ _

/-- The requests of all exchanges and replies have come in. -/
structure Arrived (s : Site elsewhere) : Prop where
  exchanges : ∀ e ∈ s.exchanges, e.arrival < s.requests.length
  replies : ∀ rep ∈ s.replies, rep.arrival < s.requests.length

theorem arrived_step (s : Site elsewhere) (ev : Event) (h : s.Arrived) : (s.step env getState ev).Arrived := by
  have hview : s.View env (s.step env getState ev) := view_step s ev
  have hlen := hview.requests.length_le
  constructor
  · intro e' he'
    cases hview.continues e' he' with
    | new harrival hgrown => exact harrival ▸ hgrown
    | same e he harrival => exact harrival ▸ (h.exchanges e he).trans_le hlen
    | answered e he harrival => exact harrival ▸ (h.exchanges e he).trans_le hlen
  · intro rep hrep
    rcases hview.answers rep hrep with hrep | hrep
    · exact (h.replies rep hrep).trans_le hlen
    · cases hrep with
      | atOnce harrival hgrown => exact harrival ▸ hgrown
      | response e he _ hrep => exact hrep ▸ (h.exchanges e he).trans_le hlen
      | failure e he _ hrep => exact hrep ▸ (h.exchanges e he).trans_le hlen

/-- Nothing that came in after the first `n` requests has been told that the item is not there. -/
structure Fresh (x : Bytes) (n : Nat) (s : Site elsewhere) : Prop where
  exchanges : ∀ e ∈ s.exchanges, n ≤ e.arrival → ∀ b, ⟨.contains x, b⟩ ∈ e.server.trace → b = true
  replies : ∀ rep ∈ s.replies, n ≤ rep.arrival → Finds elsewhere rep.http rep.response x

/-- The filter has every item with more confirmed adds than removes asked for. -/
theorem contains_of_inv (h : s.Inv env) {x : Bytes} (hx : s.removesAsked x < s.addsConfirmed x) :
    s.node.contains env x = true := by
  have hcount := Write.count_outstanding h.balanced x
  have hadds := h.adds_le x
  have hremoves := h.removes_le x
  exact h.covers.contains (by omega)

theorem fresh_step (h : s.Inv env) {x : Bytes} (hne : x ≠ []) (hx : s.removesAsked x < s.addsConfirmed x) {n : Nat}
    (hfresh : s.Fresh x n) (ev : Event) : (s.step env getState ev).Fresh x n := by
  have hview : s.View env (s.step env getState ev) := view_step s ev
  constructor
  · intro e' he' harrived b hb
    cases hview.continues e' he' with
    | new _ _ htrace =>
      rw [htrace] at hb
      cases hb
    | same e he harrival htrace => exact hfresh.exchanges e he (harrival ▸ harrived) b (htrace ▸ hb)
    | answered e he harrival last htrace htrue =>
      rw [htrace] at hb
      rcases List.mem_append.1 hb with hb | hb
      · exact hfresh.exchanges e he (harrival ▸ harrived) b hb
      · exact (htrue x b (List.mem_singleton.1 hb).symm).trans (contains_of_inv h hx)
  · intro rep hrep harrived
    rcases hview.answers rep hrep with hrep | hrep
    · exact hfresh.replies rep hrep harrived
    · cases hrep with
      | atOnce _ _ hserve => exact finds_reply hserve x
      | response e he hdone hrep =>
        subst hrep
        have hfollows := e.server.follows
        rw [hdone] at hfollows
        exact finds_resume e.asks hfollows hne (hfresh.exchanges e he harrived)
      | failure e he err hrep =>
        subst hrep
        exact finds_error e.asks err x

theorem fresh_exec (hJ : env.command.RoundTrips Command.SameWrite) {x : Bytes} (hne : x ≠ []) {n : Nat}
    {es : List Event} (hes : Admits (step env getState) (fun s ev => s.Room env ev ∧ s.Careful ev) s es)
    (h : s.Inv env) (hfresh : s.Fresh x n)
    (hx : (exec (step env getState) s es).removesAsked x < s.addsConfirmed x) :
    (exec (step env getState) s es).Fresh x n := by
  induction es generalizing s with
  | nil => exact hfresh
  | cons ev es ih =>
    have hview : s.View env (s.step env getState ev) := view_step s ev
    have hnow : s.removesAsked x < s.addsConfirmed x :=
      ((hview.removesAsked_le x).trans (removesAsked_le_exec _ es x)).trans_lt hx
    exact ih hes.2 (inv_step hJ s ev h hes.1) (fresh_step h hne hnow hfresh ev)
      (hx.trans_le (hview.addsConfirmed_le x))

/-- Whatever requests come in, however their handlers take turns, whatever becomes of the entries in Raft and wherever
connections break: as long as every `Add` that is committed finds room in the counters of its item and nobody asks for
more removes of an item than adds of it have been confirmed, every reply without an error to a request that comes in
when more adds of an item are confirmed than removes are asked for until the end says that the item is there. -/
theorem finds_of_confirmed (hJ : env.command.RoundTrips Command.SameWrite) {n : Node} (hm : 2 ≤ n.bloomFilter.m)
    {before after : List Event}
    (hes : Admits (step env getState) (fun s ev => s.Room env ev ∧ s.Careful ev) (start elsewhere n)
      (before ++ after)) {x : Bytes} (hne : x ≠ [])
    (hx : (exec (step env getState) (start elsewhere n) (before ++ after)).removesAsked x <
      (exec (step env getState) (start elsewhere n) before).addsConfirmed x) :
    ∀ rep ∈ (exec (step env getState) (start elsewhere n) (before ++ after)).replies,
      (exec (step env getState) (start elsewhere n) before).requests.length ≤ rep.arrival →
        Finds elsewhere rep.http rep.response x := by
  rw [Run.exec_append] at hx ⊢
  rw [Run.admits_append] at hes
  have hinv : (exec (step env getState) (start elsewhere n) before).Inv env :=
    Run.invariant (inv_step hJ) (inv_start hm) hes.1
  have harrived : (exec (step env getState) (start elsewhere n) before).Arrived :=
    Run.keeps arrived_step ⟨by simp [start], by simp [start]⟩ before
  have hfresh : (exec (step env getState) (start elsewhere n) before).Fresh x
      (exec (step env getState) (start elsewhere n) before).requests.length := by
    refine ⟨fun e he hle => absurd hle ?_, fun rep hrep hle => absurd hle ?_⟩
    · exact Nat.not_le_of_lt (harrived.exchanges e he)
    · exact Nat.not_le_of_lt (harrived.replies rep hrep)
  exact (fresh_exec hJ hne hes.2 hinv hfresh hx).replies

theorem command_roundTrips_textEnv {j : JsonEnv} (hj : j.WholeMinutes) (sum32 crc32 : Bytes → UInt32)
    (walWrite : W → Bytes → W × Option String) :
    (textEnv j sum32 crc32 walWrite).command.RoundTrips Command.SameWrite := by
  intro cmd text htext
  obtain ⟨cmd', hread, rfl⟩ := (Command.lawful hj).roundTrips cmd text htext
  exact ⟨cmd, hread, rfl, rfl⟩

/-- A client adds an item; its `Add` is reported as failed and committed later.  It adds the item again, and asks for
it when that is confirmed. -/
def sampleBefore : List Event :=
  [.receive ⟨"POST", "/api/v1/add", utf8 "\x7b\"item\":\"a\"\x7d", true⟩, .proceed 0 (.lost "leadership lost"),
    .receive ⟨"POST", "/api/v1/add", utf8 "\x7b\"item\":\"a\"\x7d", true⟩, .proceed 1 (.committed 2 1),
    .proceed 1 (.failed ""), .late 0 3 1]

def sampleAfter : List Event :=
  [.receive ⟨"POST", "/api/v1/contains", utf8 "\x7b\"item\":\"a\"\x7d", true⟩, .proceed 1 (.failed ""),
    .proceed 0 (.failed ""), .proceed 0 (.failed "")]

def sampleElsewhere (_ : HttpRequest) : HttpResponse := ⟨404, [], []⟩

def siteEnv : Env Unit := textEnv utcEnv Murmur3.sum32 Crc32.checksum fun w _ => (w, none)

def sampleSite (es : List Event) : Site sampleElsewhere :=
  exec (step siteEnv fun _ _ => none) (start sampleElsewhere sampleNode) es

theorem finds_of_confirmed_sample :
    ∃ rep ∈ (sampleSite (sampleBefore ++ sampleAfter)).replies, rep.response.status = 200 ∧
      asked sampleElsewhere rep.http = some (.contains [97]) ∧
      readReply rep.response ["data", "exists"] = some (.bool true) := by
  have hes : Admits (step siteEnv fun _ _ => none) (fun s ev => s.Room siteEnv ev ∧ s.Careful ev)
      (start sampleElsewhere sampleNode) (sampleBefore ++ sampleAfter) := by
    decide +kernel
  have hx : (sampleSite (sampleBefore ++ sampleAfter)).removesAsked [97] <
      (sampleSite sampleBefore).addsConfirmed [97] := by
    decide +kernel
  have hreply : ∃ rep ∈ (sampleSite (sampleBefore ++ sampleAfter)).replies,
      (sampleSite sampleBefore).requests.length ≤ rep.arrival ∧ rep.response.status = 200 ∧
        asked sampleElsewhere rep.http = some (.contains [97]) := by
    decide +kernel
  obtain ⟨rep, hrep, harrival, hstatus, hasked⟩ := hreply
  have hfinds := finds_of_confirmed (command_roundTrips_textEnv wholeMinutes_utcEnv _ _ _) (by decide) hes (by decide)
    hx rep hrep harrival
  exact ⟨rep, hrep, hstatus, hasked, hfinds.contains hstatus hasked⟩

end Site

end Gateway

end DistributedBloomFilter
