import DistributedBloomFilter.Basic
import DistributedBloomFilter.Lib.Handover
import DistributedBloomFilter.Lib.Json
import DistributedBloomFilter.Lib.Keyed

/-!
# The metadata service

`Service` of `internal/metadata/service.go`.  `Save` makes the text under `mu` and writes it, by a temporary file and
a rename, under `writeMu`; between the two locks another `Save` can overtake it.  The texts on their way to
`metadata.json` are a `Handover`, so that the file never goes back to an older state when the texts are written in the
order in which they were made, and in a run at whose end every `Save` has returned, only then.

The methods that only read are left out.
-/

namespace DistributedBloomFilter

open Run (exec Admits)

structure Stats where
  totalAdds : Int64
  totalRemoves : Int64
  totalQueries : Int64
  lastBackup : Time
  lastCompaction : Time
deriving DecidableEq

/-- `V` is the type of the configuration values. -/
structure Metadata (V : Type) where
  nodeID : String
  createdAt : Time
  updatedAt : Time
  version : String
  clusterNodes : List String
  config : List (String × V)
  stats : Stats
deriving DecidableEq

/-- A call of one of the methods that change the metadata. -/
inductive Mutation (V : Type) where
  | setNodeID (nodeID : String)
  | addClusterNode (nodeID : String)
  | removeClusterNode (nodeID : String)
  | setConfig (key : String) (value : V)
  | recordAdd
  | recordRemove
  | recordQuery
  | setLastBackup (t : Time)
  | setLastCompaction (t : Time)

namespace Metadata

variable {V : Type} (now : Time) (m : Metadata V)

def setNodeID (nodeID : String) : Metadata V := { m with nodeID := nodeID, updatedAt := now }

/-- A node that is in the list already changes nothing, not even the time of the update. -/
def addClusterNode (nodeID : String) : Metadata V :=
  if nodeID ∈ m.clusterNodes then m
  else { m with clusterNodes := m.clusterNodes ++ [nodeID], updatedAt := now }

def removeClusterNode (nodeID : String) : Metadata V :=
  { m with clusterNodes := m.clusterNodes.filter fun n => n ≠ nodeID, updatedAt := now }

def setConfig (key : String) (value : V) : Metadata V :=
  { m with config := (m.config.filter fun entry => entry.1 ≠ key) ++ [(key, value)], updatedAt := now }

/-- The counters and the times of the statistics leave the time of the update as it is. -/
def withStats (f : Stats → Stats) : Metadata V := { m with stats := f m.stats }

def recordAdd : Metadata V := m.withStats fun s => { s with totalAdds := s.totalAdds + 1 }

def recordRemove : Metadata V := m.withStats fun s => { s with totalRemoves := s.totalRemoves + 1 }

def recordQuery : Metadata V := m.withStats fun s => { s with totalQueries := s.totalQueries + 1 }

def setLastBackup (t : Time) : Metadata V := m.withStats fun s => { s with lastBackup := t }

def setLastCompaction (t : Time) : Metadata V := m.withStats fun s => { s with lastCompaction := t }

def mutate : Mutation V → Metadata V
  | .setNodeID nodeID => m.setNodeID now nodeID
  | .addClusterNode nodeID => m.addClusterNode now nodeID
  | .removeClusterNode nodeID => m.removeClusterNode now nodeID
  | .setConfig key value => m.setConfig now key value
  | .recordAdd => m.recordAdd
  | .recordRemove => m.recordRemove
  | .recordQuery => m.recordQuery
  | .setLastBackup t => m.setLastBackup t
  | .setLastCompaction t => m.setLastCompaction t

end Metadata

/-- A text made by a `Save`, with the number of the state it is of. -/
structure Marshalled where
  version : Nat
  data : Bytes
deriving DecidableEq

/-- `called` are the calls of `Save` before `mu`, each with its goroutine and the number of states there had been when
it was called; `waiting` are those that have made their text and are before `writeMu`.  The states after each critical
section under `mu`, the starts of the calls of `Save` that have made a text, these texts, and those written to the
file are not data of the program. -/
structure Service (V : Type) where
  metadata : Metadata V
  called : List (Nat × Nat)
  waiting : List (Nat × Marshalled)
  file : Option Bytes
  states : List (Metadata V)
  starts : List Nat
  marshalled : List Marshalled
  written : List Marshalled

namespace Service

variable {V : Type}

inductive Event (V : Type) where
  | mutate (now : Time) (mutation : Mutation V)
  | save (t : Nat)
  /-- the section of `Save` under `mu` -/
  | marshal (t : Nat) (now : Time)
  /-- the section of `Save` under `writeMu` -/
  | write (t : Nat)

section Model

variable (json : Json (Metadata V)) (s : Service V)

/-- The state of the metadata after a critical section under `mu`. -/
def update (m : Metadata V) : Service V := { s with metadata := m, states := s.states ++ [m] }

def save (t : Nat) : Service V :=
  if t ∈ s.called.map Prod.fst ∨ t ∈ s.waiting.map Prod.fst then s
  else { s with called := s.called ++ [(t, s.states.length)] }

/-- A `Save` that cannot make its text returns; the time of the update has been set. -/
def marshal (t : Nat) (now : Time) : Service V :=
  match s.called.lookup t with
  | none => s
  | some start =>
    let m := { s.metadata with updatedAt := now }
    let s' := { s.update m with called := s.called.filter fun c => c.1 ≠ t }
    match json.marshal m with
    | .error _ => s'
    | .ok data =>
      let text := { version := s'.states.length, data := data }
      { s' with
        waiting := s.waiting ++ [(t, text)]
        starts := s.starts ++ [start]
        marshalled := s.marshalled ++ [text] }

/-- The text replaces the file. -/
def write (t : Nat) : Service V :=
  match s.waiting.find? fun w => w.1 = t with
  | none => s
  | some w =>
    { s with
      waiting := s.waiting.filter fun w => w.1 ≠ t
      file := some w.2.data
      written := s.written ++ [w.2] }

/-- A step of one goroutine; one that is not at that point does nothing. -/
def step : Event V → Service V
  | .mutate now mutation => s.update (s.metadata.mutate now mutation)
  | .save t => s.save t
  | .marshal t now => s.marshal json t now
  | .write t => s.write t

end Model

/-- The service after `NewService`, with the metadata it has loaded or made and the file as it is. -/
def newService (m : Metadata V) (file : Option Bytes) : Service V :=
  { metadata := m, called := [], waiting := [], file := file, states := [m], starts := [], marshalled := [],
    written := [] }

/-- Every text written is of a later state than those written before it. -/
def NeverOlder (s : Service V) : Prop := s.written.Pairwise fun u v => u.version < v.version

/-- The file is the text of a state that is not older than any start of a `Save`. -/
def Current (json : Json (Metadata V)) (s : Service V) : Prop :=
  ∀ start ∈ s.starts, ∃ (u : Marshalled) (m : Metadata V),
    s.file = some u.data ∧ start ≤ u.version ∧ s.states[u.version - 1]? = some m ∧ json.marshal m = .ok u.data

/-- The `Save` that writes made its text before every other one that waits. -/
def InTurn (s : Service V) : Event V → Prop
  | .write t => t ∈ s.waiting.map Prod.fst → s.waiting.head?.map Prod.fst = some t
  | _ => True

/-! ### The texts on their way to the file -/

def handover (s : Service V) : Handover Nat Marshalled where
  taken := s.marshalled
  pending := s.waiting.map fun w => (w.1, [w.2])
  delivered := s.written

section Steps

variable (json : Json (Metadata V))

def handoverEvents (s : Service V) : Event V → List (Handover.Event Nat Marshalled)
  | .marshal t now =>
    match s.called.lookup t, json.marshal { s.metadata with updatedAt := now } with
    | some _, .ok data => [.take t [{ version := s.states.length + 1, data := data }]]
    | _, _ => []
  | .write t => [.deliver t]
  | _ => []

structure Inv (s : Service V) : Prop where
  owners : (s.waiting.map Prod.fst).Nodup
  apart : ∀ c ∈ s.called, c.1 ∉ s.waiting.map Prod.fst
  called : ∀ c ∈ s.called, c.2 ≤ s.states.length
  versions : s.marshalled.Pairwise fun u v => u.version < v.version
  bounded : ∀ u ∈ s.marshalled, u.version ≤ s.states.length
  starts : ∀ start ∈ s.starts, ∃ u ∈ s.marshalled, start ≤ u.version
  texts : ∀ u ∈ s.marshalled, ∃ m, s.states[u.version - 1]? = some m ∧ json.marshal m = .ok u.data
  file : ∀ u, s.written.getLast? = some u → s.file = some u.data

variable {json} {s : Service V}

theorem inv_new (m : Metadata V) (file : Option Bytes) : Inv json (newService m file) where
  owners := List.nodup_nil
  apart := fun _ h => absurd h List.not_mem_nil
  called := fun _ h => absurd h List.not_mem_nil
  versions := .nil
  bounded := fun _ h => absurd h List.not_mem_nil
  starts := fun _ h => absurd h List.not_mem_nil
  texts := fun _ h => absurd h List.not_mem_nil
  file := fun _ h => by cases h

/-- A new state does not touch the earlier ones. -/
theorem Inv.update (h : Inv json s) (m : Metadata V) : Inv json (s.update m) := by
  have hlen : s.states.length ≤ (s.states ++ [m]).length := by
    rw [List.length_append]
    exact Nat.le_add_right _ _
  refine ⟨h.owners, h.apart, fun c hc => Nat.le_trans (h.called c hc) hlen, h.versions,
    fun u hu => Nat.le_trans (h.bounded u hu) hlen, h.starts, fun u hu => ?_, h.file⟩
  obtain ⟨m', hstate, htext⟩ := h.texts u hu
  refine ⟨m', ?_, htext⟩
  obtain ⟨hlt, -⟩ := List.getElem?_eq_some_iff.1 hstate
  show (s.states ++ [m])[u.version - 1]? = some m'
  rw [List.getElem?_append_left hlt]
  exact hstate

/-- Texts that do not wait any more. -/
theorem Inv.sublist (h : Inv json s) {waiting : List (Nat × Marshalled)} (hsub : waiting.Sublist s.waiting) :
    Inv json { s with waiting := waiting } :=
  ⟨h.owners.sublist (hsub.map _), fun c hc hw => h.apart c hc ((hsub.map _).subset hw), h.called, h.versions,
    h.bounded, h.starts, h.texts, h.file⟩

theorem marshal_cases (json : Json (Metadata V)) (s : Service V) (t : Nat) (now : Time) :
    s.called.lookup t = none ∧ s.marshal json t now = s ∨
      ∃ start, s.called.lookup t = some start ∧
        ((∃ err, json.marshal { s.metadata with updatedAt := now } = .error err ∧
            s.marshal json t now =
              { s.update { s.metadata with updatedAt := now } with called := s.called.filter fun c => c.1 ≠ t }) ∨
          ∃ data, json.marshal { s.metadata with updatedAt := now } = .ok data ∧
            s.marshal json t now =
              { s.update { s.metadata with updatedAt := now } with
                called := s.called.filter fun c => c.1 ≠ t
                waiting := s.waiting ++ [(t, ⟨s.states.length + 1, data⟩)]
                starts := s.starts ++ [start]
                marshalled := s.marshalled ++ [⟨s.states.length + 1, data⟩] }) := by
  have hlen : ∀ m, (s.update m).states.length = s.states.length + 1 := fun m => List.length_append
  unfold marshal
  cases hlookup : s.called.lookup t with
  | none => exact .inl ⟨rfl, rfl⟩
  | some start =>
    refine .inr ⟨start, rfl, ?_⟩
    dsimp only
    cases hmarshal : json.marshal { s.metadata with updatedAt := now } with
    | error err => exact .inl ⟨err, rfl, rfl⟩
    | ok data =>
      refine .inr ⟨data, rfl, ?_⟩
      dsimp only
      rw [hlen]

theorem write_cases (h : (s.waiting.map Prod.fst).Nodup) (t : Nat) :
    t ∉ s.waiting.map Prod.fst ∧ s.write t = s ∨
      ∃ u l r, s.waiting = l ++ (t, u) :: r ∧ (∀ w ∈ l ++ r, w.1 ≠ t) ∧
        s.write t = { s with waiting := l ++ r, file := some u.data, written := s.written ++ [u] } := by
  unfold write
  cases hf : s.waiting.find? fun w => w.1 = t with
  | none => exact .inl ⟨Keyed.notMem_of_find?_eq_none hf, rfl⟩
  | some w =>
    obtain ⟨howner, l, r, hwaiting, hl, hr⟩ := Keyed.split_of_find?_eq_some h hf
    obtain ⟨t', u⟩ := w
    obtain rfl : t' = t := howner
    have hfilter : ((l ++ (t', u) :: r).filter fun w => w.1 ≠ t') = l ++ r := Keyed.filter_ne rfl hl hr
    refine .inr ⟨u, l, r, hwaiting, List.forall_mem_append.2 ⟨hl, hr⟩, ?_⟩
    dsimp only
    rw [hwaiting, hfilter]

private theorem inv_marshal (h : Inv json s) (t : Nat) (now : Time) : Inv json (s.marshal json t now) := by
  have hupdate := h.update { s.metadata with updatedAt := now }
  have hstates : ∀ m, (s.update m).states.length = s.states.length + 1 := fun m => List.length_append
  rcases marshal_cases json s t now with ⟨-, heq⟩ | ⟨start, hlookup, ⟨err, -, heq⟩ | ⟨data, hdata, heq⟩⟩
  · rw [heq]
    exact h
  · rw [heq]
    exact ⟨h.owners, fun c hc => h.apart c (List.mem_of_mem_filter hc),
      fun c hc => hupdate.called c (List.mem_of_mem_filter hc), h.versions, hupdate.bounded, h.starts, hupdate.texts,
      h.file⟩
  have hmem : (t, start) ∈ s.called := by
    obtain ⟨l, r, hcalled, -⟩ := List.lookup_eq_some_iff.1 hlookup
    rw [hcalled]
    exact List.mem_append_right _ List.mem_cons_self
  rw [heq]
  refine ⟨?_, ?_, fun c hc => hupdate.called c (List.mem_of_mem_filter hc), ?_, ?_, ?_, ?_, h.file⟩
  · exact Keyed.nodup_concat h.owners (h.apart _ hmem)
  · intro c hc hw
    obtain ⟨hc, hne⟩ := List.mem_filter.1 hc
    rw [List.map_append] at hw
    rcases List.mem_append.1 hw with hw | hw
    · exact h.apart c hc hw
    · exact of_decide_eq_true hne (List.mem_singleton.1 hw)
  · refine List.pairwise_append.2 ⟨h.versions, List.pairwise_singleton _ _, fun u hu v hv => ?_⟩
    rw [List.mem_singleton.1 hv]
    exact Nat.lt_succ_of_le (h.bounded u hu)
  · refine List.forall_mem_append.2 ⟨hupdate.bounded, List.forall_mem_singleton.2 ?_⟩
    exact Nat.le_of_eq (hstates _).symm
  · refine List.forall_mem_append.2 ⟨fun n hn => ?_, List.forall_mem_singleton.2 ?_⟩
    · obtain ⟨u, hu, hle⟩ := h.starts n hn
      exact ⟨u, List.mem_append_left _ hu, hle⟩
    · exact ⟨_, List.mem_append_right _ List.mem_cons_self, Nat.le_succ_of_le (h.called _ hmem)⟩
  · refine List.forall_mem_append.2 ⟨hupdate.texts, List.forall_mem_singleton.2 ⟨_, ?_, hdata⟩⟩
    exact List.getElem?_concat_length ..

theorem inv_step (h : Inv json s) (e : Event V) : Inv json (s.step json e) := by
  cases e with
  | mutate now mutation => exact h.update _
  | save t =>
    unfold step save
    dsimp only
    split
    · exact h
    · rename_i hidle
      refine ⟨h.owners, ?_, ?_, h.versions, h.bounded, h.starts, h.texts, h.file⟩
      · exact List.forall_mem_append.2 ⟨h.apart, List.forall_mem_singleton.2 fun hw => hidle (.inr hw)⟩
      · exact List.forall_mem_append.2 ⟨h.called, List.forall_mem_singleton.2 (Nat.le_refl _)⟩
  | marshal t now => exact inv_marshal h t now
  | write t =>
    show Inv json (s.write t)
    rcases write_cases h.owners t with ⟨-, heq⟩ | ⟨u, l, r, hwaiting, -, heq⟩
    · rw [heq]
      exact h
    · rw [heq]
      have hsub : (l ++ r).Sublist s.waiting := by
        rw [hwaiting]
        exact (List.sublist_cons_self _ _).append_left l
      have hrest := h.sublist hsub
      refine ⟨hrest.owners, hrest.apart, h.called, h.versions, h.bounded, h.starts, h.texts, fun v hv => ?_⟩
      rw [List.getLast?_concat] at hv
      rw [← Option.some.inj hv]

/-- A write delivers the text of its `Save`. -/
private theorem handover_write (h : (s.waiting.map Prod.fst).Nodup) (t : Nat) :
    (s.write t).handover = s.handover.step (.deliver t) ∧ (s.InTurn (.write t) ↔ s.handover.InTurn (.deliver t)) := by
  unfold InTurn
  rcases write_cases h t with ⟨hnotMem, heq⟩ | ⟨u, l, r, hwaiting, hothers, heq⟩
  · have hidle : ∀ lot ∈ s.handover.pending, lot.1 ≠ t := by
      intro lot hlot hown
      obtain ⟨w, hw, rfl⟩ := List.mem_map.1 hlot
      exact hnotMem (List.mem_map.2 ⟨w, hw, hown⟩)
    obtain ⟨hstep, hturn⟩ := Handover.deliver_of_idle hidle
    rw [heq, hstep]
    exact ⟨rfl, iff_of_true (fun hmem => absurd hmem hnotMem) hturn⟩
  · have hl : ∀ lot ∈ l.map fun w => (w.1, [w.2]), lot.1 ≠ t := by
      intro lot hlot
      obtain ⟨w, hw, rfl⟩ := List.mem_map.1 hlot
      exact hothers w (List.mem_append_left _ hw)
    have hpending : s.handover.pending =
        (l.map fun w => (w.1, [w.2])) ++ (t, [u]) :: r.map fun w => (w.1, [w.2]) := by
      show s.waiting.map _ = _
      rw [hwaiting, List.map_append]
      rfl
    have hmem : t ∈ s.waiting.map Prod.fst := by
      rw [hwaiting, List.map_append]
      exact List.mem_append_right _ List.mem_cons_self
    have hhead : s.handover.pending.head?.map Prod.fst = s.waiting.head?.map Prod.fst := by
      show (s.waiting.map _).head?.map _ = _
      rw [List.head?_map, Option.map_map]
      rfl
    obtain ⟨hstep, hturn⟩ := Handover.deliver_of_lot hpending hl
    rw [heq, hstep, hturn, hhead]
    refine ⟨?_, forall_prop_of_true hmem⟩
    show Handover.mk _ ((l ++ r).map _) _ = _
    rw [List.map_append]
    rfl

/-- A step is the steps of the handover that it stands for. -/
theorem handover_step (h : Inv json s) (e : Event V) :
    (s.step json e).handover = exec Handover.step s.handover (s.handoverEvents json e) ∧
      (s.InTurn e ↔ Admits Handover.step Handover.InTurn s.handover (s.handoverEvents json e)) := by
  cases e with
  | mutate now mutation => exact ⟨rfl, Iff.rfl⟩
  | save t =>
    refine ⟨?_, Iff.rfl⟩
    unfold step save
    dsimp only
    split <;> rfl
  | marshal t now =>
    show (s.marshal json t now).handover = _ ∧ (True ↔ _)
    unfold handoverEvents
    rcases marshal_cases json s t now with ⟨hnone, heq⟩ | ⟨start, hlookup, ⟨err, herr, heq⟩ | ⟨data, hdata, heq⟩⟩
    · simp only [heq, hnone]
      exact ⟨rfl, Iff.rfl⟩
    · simp only [heq, hlookup, herr]
      exact ⟨rfl, Iff.rfl⟩
    · simp only [heq, hlookup, hdata]
      refine ⟨?_, iff_of_true trivial ⟨trivial, trivial⟩⟩
      show Handover.mk _ ((s.waiting ++ [_]).map _) _ = _
      rw [List.map_append]
      rfl
  | write t =>
    obtain ⟨hstep, hturn⟩ := handover_write h.owners t
    exact ⟨hstep, hturn.trans (and_iff_left trivial).symm⟩

/-- Once all texts have been written in their order, the last one made is the last one written, and later than all the
others. -/
theorem Inv.current (h : Inv json s) (hall : s.marshalled = s.written) : s.Current json := by
  intro start hstart
  obtain ⟨u, hu, hle⟩ := h.starts start hstart
  obtain ⟨us, v, hconcat⟩ := (List.eq_nil_or_concat s.marshalled).resolve_left (List.ne_nil_of_mem hu)
  rw [List.concat_eq_append] at hconcat
  have hv : v ∈ s.marshalled := by
    rw [hconcat]
    exact List.mem_append_right _ List.mem_cons_self
  have hlast : s.written.getLast? = some v := by rw [← hall, hconcat, List.getLast?_concat]
  have hlatest : u.version ≤ v.version := by
    have hversions := h.versions
    rw [hconcat] at hu hversions
    rcases List.mem_append.1 hu with hu | hu
    · exact Nat.le_of_lt ((List.pairwise_append.1 hversions).2.2 u hu v List.mem_cons_self)
    · exact Nat.le_of_eq (congrArg Marshalled.version (List.mem_singleton.1 hu))
  obtain ⟨state, hstate, htext⟩ := h.texts v hv
  exact ⟨v, state, h.file v hlast, Nat.le_trans hle hlatest, hstate, htext⟩

end Steps

/-! ### Runs -/

/-- In every run in which the texts are written in the order in which they were made the file never becomes older, and
when no text is waiting it is not older than any start of a `Save`.  A run that leaves no text waiting writes no older
text only if it is of this kind. -/
theorem neverOlder_iff_inTurn (json : Json (Metadata V)) (m : Metadata V) (file : Option Bytes)
    (es : List (Event V)) :
    let s := exec (step json) (newService m file) es
    let turns := Admits (step json) InTurn (newService m file) es
    (turns → s.NeverOlder ∧ (s.waiting = [] → s.Current json)) ∧ (s.waiting = [] → (s.NeverOlder ↔ turns)) := by
  intro s turns
  have hinv : ∀ (s : Service V) (e : Event V), Inv json s → True → Inv json (s.step json e) :=
    fun s e h _ => inv_step h e
  have hes : ∀ e ∈ es, (fun _ : Event V => True) e := fun _ _ => trivial
  obtain ⟨hlast, hexec, hadmits⟩ := Run.exec_translate hinv (fun s e h _ => (handover_step h e).1)
    (fun s e h _ => (handover_step h e).2) (inv_new m file) hes
  have hstart : (newService m file).handover = Handover.start := rfl
  rw [hstart] at hexec hadmits
  generalize Run.translate (step json) (handoverEvents json) (newService m file) es = hs at hexec hadmits
  have htaken : (exec Handover.step (Handover.start : Handover Nat Marshalled) hs).taken = s.marshalled := by
    rw [← hexec]; rfl
  have hwritten : (exec Handover.step (Handover.start : Handover Nat Marshalled) hs).delivered = s.written := by
    rw [← hexec]; rfl
  have hpending : s.waiting = [] →
    (exec Handover.step (Handover.start : Handover Nat Marshalled) hs).pending = [] := by
    intro hdone
    rw [← hexec]
    show s.waiting.map _ = []
    rw [hdone]
    rfl
  have hversions : s.marshalled.Pairwise fun u v => u.version < v.version := hlast.versions
  have hordered : turns →
    s.marshalled = s.written ++ Handover.rest (exec Handover.step Handover.start hs).pending := by
    intro hturn
    rw [← htaken, ← hwritten]
    exact Handover.ordered_of_inTurn (hadmits.1 hturn)
  refine ⟨fun hturn => ⟨?_, fun hdone => ?_⟩, fun hdone => ⟨fun hnever => ?_, fun hturn => ?_⟩⟩
  · rw [hordered hturn] at hversions
    exact (List.pairwise_append.1 hversions).1
  · have hall := hordered hturn
    rw [hpending hdone, Handover.rest_nil, List.append_nil] at hall
    exact hlast.current hall
  · -- two increasing lists of the same texts
    have hperm := (Handover.inv_exec hs).perm
    rw [hpending hdone, Handover.rest_nil, List.append_nil, htaken, hwritten] at hperm
    have heq : s.written = s.marshalled :=
      hperm.symm.eq_of_pairwise (fun u v _ _ huv hvu => absurd huv (Nat.lt_asymm hvu)) hnever hversions
    have hnodup : (exec Handover.step (Handover.start : Handover Nat Marshalled) hs).taken.Nodup := by
      rw [htaken]
      exact hversions.imp fun huv heq => Nat.ne_of_lt huv (congrArg Marshalled.version heq)
    refine hadmits.2 ((Handover.delivered_eq_taken_iff hnodup (hpending hdone)).1 ?_)
    rw [hwritten, htaken]
    exact heq
  · rw [hordered hturn] at hversions
    exact (List.pairwise_append.1 hversions).1

/-! ### A node that is lost -/

/-- 2026-03-14, midnight. -/
def savedAt : Time := 1773446400000000000

/-- The metadata that `NewService` makes in an empty directory. -/
def sampleMetadata : Metadata String :=
  { nodeID := "", createdAt := savedAt, updatedAt := savedAt, version := "1.0.0", clusterNodes := [], config := [],
    stats :=
      { totalAdds := 0, totalRemoves := 0, totalQueries := 0, lastBackup := zeroTime, lastCompaction := zeroTime } }

/-- The text of the sample with the given time of the update and nodes. -/
def sampleText (updatedAt clusterNodes : String) : Bytes :=
  utf8 "\x7b\n  \"node_id\": \"\",\n  \"created_at\": \"2026-03-14T00:00:00Z\",\n  \"updated_at\": \"" ++
    utf8 updatedAt ++ utf8 "\",\n  \"version\": \"1.0.0\",\n  \"cluster_nodes\": " ++ utf8 clusterNodes ++
    utf8 ",\n  \"config\": \x7b\x7d,\n  \"stats\": \x7b\n    \"total_adds\": 0,\n    \"total_removes\": 0,\n" ++
    utf8 "    \"total_queries\": 0,\n    \"last_backup\": \"0001-01-01T00:00:00Z\",\n" ++
    utf8 "    \"last_compaction\": \"0001-01-01T00:00:00Z\"\n  \x7d\n\x7d"

/-- The state that the first `Save` writes, and the one that the second one writes. -/
def sampleTable : List (Metadata String × Bytes) :=
  [({ sampleMetadata with updatedAt := savedAt + 1 }, sampleText "2026-03-14T00:00:00.000000001Z" "[]"),
    ({ sampleMetadata with updatedAt := savedAt + 3, clusterNodes := ["node2"] },
      sampleText "2026-03-14T00:00:00.000000003Z" "[\n    \"node2\"\n  ]")]

/-- A node is added after the first `Save` has made its text and before the second one is called; the second one
writes first. -/
def lostNode : List (Event String) :=
  [.save 0, .marshal 0 (savedAt + 1), .mutate (savedAt + 2) (.addClusterNode "node2"), .save 1,
    .marshal 1 (savedAt + 3), .write 1, .write 0]

/-- Both calls have returned, and the file is the text without the node, which the file had before. -/
theorem not_neverOlder_lostNode :
    let s := exec (step (.ofTable sampleTable)) (newService sampleMetadata none) lostNode
    s.called = [] ∧ s.waiting = [] ∧ s.metadata.clusterNodes = ["node2"] ∧
      s.written.map Marshalled.version = [4, 2] ∧ s.starts = [1, 3] ∧
      s.file = some (sampleText "2026-03-14T00:00:00.000000001Z" "[]") ∧
      ¬ s.NeverOlder := by
  intro s
  have hwritten : s.written.map Marshalled.version = [4, 2] := by decide +kernel
  refine ⟨by decide +kernel, by decide +kernel, by decide +kernel, hwritten, by decide +kernel, rfl, ?_⟩
  intro hnever
  have hversions : (s.written.map Marshalled.version).Pairwise (· < ·) := List.pairwise_map.2 hnever
  rw [hwritten] at hversions
  exact absurd hversions (by decide)

end Service

end DistributedBloomFilter
