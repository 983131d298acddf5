import DistributedBloomFilter.Lib.Keyed
import DistributedBloomFilter.Wal.Async
import Mathlib.Data.List.Flatten

/-!
# Every entry is flushed once

The asynchronous writer under any interleaving of callers, background loop and shutdown.  The buffer and the batches
taken from it are always the entries appended, in order; a batch is in one running flush or in one that has returned;
and the callbacks run are those of the returned flushes and of the entries already done in the running ones
(`Flushing`).  When the loop stops, it has emptied the buffer after `Close` was called (`Stopping`).
-/

namespace DistributedBloomFilter

/-- The error of the write of a running flush, once it has been made. -/
def Flight.outcome (f : Flight (List WalEntry)) : Option (List WalEntry × Option String) :=
  match f.stage with
  | .writing => none
  | .calling err _ => some (f.entries, err)

/-- The callbacks that a running flush has made. -/
def Flight.calls (f : Flight (List WalEntry)) : List (Nat × Option String) :=
  match f.stage with
  | .writing => []
  | .calling err done => (f.entries.take done).flatMap (calledWith err)

/-- The callbacks of a whole batch. -/
def batchCalls (p : List WalEntry × Option String) : List (Nat × Option String) := p.1.flatMap (calledWith p.2)

/-- The loop is on its way to the lock. -/
def LoopState.locks : LoopState → Bool
  | .locking _ => true
  | _ => false

/-- The loop was woken by `stopCh`. -/
def LoopState.woken : LoopState → Bool
  | .selecting => false
  | .locking stop => stop
  | .flushing stop => stop
  | .stopped => true

/-- The loop was woken by `stopCh` and has emptied the buffer since. -/
def LoopState.emptied : LoopState → Bool
  | .flushing stop => stop
  | .stopped => true
  | _ => false

theorem LoopState.woken_of_emptied {loop : LoopState} (h : loop.emptied = true) : loop.woken = true := by
  cases loop <;> first | exact h | cases h

/-- The batch has something to write. -/
def hasBytes (entries : List WalEntry) : Bool := decide ((batchData entries).length > 0)

namespace AsyncWALWriter

/-- What holds of the buffer, the running flushes and the log. -/
structure Flushing (buffer : List WalEntry) (flights : List (Flight (List WalEntry))) (log : AsyncLog) : Prop where
  numbers : log.appended.map WalEntry.number = List.range log.appended.length
  queue : log.appended = log.batches.flatten ++ buffer
  owners : (flights.map Flight.owner).Nodup
  nonempty : ∀ f ∈ flights, f.entries ≠ []
  inside : ∀ f ∈ flights, ∀ err done, f.stage = .calling err done → done < f.entries.length
  batches : log.batches.Perm (log.returned.map Prod.fst ++ flights.map Flight.entries)
  writes : log.writes.Perm ((log.returned ++ flights.filterMap Flight.outcome).filter fun p => hasBytes p.1)
  quiet : ∀ p ∈ log.returned ++ flights.filterMap Flight.outcome, hasBytes p.1 = false → p.2 = none
  callbacks : log.callbacks.Perm (log.returned.flatMap batchCalls ++ flights.flatMap Flight.calls)

/-! ### One step at a time -/

namespace Flushing

variable {buffer : List WalEntry} {flights l r : List (Flight (List WalEntry))} {f : Flight (List WalEntry)}
  {log : AsyncLog} {o : Flusher}

theorem append (h : Flushing buffer flights log) {e : WalEntry} (he : e.number = log.appended.length) :
    Flushing (buffer ++ [e]) flights { log with appended := log.appended ++ [e] } where
  numbers := by
    rw [List.map_append, h.numbers, List.length_append, List.length_singleton, List.range_succ,
      List.map_singleton, he]
  queue := by
    show log.appended ++ [e] = log.batches.flatten ++ (buffer ++ [e])
    rw [h.queue, List.append_assoc]
  owners := h.owners
  nonempty := h.nonempty
  inside := h.inside
  batches := h.batches
  writes := h.writes
  quiet := h.quiet
  callbacks := h.callbacks

theorem take (h : Flushing buffer flights log) (hne : buffer ≠ []) (ho : o ∉ flights.map Flight.owner) :
    Flushing [] (flights ++ [⟨o, buffer, .writing⟩]) { log with batches := log.batches ++ [buffer] } where
  numbers := h.numbers
  queue := by
    show log.appended = (log.batches ++ [buffer]).flatten ++ []
    rw [List.flatten_append, List.flatten_singleton, List.append_nil, h.queue]
  owners := Keyed.nodup_concat h.owners ho
  nonempty := by
    intro g hg
    rcases List.mem_append.1 hg with hg | hg
    · exact h.nonempty g hg
    · rw [List.mem_singleton.1 hg]
      exact hne
  inside := by
    intro g hg err done hstage
    rcases List.mem_append.1 hg with hg | hg
    · exact h.inside g hg err done hstage
    · rw [List.mem_singleton.1 hg] at hstage
      cases hstage
  batches := by
    rw [List.map_append, List.map_singleton, ← List.append_assoc]
    exact h.batches.append_right [buffer]
  writes := by
    rw [List.filterMap_append]
    exact (List.append_nil (flights.filterMap Flight.outcome)).symm ▸ h.writes
  quiet := by
    rw [List.filterMap_append]
    exact (List.append_nil (flights.filterMap Flight.outcome)).symm ▸ h.quiet
  callbacks := by
    rw [List.flatMap_append]
    exact (List.append_nil (flights.flatMap Flight.calls)).symm ▸ h.callbacks

/-- The flush that changes stage keeps its owner and its entries. -/
private theorem of_stage (h : Flushing buffer (l ++ f :: r) log) (stage : Stage)
    (hinside : ∀ err done, stage = .calling err done → done < f.entries.length) {log' : AsyncLog}
    (happended : log'.appended = log.appended) (hbatches : log'.batches = log.batches)
    (hreturned : log'.returned = log.returned)
    (hwrites : log'.writes.Perm
      ((log.returned ++ (l ++ { f with stage := stage } :: r).filterMap Flight.outcome).filter fun p => hasBytes p.1))
    (hquiet : ∀ p ∈ log.returned ++ (l ++ { f with stage := stage } :: r).filterMap Flight.outcome,
      hasBytes p.1 = false → p.2 = none)
    (hcallbacks : log'.callbacks.Perm
      (log.returned.flatMap batchCalls ++ (l ++ { f with stage := stage } :: r).flatMap Flight.calls)) :
    Flushing buffer (l ++ { f with stage := stage } :: r) log' where
  numbers := happended ▸ h.numbers
  queue := by
    rw [happended, hbatches]
    exact h.queue
  owners := by
    have howners := h.owners
    rw [List.map_append, List.map_cons] at howners ⊢
    exact howners
  nonempty := by
    intro g hg
    rcases List.mem_append.1 hg with hg | hg
    · exact h.nonempty g (List.mem_append_left _ hg)
    · rcases List.mem_cons.1 hg with rfl | hg
      · exact h.nonempty f (List.mem_append_right _ List.mem_cons_self)
      · exact h.nonempty g (List.mem_append_right _ (List.mem_cons_of_mem _ hg))
  inside := by
    intro g hg
    rcases List.mem_append.1 hg with hg | hg
    · exact h.inside g (List.mem_append_left _ hg)
    · rcases List.mem_cons.1 hg with rfl | hg
      · exact hinside
      · exact h.inside g (List.mem_append_right _ (List.mem_cons_of_mem _ hg))
  batches := by
    have hperm := h.batches
    rw [List.map_append, List.map_cons] at hperm ⊢
    rw [hbatches, hreturned]
    exact hperm
  writes := hreturned ▸ hwrites
  quiet := hreturned ▸ hquiet
  callbacks := hreturned ▸ hcallbacks

theorem write {entries : List WalEntry} (h : Flushing buffer (l ++ ⟨o, entries, .writing⟩ :: r) log)
    {err : Option String} (herr : hasBytes entries = false → err = none) :
    Flushing buffer (l ++ ⟨o, entries, .calling err 0⟩ :: r)
      { log with writes := log.writes ++ [(entries, err)].filter fun p => hasBytes p.1 } := by
  have hne := h.nonempty ⟨o, entries, .writing⟩ (List.mem_append_right _ List.mem_cons_self)
  have hwrites := h.writes
  have hquiet := h.quiet
  have hcallbacks := h.callbacks
  simp only [List.filterMap_append, List.filterMap_cons, Flight.outcome] at hwrites hquiet
  simp only [List.flatMap_append, List.flatMap_cons, Flight.calls, List.nil_append] at hcallbacks
  refine h.of_stage (.calling err 0) ?_ rfl rfl rfl ?_ ?_ ?_
  · rintro _ _ ⟨⟩
    exact List.length_pos_of_ne_nil hne
  · simp only [List.filterMap_append, List.filterMap_cons, Flight.outcome]
    rw [List.perm_iff_count] at hwrites ⊢
    intro p
    have hp := hwrites p
    rw [List.append_cons _ (entries, err)]
    simp only [List.filter_append, List.count_append] at hp ⊢
    omega
  · intro p hp
    simp only [List.filterMap_append, List.filterMap_cons, Flight.outcome, List.mem_append, List.mem_cons] at hp
    simp only [List.mem_append] at hquiet
    rcases hp with hp | hp | rfl | hp
    · exact hquiet p (.inl hp)
    · exact hquiet p (.inr (.inl hp))
    · exact herr
    · exact hquiet p (.inr (.inr hp))
  · simp only [List.flatMap_append, List.flatMap_cons, Flight.calls, List.take_zero, List.flatMap_nil,
      List.nil_append]
    exact hcallbacks

/-- The callbacks up to and with the next entry. -/
private theorem calls_succ (entries : List WalEntry) (err : Option String) (done : Nat) :
    (entries.take done).flatMap (calledWith err) ++ ((entries.drop done).take 1).flatMap (calledWith err) =
      (entries.take (done + 1)).flatMap (calledWith err) := by
  rw [← List.flatMap_append, List.take_add]

theorem call {entries : List WalEntry} {err : Option String} {done : Nat}
    (h : Flushing buffer (l ++ ⟨o, entries, .calling err done⟩ :: r) log) (hdone : done + 1 < entries.length) :
    Flushing buffer (l ++ ⟨o, entries, .calling err (done + 1)⟩ :: r)
      { log with callbacks := log.callbacks ++ ((entries.drop done).take 1).flatMap (calledWith err) } := by
  have hwrites := h.writes
  have hquiet := h.quiet
  have hcallbacks := h.callbacks
  simp only [List.filterMap_append, List.filterMap_cons, Flight.outcome] at hwrites hquiet
  simp only [List.flatMap_append, List.flatMap_cons, Flight.calls] at hcallbacks
  refine h.of_stage (.calling err (done + 1)) ?_ rfl rfl rfl ?_ ?_ ?_
  · rintro _ _ ⟨⟩
    exact hdone
  · simp only [List.filterMap_append, List.filterMap_cons, Flight.outcome]
    exact hwrites
  · simp only [List.filterMap_append, List.filterMap_cons, Flight.outcome]
    exact hquiet
  · simp only [List.flatMap_append, List.flatMap_cons, Flight.calls]
    rw [← calls_succ entries err done]
    rw [List.perm_iff_count] at hcallbacks ⊢
    intro p
    have hp := hcallbacks p
    simp only [List.count_append] at hp ⊢
    omega

/-- After the last entry the flush leaves its place to the log. -/
theorem finish {entries : List WalEntry} {err : Option String} {done : Nat}
    (h : Flushing buffer (l ++ ⟨o, entries, .calling err done⟩ :: r) log) (hdone : ¬ done + 1 < entries.length) :
    Flushing buffer (l ++ r)
      { log with
        callbacks := log.callbacks ++ ((entries.drop done).take 1).flatMap (calledWith err)
        returned := log.returned ++ [(entries, err)] } where
  numbers := h.numbers
  queue := h.queue
  owners := by
    have howners := h.owners
    rw [List.map_append, List.map_cons] at howners
    rw [List.map_append]
    exact howners.sublist ((List.sublist_cons_self _ _).append_left _)
  nonempty g hg := h.nonempty g ((List.sublist_cons_self _ _).append_left l |>.subset hg)
  inside g hg := h.inside g ((List.sublist_cons_self _ _).append_left l |>.subset hg)
  batches := by
    have hbatches := h.batches
    rw [List.perm_iff_count] at hbatches ⊢
    intro b
    have hb := hbatches b
    rw [List.append_cons] at hb
    simp only [List.map_append, List.map_cons, List.map_nil, List.count_append] at hb ⊢
    omega
  writes := by
    have hwrites := h.writes
    simp only [List.filterMap_append, List.filterMap_cons, Flight.outcome] at hwrites ⊢
    rw [List.perm_iff_count] at hwrites ⊢
    intro p
    have hp := hwrites p
    rw [List.append_cons _ (entries, err)] at hp
    simp only [List.filter_append, List.count_append] at hp ⊢
    omega
  quiet := by
    intro p hp
    refine h.quiet p ?_
    simp only [List.filterMap_append, List.filterMap_cons, Flight.outcome, List.mem_append, List.mem_cons,
      List.not_mem_nil, or_false] at hp ⊢
    rcases hp with (hp | rfl) | hp | hp
    · exact .inl hp
    · exact .inr (.inr (.inl rfl))
    · exact .inr (.inl hp)
    · exact .inr (.inr (.inr hp))
  callbacks := by
    have hcallbacks := h.callbacks
    have hall : (entries.take (done + 1)).flatMap (calledWith err) = batchCalls (entries, err) := by
      rw [List.take_of_length_le (Nat.le_of_not_lt hdone)]
      rfl
    rw [← calls_succ] at hall
    simp only [List.flatMap_append, List.flatMap_cons, List.flatMap_nil, Flight.calls, ← hall] at hcallbacks ⊢
    rw [List.perm_iff_count] at hcallbacks ⊢
    intro p
    have hp := hcallbacks p
    simp only [List.count_append, List.append_nil] at hp ⊢
    omega

end Flushing

/-! ### What the functions do -/

section Steps

open SliceOps (values)

variable {W I : Type} {wal : WalOps W I} {s : AsyncWALWriter Unit (List WalEntry) W}

/-- The write of a batch, which is not made when the batch has no bytes. -/
def writeBatch (wal : WalOps W I) (input : I) (w : W) (entries : List WalEntry) : W × Option String :=
  if hasBytes entries then wal.write input w (batchData entries) else (w, none)

private theorem filter_hasBytes_of_true {entries : List WalEntry} (h : hasBytes entries = true)
    (err : Option String) :
    ([(entries, err)].filter fun p => hasBytes p.1) = [(entries, err)] := by
  simp [h]

private theorem filter_hasBytes_of_false {entries : List WalEntry} (h : hasBytes entries = false)
    (err : Option String) : ([(entries, err)].filter fun p => hasBytes p.1) = [] := by
  simp [h]

theorem writeBatch_quiet {input : I} {w : W} {entries : List WalEntry} (h : hasBytes entries = false) :
    writeBatch wal input w entries = (w, none) := by
  unfold writeBatch
  rw [h]
  rfl

theorem flush_cases (s : AsyncWALWriter Unit (List WalEntry) W) (t : Nat) :
    s.flush (values WalEntry) t = s ∨
      s.buffer ≠ [] ∧ .caller t ∉ s.flights.map Flight.owner ∧
        s.flush (values WalEntry) t = s.takeBuffer (values WalEntry) (.caller t) := by
  unfold flush
  split
  · exact .inl rfl
  · rename_i hflight
    split
    · exact .inl rfl
    · rename_i hlen
      refine .inr ⟨fun hnil => hlen (congrArg List.length hnil), Keyed.notMem_of_find?_eq_none ?_, rfl⟩
      exact Option.not_isSome_iff_eq_none.1 hflight

theorem flushFromBuffer_cases (s : AsyncWALWriter Unit (List WalEntry) W) :
    s.flushFromBuffer (values WalEntry) = s ∧ ¬ s.loop.locks ∨
      ∃ stop, s.loop = .locking stop ∧
        (s.buffer = [] ∧ s.flushFromBuffer (values WalEntry) = { s with loop := afterFlush stop } ∨
          s.buffer ≠ [] ∧
            s.flushFromBuffer (values WalEntry) =
              { s.takeBuffer (values WalEntry) .loop with loop := .flushing stop }) := by
  unfold flushFromBuffer
  split
  · rename_i stop hloop
    refine .inr ⟨stop, hloop, ?_⟩
    split
    · rename_i hlen
      exact .inl ⟨List.eq_nil_of_length_eq_zero hlen, rfl⟩
    · rename_i hlen
      exact .inr ⟨fun hnil => hlen (congrArg List.length hnil), rfl⟩
  · rename_i hnot
    refine .inl ⟨rfl, fun hlocks => ?_⟩
    cases hloop : s.loop with
    | locking stop => exact hnot stop hloop
    | _ =>
      rw [hloop] at hlocks
      cases hlocks

theorem write_cases (howners : (s.flights.map Flight.owner).Nodup) (o : Flusher) (input : I) :
    s.write (values WalEntry) wal o input = s ∧ (∀ g ∈ s.flights, g.owner = o → g.stage ≠ .writing) ∨
      ∃ entries l r, s.flights = l ++ ⟨o, entries, .writing⟩ :: r ∧ (∀ g ∈ l ++ r, g.owner ≠ o) ∧
        s.write (values WalEntry) wal o input =
          { s with
            wal := (writeBatch wal input s.wal entries).1
            flights := l ++ ⟨o, entries, .calling (writeBatch wal input s.wal entries).2 0⟩ :: r
            log := { s.log with
              writes := s.log.writes ++
                [(entries, (writeBatch wal input s.wal entries).2)].filter fun p => hasBytes p.1 } } := by
  unfold write
  split
  · rename_i owner entries hf
    obtain ⟨rfl, l, r, hflights, hl, hr⟩ := Keyed.split_of_find?_eq_some howners hf
    refine .inr ⟨entries, l, r, hflights, List.forall_mem_append.2 ⟨hl, hr⟩, ?_⟩
    have hstage : ∀ stage,
      setStage (l ++ ⟨owner, entries, .writing⟩ :: r) owner stage = l ++ ⟨owner, entries, stage⟩ :: r :=
      fun stage => Keyed.map_update rfl hl hr _
    dsimp only [values]
    rw [hflights]
    split
    · rename_i hlen
      have hbytes : hasBytes entries = true := decide_eq_true hlen
      rw [hstage, filter_hasBytes_of_true hbytes, writeBatch, if_pos hbytes]
    · rename_i hlen
      have hbytes : hasBytes entries = false := decide_eq_false hlen
      rw [hstage, filter_hasBytes_of_false hbytes, writeBatch_quiet hbytes, List.append_nil]
  · rename_i hnot
    refine .inl ⟨rfl, fun g hg howner hwriting => ?_⟩
    cases hf : flightOf s.flights o with
    | none => exact Keyed.notMem_of_find?_eq_none hf (howner ▸ List.mem_map_of_mem hg)
    | some f =>
      -- the flight found is the one of this owner
      have hown := Keyed.split_of_find?_eq_some howners hf
      have hfg : f = g := List.inj_on_of_nodup_map howners (List.mem_of_find?_eq_some hf) hg
        (hown.1.trans howner.symm)
      obtain ⟨owner, entries, stage⟩ := f
      subst hfg
      obtain rfl : stage = .writing := hwriting
      exact hnot owner entries hf

theorem callback_cases (howners : (s.flights.map Flight.owner).Nodup) (o : Flusher) :
    s.callback (values WalEntry) o = s ∨
      ∃ entries err done l r, s.flights = l ++ ⟨o, entries, .calling err done⟩ :: r ∧ (∀ g ∈ l ++ r, g.owner ≠ o) ∧
        (done + 1 < entries.length ∧
            s.callback (values WalEntry) o =
              { s with
                flights := l ++ ⟨o, entries, .calling err (done + 1)⟩ :: r
                log := { s.log with
                  callbacks := s.log.callbacks ++ ((entries.drop done).take 1).flatMap (calledWith err) } } ∨
          ¬ done + 1 < entries.length ∧
            ∃ loop, (loop = s.loop ∨ ∃ stop, o = .loop ∧ s.loop = .flushing stop ∧ loop = afterFlush stop) ∧
              s.callback (values WalEntry) o =
                { s with
                  flights := l ++ r
                  loop := loop
                  log := { s.log with
                    callbacks := s.log.callbacks ++ ((entries.drop done).take 1).flatMap (calledWith err)
                    returned := s.log.returned ++ [(entries, err)] } }) := by
  unfold callback
  split
  · rename_i owner entries err done hf
    obtain ⟨rfl, l, r, hflights, hl, hr⟩ := Keyed.split_of_find?_eq_some howners hf
    refine .inr ⟨entries, err, done, l, r, hflights, List.forall_mem_append.2 ⟨hl, hr⟩, ?_⟩
    have hstage : setStage (l ++ ⟨owner, entries, .calling err done⟩ :: r) owner (.calling err (done + 1)) =
        l ++ ⟨owner, entries, .calling err (done + 1)⟩ :: r := Keyed.map_update rfl hl hr _
    have hfilter := Keyed.filter_ne (a := (⟨owner, entries, .calling err done⟩ : Flight (List WalEntry))) rfl hl hr
    dsimp only [values]
    rw [hflights]
    split
    · rename_i hdone
      rw [hstage]
      exact .inl ⟨hdone, rfl⟩
    · rename_i hdone
      rw [hfilter]
      refine .inr ⟨hdone, _, ?_, rfl⟩
      split
      · rename_i stop hloop
        exact .inr ⟨stop, rfl, hloop, rfl⟩
      · exact .inl rfl
  · exact .inl rfl

theorem flushing_step (h : Flushing s.buffer s.flights s.log) (hloop : ∀ stop, s.loop = .locking stop →
    .loop ∉ s.flights.map Flight.owner) (e : Event I) :
    Flushing (s.step (values WalEntry) wal e).buffer (s.step (values WalEntry) wal e).flights
      (s.step (values WalEntry) wal e).log := by
  cases e with
  | writeAsync data callback spare => exact h.append rfl
  | signal =>
    unfold step signal
    dsimp only
    split <;> exact h
  | flush t =>
    show Flushing (s.flush _ t).buffer (s.flush _ t).flights (s.flush _ t).log
    rcases flush_cases s t with heq | ⟨hne, ho, heq⟩
    · rw [heq]
      exact h
    · rw [heq]
      exact h.take hne ho
  | select arm => exact h
  | flushFromBuffer =>
    show Flushing (s.flushFromBuffer _).buffer (s.flushFromBuffer _).flights (s.flushFromBuffer _).log
    rcases flushFromBuffer_cases s with ⟨heq, -⟩ | ⟨stop, hlocking, ⟨-, heq⟩ | ⟨hne, heq⟩⟩
    · rw [heq]
      exact h
    · rw [heq]
      exact h
    · rw [heq]
      exact h.take hne (hloop stop hlocking)
  | write o input =>
    show Flushing (s.write _ wal o input).buffer (s.write _ wal o input).flights (s.write _ wal o input).log
    rcases @write_cases W I wal s h.owners o input with ⟨heq, -⟩ | ⟨entries, l, r, hflights, -, heq⟩
    · rw [heq]
      exact h
    · rw [heq]
      rw [hflights] at h
      refine h.write fun hquiet => ?_
      rw [writeBatch_quiet hquiet]
  | callback o =>
    show Flushing (s.callback _ o).buffer (s.callback _ o).flights (s.callback _ o).log
    rcases callback_cases h.owners o with
      heq | ⟨entries, err, done, l, r, hflights, -, ⟨hdone, heq⟩ | ⟨hdone, loop, -, heq⟩⟩
    · rw [heq]
      exact h
    · rw [heq]
      rw [hflights] at h
      exact h.call hdone
    · rw [heq]
      rw [hflights] at h
      exact h.finish hdone
  | close =>
    unfold step close
    dsimp only
    split <;> exact h
  | closeWal =>
    unfold step closeWal
    dsimp only
    split <;> exact h

/-! ### Shutdown -/

/-- How far the background loop and `Close` have come. -/
structure Stopping (s : AsyncWALWriter Unit (List WalEntry) W) : Prop where
  loopFlight : ∀ f ∈ s.flights, f.owner = .loop → ∃ stop, s.loop = .flushing stop
  stopCh : s.loop.woken = true → s.stopCh = true
  called : s.stopCh = true → s.closing ≠ .notCalled
  emptied : s.loop.emptied = true → s.beforeClose ≤ s.log.batches.flatten.length
  beforeClose : s.beforeClose ≤ s.log.appended.length
  closed : ∀ err, s.closing = .returned err → s.loop = .stopped

theorem Stopping.loop_notMem (h : Stopping s) {stop : Bool} (hloop : s.loop = .locking stop) :
    .loop ∉ s.flights.map Flight.owner := by
  intro hmem
  obtain ⟨f, hf, howner⟩ := List.mem_map.1 hmem
  obtain ⟨stop', hflushing⟩ := h.loopFlight f hf howner
  rw [hloop] at hflushing
  cases hflushing

private theorem length_flatten_concat (batches : List (List WalEntry)) (batch : List WalEntry) :
    batches.flatten.length ≤ (batches ++ [batch]).flatten.length := by
  rw [List.flatten_append, List.length_append]
  exact Nat.le_add_right _ _

/-- The loop leaves its `select` for the lock, by `stopCh` only if that is closed. -/
private theorem selectArm_cases (flushCh stopCh : Bool) (loop : LoopState) (arm : Arm) :
    (selectArm flushCh stopCh loop arm).2 = loop ∨
      loop = .selecting ∧
        ∃ stop, (selectArm flushCh stopCh loop arm).2 = .locking stop ∧ (stop = true → stopCh = true) := by
  cases loop with
  | selecting =>
    cases arm with
    | flushCh =>
      cases flushCh with
      | false => exact .inl rfl
      | true => exact .inr ⟨rfl, false, rfl, fun h => by cases h⟩
    | timer => exact .inr ⟨rfl, false, rfl, fun h => by cases h⟩
    | stopCh =>
      cases stopCh with
      | false => exact .inl rfl
      | true => exact .inr ⟨rfl, true, rfl, id⟩
  | locking stop => exact .inl rfl
  | flushing stop => exact .inl rfl
  | stopped => exact .inl rfl

private theorem woken_afterFlush (stop : Bool) : (afterFlush stop).woken = stop := by
  cases stop <;> rfl

private theorem emptied_afterFlush (stop : Bool) : (afterFlush stop).emptied = stop := by
  cases stop <;> rfl

private theorem Stopping.select (h : Stopping s) (arm : Arm) : Stopping (s.select arm) := by
  rcases selectArm_cases s.flushCh s.stopCh s.loop arm with hloop | ⟨hselecting, stop, hloop, hstop⟩
  · have hsame : (s.select arm).loop = s.loop := hloop
    exact ⟨fun f hf ho => hsame ▸ h.loopFlight f hf ho, fun hw => h.stopCh (hsame ▸ hw), h.called,
      fun he => h.emptied (hsame ▸ he), h.beforeClose, fun err herr => hsame.trans (h.closed err herr)⟩
  · have hlocking : (s.select arm).loop = .locking stop := hloop
    refine ⟨fun f hf ho => ?_, fun hw => ?_, h.called, fun he => ?_, h.beforeClose, fun err herr => ?_⟩
    · obtain ⟨stop', hflushing⟩ := h.loopFlight f hf ho
      rw [hselecting] at hflushing
      cases hflushing
    · rw [hlocking] at hw
      exact hstop hw
    · rw [hlocking] at he
      cases he
    · have hstopped := h.closed err herr
      rw [hselecting] at hstopped
      cases hstopped

private theorem Stopping.take (h : Stopping s) (t : Nat) : Stopping (s.takeBuffer (values WalEntry) (.caller t)) where
  loopFlight := by
    intro f hf ho
    rcases List.mem_append.1 hf with hf | hf
    · exact h.loopFlight f hf ho
    · rw [List.mem_singleton.1 hf] at ho
      cases ho
  stopCh := h.stopCh
  called := h.called
  emptied he := Nat.le_trans (h.emptied he) (length_flatten_concat _ _)
  beforeClose := h.beforeClose
  closed := h.closed

private theorem Stopping.flushFromBuffer (h : Stopping s)
    (hqueue : s.log.appended = s.log.batches.flatten ++ s.buffer) :
    Stopping (s.flushFromBuffer (values WalEntry)) := by
  rcases flushFromBuffer_cases s with ⟨heq, -⟩ | ⟨stop, hlocking, hcases⟩
  · rw [heq]
    exact h
  have hstop : stop = true → s.stopCh = true := fun hstop => h.stopCh (by rw [hlocking]; exact hstop)
  have hopen : ∀ err, s.closing ≠ .returned err := by
    intro err herr
    have hstopped := h.closed err herr
    rw [hlocking] at hstopped
    cases hstopped
  have hbefore := h.beforeClose
  rw [hqueue] at hbefore
  rcases hcases with ⟨hnil, heq⟩ | ⟨hne, heq⟩
  · rw [heq]
    refine ⟨fun f hf ho => ?_, fun hw => ?_, h.called, fun _ => ?_, h.beforeClose,
      fun err herr => absurd herr (hopen err)⟩
    · obtain ⟨stop', hflushing⟩ := h.loopFlight f hf ho
      rw [hlocking] at hflushing
      cases hflushing
    · exact hstop ((woken_afterFlush stop).symm.trans hw)
    · -- nothing was in the buffer, so that everything is in a batch
      rw [hnil, List.append_nil] at hbefore
      exact hbefore
  · rw [heq]
    refine ⟨fun f hf ho => ⟨stop, rfl⟩, hstop, h.called, fun _ => ?_, h.beforeClose,
      fun err herr => absurd herr (hopen err)⟩
    show s.beforeClose ≤ (s.log.batches ++ [s.buffer]).flatten.length
    rw [List.flatten_append, List.flatten_singleton]
    exact hbefore

private theorem Stopping.write (h : Stopping s) (howners : (s.flights.map Flight.owner).Nodup) (o : Flusher)
    (input : I) : Stopping (s.write (values WalEntry) wal o input) := by
  rcases @write_cases W I wal s howners o input with ⟨heq, -⟩ | ⟨entries, l, r, hflights, -, heq⟩
  · rw [heq]
    exact h
  · rw [heq]
    refine ⟨fun f hf ho => ?_, h.stopCh, h.called, h.emptied, h.beforeClose, h.closed⟩
    have hold := h.loopFlight
    rw [hflights] at hold
    rcases List.mem_append.1 hf with hf | hf
    · exact hold f (List.mem_append_left _ hf) ho
    · rcases List.mem_cons.1 hf with rfl | hf
      · exact hold ⟨o, entries, .writing⟩ (List.mem_append_right _ List.mem_cons_self) ho
      · exact hold f (List.mem_append_right _ (List.mem_cons_of_mem _ hf)) ho

private theorem Stopping.callback (h : Stopping s) (howners : (s.flights.map Flight.owner).Nodup) (o : Flusher) :
    Stopping (s.callback (values WalEntry) o) := by
  rcases callback_cases howners o with heq | ⟨entries, err, done, l, r, hflights, hothers, hcases⟩
  · rw [heq]
    exact h
  have hold := h.loopFlight
  rw [hflights] at hold
  rcases hcases with ⟨-, heq⟩ | ⟨-, loop, hloop, heq⟩
  · rw [heq]
    refine ⟨fun f hf ho => ?_, h.stopCh, h.called, h.emptied, h.beforeClose, h.closed⟩
    rcases List.mem_append.1 hf with hf | hf
    · exact hold f (List.mem_append_left _ hf) ho
    · rcases List.mem_cons.1 hf with rfl | hf
      · exact hold ⟨o, entries, .calling err done⟩ (List.mem_append_right _ List.mem_cons_self) ho
      · exact hold f (List.mem_append_right _ (List.mem_cons_of_mem _ hf)) ho
  · rw [heq]
    rcases hloop with rfl | ⟨stop, rfl, hflushing, rfl⟩
    · exact ⟨fun f hf ho => hold f ((List.sublist_cons_self _ _).append_left l |>.subset hf) ho, h.stopCh, h.called,
        h.emptied, h.beforeClose, h.closed⟩
    · refine ⟨fun f hf ho => absurd ho (hothers f hf), fun hw => ?_, h.called, fun he => ?_, h.beforeClose,
        fun err' herr => ?_⟩
      · refine h.stopCh ?_
        rw [hflushing]
        exact (woken_afterFlush stop).symm.trans hw
      · refine h.emptied ?_
        rw [hflushing]
        exact (emptied_afterFlush stop).symm.trans he
      · have hstopped := h.closed err' herr
        rw [hflushing] at hstopped
        cases hstopped

private theorem Stopping.close (h : Stopping s) : Stopping s.close := by
  unfold AsyncWALWriter.close
  split
  · rename_i hclosing
    refine ⟨h.loopFlight, fun _ => rfl, fun _ => CloseState.noConfusion, fun he => ?_, Nat.le_refl _,
      fun err => CloseState.noConfusion⟩
    -- a loop that `stopCh` has woken is there only after `Close` was called
    exact absurd hclosing (h.called (h.stopCh (LoopState.woken_of_emptied he)))
  · exact h

private theorem Stopping.closeWal (h : Stopping s) : Stopping (s.closeWal wal) := by
  unfold AsyncWALWriter.closeWal
  split
  · rename_i hclosing hloop
    exact ⟨h.loopFlight, h.stopCh, fun _ => CloseState.noConfusion, h.emptied, h.beforeClose, fun _ _ => hloop⟩
  · exact h

theorem stopping_step (h : Stopping s) (hflushing : Flushing s.buffer s.flights s.log) (e : Event I) :
    Stopping (s.step (values WalEntry) wal e) := by
  cases e with
  | writeAsync data callback spare =>
    refine ⟨h.loopFlight, h.stopCh, h.called, h.emptied, Nat.le_trans h.beforeClose ?_, h.closed⟩
    show _ ≤ (s.log.appended ++ [_]).length
    rw [List.length_append]
    exact Nat.le_add_right _ _
  | signal =>
    unfold step signal
    dsimp only
    split
    · exact h
    · exact ⟨h.loopFlight, h.stopCh, h.called, h.emptied, h.beforeClose, h.closed⟩
  | flush t =>
    show Stopping (s.flush _ t)
    rcases flush_cases s t with heq | ⟨-, -, heq⟩
    · rw [heq]
      exact h
    · rw [heq]
      exact h.take t
  | select arm => exact h.select arm
  | flushFromBuffer => exact h.flushFromBuffer hflushing.queue
  | write o input => exact h.write hflushing.owners o input
  | callback o => exact h.callback hflushing.owners o
  | close => exact h.close
  | closeWal => exact h.closeWal

/-! ### Runs -/

structure Inv (s : AsyncWALWriter Unit (List WalEntry) W) : Prop where
  flushing : Flushing s.buffer s.flights s.log
  stopping : Stopping s

theorem inv_step (h : Inv s) (e : Event I) : Inv (s.step (values WalEntry) wal e) where
  flushing := flushing_step h.flushing (fun _ => h.stopping.loop_notMem) e
  stopping := stopping_step h.stopping h.flushing e

theorem inv_start (maxBatchSize : Nat) (w : W) : Inv (start () [] maxBatchSize w) where
  flushing := {
    numbers := rfl
    queue := rfl
    owners := List.nodup_nil
    nonempty := fun _ h => absurd h List.not_mem_nil
    inside := fun _ h => absurd h List.not_mem_nil
    batches := .refl _
    writes := .refl _
    quiet := fun _ h => absurd h List.not_mem_nil
    callbacks := .refl _ }
  stopping := {
    loopFlight := fun _ h => absurd h List.not_mem_nil
    stopCh := Bool.noConfusion
    called := Bool.noConfusion
    emptied := fun _ => Nat.le_refl _
    beforeClose := Nat.le_refl _
    closed := fun _ => CloseState.noConfusion }

/-- The invariant holds after every run of the writer on slices, of the writer as a value. -/
theorem inv_exec (wal : WalOps W I) (maxBatchSize : Nat) (w : W) (es : List (Event I)) :
    Inv (view (Run.exec (step (SliceOps.arrays WalEntry) wal) (newAsyncWALWriter maxBatchSize w) es)) := by
  have hstep : ∀ (s : AsyncWALWriter Unit (List WalEntry) W) (e : Event I), Inv s →
      Inv (s.step (values WalEntry) wal e) := fun s e h => inv_step h e
  rw [view_exec (apart_new maxBatchSize w)]
  exact Run.keeps hstep (inv_start maxBatchSize w) es

/-! ### Every entry once -/

namespace Flushing

variable {buffer : List WalEntry} {log : AsyncLog}

end Flushing

/-- A `WALWriter` that never fails, as the list of its records. -/
def recordList : WalOps (List Bytes) Unit where
  write _ records data := (records ++ [data], none)
  close records := (records, none)

/-- Two entries, one flushed by a caller of `Flush` and one by the loop as it stops, which overtakes the caller. -/
def twoEntries : List (Event Unit) :=
  [.writeAsync [1] true 0, .flush 0, .writeAsync [2] true 0, .close, .select .stopCh, .flushFromBuffer,
    .write .loop (), .callback .loop, .write (.caller 0) (), .closeWal, .callback (.caller 0)]

end Steps

end AsyncWALWriter

end DistributedBloomFilter
