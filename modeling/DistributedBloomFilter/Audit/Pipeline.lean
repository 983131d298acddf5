import DistributedBloomFilter.Audit.Logger

/-!
# The queue of the audit logger

`Log` of `internal/audit/logger.go` puts an event into the channel `logChan` and drops it when the channel is full;
one goroutine takes the events out again and calls `writeEvent`.  `LogSync` calls `writeEvent` itself, and `writeMu`
makes every such call one step.  `Close` closes `stopChan`, upon which the goroutine empties the channel and returns,
and then closes the file.  Left out are errors of the file system, and the goroutine that removes old files, once more
when `stopChan` is closed; its cleanups are in `RetentionRun`.

Under every interleaving the files are those of one sequence of writes, in which the events of the queue come in its
order, none of them twice (`fifo_exec`).  When the goroutine has returned, all that was queued before `Close` has been
written, and it is in the directory exactly once if the rotations spare it; but the channel takes events even then,
and they stay there (`kept_of_returned`).
-/

namespace DistributedBloomFilter

open Contents (contents)

namespace Audit

/-- Where `asyncWriter` is: in its outer `select`, in `writeEvent` with an event it has received, in the inner
`select` that it enters when `stopChan` is closed, or at its end.  A write goes on with the `select` it came from. -/
inductive WriterStage (Event : Type) where
  | selecting
  | writing (event : Event) (inner : Bool)
  | draining
  | returned
deriving DecidableEq, Repr

namespace WriterStage

variable {Event : Type}

/-- The event that has been received and not been written. -/
def inHand : WriterStage Event → List Event
  | writing event _ => [event]
  | _ => []

/-- The `select` that is waiting for an event, if there is one: the inner one for `true`. -/
def waiting : WriterStage Event → Option Bool
  | selecting => some false
  | draining => some true
  | _ => none

/-- The goroutine has seen that `stopChan` is closed. -/
def stopping : WriterStage Event → Bool
  | selecting => false
  | writing _ inner => inner
  | draining => true
  | returned => true

def hasReturned : WriterStage Event → Bool
  | returned => true
  | _ => false

/-- The `select` that a write goes on with. -/
def afterWrite (inner : Bool) : WriterStage Event := if inner then draining else selecting

theorem afterWrite_spec (inner : Bool) :
    (afterWrite inner : WriterStage Event).inHand = [] ∧ (afterWrite inner : WriterStage Event).stopping = inner ∧
      (afterWrite inner : WriterStage Event).hasReturned = false := by
  cases inner <;> exact ⟨rfl, rfl, rfl⟩

theorem waiting_spec {stage : WriterStage Event} {inner : Bool} (h : stage.waiting = some inner) :
    stage.inHand = [] ∧ stage.stopping = inner ∧ stage.hasReturned = false := by
  cases stage with
  | selecting => exact ⟨rfl, Option.some.inj h, rfl⟩
  | draining => exact ⟨rfl, Option.some.inj h, rfl⟩
  | writing event inner => cases h
  | returned => cases h

theorem returned_spec {stage : WriterStage Event} (h : stage.hasReturned = true) :
    stage.inHand = [] ∧ stage.waiting = none ∧ stage.stopping = true := by
  cases stage with
  | returned => exact ⟨rfl, rfl, rfl⟩
  | _ => cases h

end WriterStage

/-- The logger with its channel and its goroutine.  The lists at the end are for the record: what `Log` put into the
channel and what it dropped, what the goroutine has given to `writeEvent`, the events for which `LogSync` returned
nil, and all calls of `writeEvent` that got to the file, with the lines of those that returned nil. -/
structure Pipeline (Event : Type) where
  logger : Logger
  /-- `Close` has closed `currentFile` -/
  fileClosed : Bool
  capacity : Nat
  channel : List Event
  length_channel_le : channel.length ≤ capacity
  stopClosed : Bool
  stage : WriterStage Event
  queued : List Event
  dropped : List Event
  handled : List Event
  synced : List Event
  writes : List (Time × Event)
  written : List Bytes

/-- What can happen next: a call of `Log`, of `LogSync`, a step of the goroutine (it receives an event, writes it,
calls `Sync`, sees that `stopChan` is closed, finds the channel empty after that), and the two halves of `Close`. -/
inductive PipelineEvent (Event : Type) where
  | log (event : Event)
  | logSync (now : Time) (event : Event)
  | receive
  | write (now : Time)
  | flush
  | close
  | stop
  | finish
  | closeFile
deriving DecidableEq, Repr

/-- The event that `Log` is called with. -/
def PipelineEvent.logged {Event : Type} : PipelineEvent Event → Option Event
  | .log event => some event
  | _ => none

/-- The file has reached its size, so `writeEvent` begins with a rotation. -/
def Logger.rotationDue (l : Logger) : Bool := decide (l.config.maxFileSize ≤ l.currentSize)

section Pipeline

variable {Event : Type} (timestamp : Time → String) (marshal : Event → Except String Bytes)

/-! ### Histories of writes -/

theorem History.inv_start (config : LoggerConfig) (dir : LogDir) (now : Time) :
    (History.start timestamp config dir now).Inv (contents dir) := by
  refine ⟨LogDir.mem_openAppend dir _, ?_⟩
  show contents (dir.openAppend _) ≤ contents dir + 0
  rw [LogDir.contents_openAppend, add_zero]

/-- The history of some calls of `writeEvent`. -/
def replay (config : LoggerConfig) (dir : LogDir) (opened : Time) (writes : List (Time × Event)) : History :=
  Run.exec (History.step timestamp marshal) (History.start timestamp config dir opened) writes

theorem replay_concat (config : LoggerConfig) (dir : LogDir) (opened : Time) (writes : List (Time × Event))
    (w : Time × Event) : replay timestamp marshal config dir opened (writes ++ [w]) =
      (replay timestamp marshal config dir opened writes).step timestamp marshal w :=
  Run.exec_append ..

theorem inv_replay (config : LoggerConfig) (dir : LogDir) (opened : Time) (writes : List (Time × Event)) :
    (replay timestamp marshal config dir opened writes).Inv (contents dir) :=
  Run.keeps (fun h e => History.inv_step h e) (History.inv_start timestamp config dir opened) writes

/-- Rotations that spare their targets keep everything. -/
theorem kept_replay {config : LoggerConfig} {dir : LogDir} {opened : Time} {writes : List (Time × Event)}
    (h : Run.Admits (History.step timestamp marshal) (History.Spares timestamp)
      (History.start timestamp config dir opened) writes) :
    (replay timestamp marshal config dir opened writes).Kept (contents dir) := by
  have hstart : (History.start timestamp config dir opened).Kept (contents dir) := by
    show contents (dir.openAppend _) = contents dir + 0
    rw [LogDir.contents_openAppend, add_zero]
  exact (Run.exec_iff_admits_of_inv (fun h e => History.inv_step h e) History.kept_step
    (History.inv_start timestamp config dir opened)).2 ⟨hstart, h⟩

/-! ### The steps -/

namespace Pipeline

/-- `NewLogger`, with the goroutine at its first `select`. -/
def start (config : LoggerConfig) (dir : LogDir) (now : Time) : Pipeline Event where
  logger := newLogger timestamp config dir now
  fileClosed := false
  capacity := config.withDefaults.bufferSize.toNat
  channel := []
  length_channel_le := Nat.zero_le _
  stopClosed := false
  stage := .selecting
  queued := []
  dropped := []
  handled := []
  synced := []
  writes := []
  written := []

/-- `writeEvent`.  A write to a closed file fails; a rotation opens the file again. -/
def writeEvent (p : Pipeline Event) (now : Time) (event : Event) : Pipeline Event × Option String :=
  if p.fileClosed && !p.logger.rotationDue then
    match marshal event with
    | .error err => (p, some ("failed to marshal event: " ++ err))
    | .ok _ => (p, some ("failed to write event: write " ++ p.logger.currentPath ++ ": file already closed"))
  else
    let r := p.logger.writeEvent timestamp marshal now event
    ({ p with
        logger := r.1
        -- a rotation whose renaming fails has closed the file before
        fileClosed := p.logger.rotationDue && (p.logger.rotateLog timestamp now).toOption.isNone
        writes := p.writes ++ [(now, event)]
        written := p.written ++ (if r.2 = none then (marshal event).toOption.toList else []) }, r.2)

def step (p : Pipeline Event) : PipelineEvent Event → Pipeline Event
  | .log event =>
    if h : p.channel.length < p.capacity then
      { p with
        channel := p.channel ++ [event]
        length_channel_le := by rw [List.length_append]; exact h
        queued := p.queued ++ [event] }
    else { p with dropped := p.dropped ++ [event] }
  | .logSync now event =>
    let r := p.writeEvent timestamp marshal now event
    { r.1 with synced := if r.2 = none then r.1.synced ++ [event] else r.1.synced }
  | .receive =>
    match p.stage.waiting, h : p.channel with
    | some inner, event :: rest =>
      { p with
        stage := .writing event inner
        channel := rest
        length_channel_le := by
          have := p.length_channel_le
          rw [h, List.length_cons] at this
          omega }
    | _, _ => p
  | .write now =>
    match p.stage with
    | .writing event inner =>
      -- an error is logged and dropped
      { (p.writeEvent timestamp marshal now event).1 with
        stage := .afterWrite inner
        handled := p.handled ++ [event] }
    | _ => p
  | .flush => p
  | .close => { p with stopClosed := true }
  | .stop => if p.stage.waiting = some false ∧ p.stopClosed = true then { p with stage := .draining } else p
  | .finish => if p.stage.waiting = some true ∧ p.channel = [] then { p with stage := .returned } else p
  | .closeFile => if p.stage.hasReturned = true then { p with fileClosed := true } else p

/-- A write leaves the queue and the goroutine alone. -/
theorem writeEvent_frame (p : Pipeline Event) (now : Time) (event : Event) :
    let p' := (p.writeEvent timestamp marshal now event).1
    p'.stage = p.stage ∧ p'.handled = p.handled ∧ p'.queued = p.queued ∧ p'.channel = p.channel ∧
      p'.dropped = p.dropped ∧ p'.stopClosed = p.stopClosed := by
  unfold writeEvent
  split
  · split <;> exact ⟨rfl, rfl, rfl, rfl, rfl, rfl⟩
  · exact ⟨rfl, rfl, rfl, rfl, rfl, rfl⟩

/-- What a step does to the queue and to the goroutine: `Log` takes its event into the channel or drops it, the
goroutine receives an event, has written it, sees the stop, returns, or none of these. -/
inductive Moves (p p' : Pipeline Event) (logged : List Event) : Prop where
  | idle (taken dropped : List Event) (hlogged : logged = taken ++ dropped) (hstage : p'.stage = p.stage)
      (hhandled : p'.handled = p.handled) (hqueued : p'.queued = p.queued ++ taken)
      (hdropped : p'.dropped = p.dropped ++ dropped) (hchannel : p'.channel = p.channel ++ taken)
  | receive (event : Event) (inner : Bool) (hwaiting : p.stage.waiting = some inner)
      (hstage : p'.stage = .writing event inner) (hhandled : p'.handled = p.handled) (hqueued : p'.queued = p.queued)
      (hdropped : p'.dropped = p.dropped) (hchannel : p.channel = event :: p'.channel) (hlogged : logged = [])
  | write (event : Event) (inner : Bool) (hbefore : p.stage = .writing event inner)
      (hstage : p'.stage = .afterWrite inner) (hhandled : p'.handled = p.handled ++ [event])
      (hqueued : p'.queued = p.queued) (hdropped : p'.dropped = p.dropped) (hchannel : p'.channel = p.channel)
      (hlogged : logged = [])
  | stop (hwaiting : p.stage.waiting = some false) (hclosed : p.stopClosed = true) (hstage : p'.stage = .draining)
      (hhandled : p'.handled = p.handled) (hqueued : p'.queued = p.queued) (hdropped : p'.dropped = p.dropped)
      (hchannel : p'.channel = p.channel) (hlogged : logged = [])
  | finish (hwaiting : p.stage.waiting = some true) (hempty : p.channel = []) (hstage : p'.stage = .returned)
      (hhandled : p'.handled = p.handled) (hqueued : p'.queued = p.queued) (hdropped : p'.dropped = p.dropped)
      (hchannel : p'.channel = p.channel) (hlogged : logged = [])

/-- Nothing happens to the queue. -/
theorem Moves.of_frame {p p' : Pipeline Event} (hstage : p'.stage = p.stage) (hhandled : p'.handled = p.handled)
    (hqueued : p'.queued = p.queued) (hchannel : p'.channel = p.channel) (hdropped : p'.dropped = p.dropped) :
    Moves p p' [] :=
  .idle [] [] rfl hstage hhandled (by rw [hqueued, List.append_nil]) (by rw [hdropped, List.append_nil])
    (by rw [hchannel, List.append_nil])

theorem moves_step (p : Pipeline Event) (e : PipelineEvent Event) :
    Moves p (p.step timestamp marshal e) e.logged.toList := by
  cases e with
  | log event =>
    unfold step
    dsimp only
    split
    · exact .idle [event] [] rfl rfl rfl rfl (List.append_nil _).symm rfl
    · exact .idle [] [event] rfl rfl rfl (List.append_nil _).symm rfl (List.append_nil _).symm
  | logSync now event =>
    obtain ⟨hstage, hhandled, hqueued, hchannel, hdropped, -⟩ := p.writeEvent_frame timestamp marshal now event
    exact .of_frame hstage hhandled hqueued hchannel hdropped
  | receive =>
    unfold step
    dsimp only
    split
    · rename_i inner event rest hwaiting hchannel
      exact .receive event inner hwaiting rfl rfl rfl rfl hchannel rfl
    · exact .of_frame rfl rfl rfl rfl rfl
  | write now =>
    unfold step
    dsimp only
    split
    · rename_i event inner hbefore
      obtain ⟨-, -, hqueued, hchannel, hdropped, -⟩ := p.writeEvent_frame timestamp marshal now event
      exact .write event inner hbefore rfl rfl hqueued hdropped hchannel rfl
    · exact .of_frame rfl rfl rfl rfl rfl
  | flush => exact .of_frame rfl rfl rfl rfl rfl
  | close => exact .of_frame rfl rfl rfl rfl rfl
  | stop =>
    unfold step
    dsimp only
    split
    · rename_i hstop
      exact .stop hstop.1 hstop.2 rfl rfl rfl rfl rfl rfl
    · exact .of_frame rfl rfl rfl rfl rfl
  | finish =>
    unfold step
    dsimp only
    split
    · rename_i hfinish
      exact .finish hfinish.1 hfinish.2 rfl rfl rfl rfl rfl rfl
    · exact .of_frame rfl rfl rfl rfl rfl
  | closeFile =>
    unfold step
    dsimp only
    split <;> exact .of_frame rfl rfl rfl rfl rfl

/-- A call of `Log` puts its event into the channel or drops it, and nothing else does. -/
theorem Moves.queued {p p' : Pipeline Event} {logged : List Event} (h : Moves p p' logged) :
    ∃ taken dropped, p'.queued = p.queued ++ taken ∧ p'.dropped = p.dropped ++ dropped ∧
    logged = taken ++ dropped := by
  cases h with
  | idle taken dropped hlogged hstage hhandled hqueued hdropped => exact ⟨taken, dropped, hqueued, hdropped, hlogged⟩
  | _ => exact ⟨[], [], by rw [List.append_nil]; assumption, by rw [List.append_nil]; assumption, by assumption⟩

/-- `stopChan` is not opened again. -/
theorem stopClosed_step {p : Pipeline Event} (e : PipelineEvent Event) (h : p.stopClosed = true) :
    (p.step timestamp marshal e).stopClosed = true := by
  cases e with
  | logSync now event => exact (p.writeEvent_frame timestamp marshal now event).2.2.2.2.2.trans h
  | write now =>
    unfold step
    dsimp only
    split
    · rename_i event inner _
      exact (p.writeEvent_frame timestamp marshal now event).2.2.2.2.2.trans h
    · exact h
  | close => rfl
  | flush => exact h
  | _ =>
    unfold step
    dsimp only
    split <;> exact h

/-! ### The invariant -/

/-- The writes that got to the file are a history of the logger. -/
def history (p : Pipeline Event) : History := { logger := p.logger, written := p.written }

/-- The queue: what was taken has been given to `writeEvent`, is in the hands of the goroutine or in the channel. -/
structure Queue (p : Pipeline Event) : Prop where
  fifo : p.queued = p.handled ++ p.stage.inHand ++ p.channel
  stopped : p.stage.stopping = true → p.stopClosed = true

/-- The files: they are those of the writes, and they are closed only when the goroutine has returned. -/
structure Files (config : LoggerConfig) (dir : LogDir) (opened : Time) (p : Pipeline Event) : Prop where
  history : p.history = replay timestamp marshal config dir opened p.writes
  order : p.handled.Sublist (p.writes.map Prod.snd)
  closed : p.fileClosed = true → p.stage.hasReturned = true

variable {config : LoggerConfig} {dir : LogDir} {opened : Time}

theorem queue_step (p : Pipeline Event) (e : PipelineEvent Event) (h : p.Queue) :
    (p.step timestamp marshal e).Queue := by
  have hclosed := stopClosed_step timestamp marshal (p := p) e
  cases moves_step timestamp marshal p e with
  | idle taken dropped hlogged hstage hhandled hqueued hdropped hchannel =>
    refine ⟨?_, fun hstopping => hclosed (h.stopped (hstage ▸ hstopping))⟩
    rw [hqueued, hhandled, hstage, hchannel, h.fifo, List.append_assoc _ p.channel]
  | receive event inner hwaiting hstage hhandled hqueued hdropped hchannel =>
    obtain ⟨hhand, hstopping, -⟩ := WriterStage.waiting_spec hwaiting
    refine ⟨?_, fun hinner => hclosed (h.stopped (hstopping.trans ?_))⟩
    · rw [hqueued, hhandled, hstage, h.fifo, hhand, hchannel, List.append_nil, List.append_assoc]
      rfl
    · rw [hstage] at hinner
      exact hinner
  | write event inner hbefore hstage hhandled hqueued hdropped hchannel =>
    obtain ⟨hhand, hstopping, -⟩ := @WriterStage.afterWrite_spec Event inner
    refine ⟨?_, fun hinner => hclosed (h.stopped ?_)⟩
    · rw [hqueued, hhandled, hstage, hchannel, h.fifo, hhand, hbefore, List.append_nil]
      rfl
    · rw [hstage, hstopping] at hinner
      rw [hbefore]
      exact hinner
  | stop hwaiting hstop hstage hhandled hqueued hdropped hchannel =>
    obtain ⟨hhand, -, -⟩ := WriterStage.waiting_spec hwaiting
    refine ⟨?_, fun _ => hclosed hstop⟩
    rw [hqueued, hhandled, hstage, hchannel, h.fifo, hhand]
    rfl
  | finish hwaiting hempty hstage hhandled hqueued hdropped hchannel =>
    obtain ⟨hhand, hstopping, -⟩ := WriterStage.waiting_spec hwaiting
    refine ⟨?_, fun _ => hclosed (h.stopped hstopping)⟩
    rw [hqueued, hhandled, hstage, hchannel, h.fifo, hhand]
    rfl

namespace Files

variable {timestamp marshal} {p : Pipeline Event}

/-- The current file is there, whatever has been written. -/
theorem current_mem (h : p.Files timestamp marshal config dir opened) : p.logger.currentPath ∈ p.logger.dir := by
  have hcurrent := (inv_replay timestamp marshal config dir opened p.writes).current
  rw [← h.history] at hcurrent
  exact hcurrent

/-- What `writeEvent` does: nothing, or one more step of the history with an open file after it. -/
theorem writeEvent_cases (h : p.Files timestamp marshal config dir opened) (now : Time) (event : Event) :
    (p.fileClosed = true ∧ ∃ err, p.writeEvent timestamp marshal now event = (p, some err)) ∨
      p.writeEvent timestamp marshal now event =
        ({ p with
            logger := (p.history.step timestamp marshal (now, event)).logger
            fileClosed := false
            writes := p.writes ++ [(now, event)]
            written := (p.history.step timestamp marshal (now, event)).written },
          (p.logger.writeEvent timestamp marshal now event).2) := by
  unfold Pipeline.writeEvent
  by_cases hclosed : (p.fileClosed && !p.logger.rotationDue) = true
  · left
    rw [if_pos hclosed]
    refine ⟨(Bool.and_eq_true_iff.1 hclosed).1, ?_⟩
    cases marshal event with
    | error err => exact ⟨_, rfl⟩
    | ok eventJSON => exact ⟨_, rfl⟩
  · right
    obtain ⟨l', hrotate, -⟩ := @Logger.rotateLog_spec timestamp _ h.current_mem now
    rw [if_neg hclosed, hrotate]
    simp only [Except.toOption, Option.isNone_some, Bool.and_false]
    rfl

/-- The goroutine writes to an open file. -/
theorem writeEvent_of_writing (h : p.Files timestamp marshal config dir opened) {event : Event} {inner : Bool}
    (hstage : p.stage = .writing event inner) (now : Time) :
    p.writeEvent timestamp marshal now event =
      ({ p with
          logger := (p.history.step timestamp marshal (now, event)).logger
          fileClosed := false
          writes := p.writes ++ [(now, event)]
          written := (p.history.step timestamp marshal (now, event)).written },
        (p.logger.writeEvent timestamp marshal now event).2) := by
  rcases h.writeEvent_cases now event with ⟨hclosed, -⟩ | hwrite
  · have hreturned := h.closed hclosed
    rw [hstage] at hreturned
    cases hreturned
  · exact hwrite

/-- Nothing is written and no file closed. -/
theorem frame (h : p.Files timestamp marshal config dir opened) {p' : Pipeline Event}
    (hhistory : p'.history = p.history) (hwrites : p'.writes = p.writes) (hhandled : p'.handled = p.handled)
    (hopen : p'.fileClosed = p.fileClosed)
    (hreturned : p.stage.hasReturned = true → p'.stage.hasReturned = true) :
    p'.Files timestamp marshal config dir opened where
  history := by rw [hhistory, hwrites, h.history]
  order := by rw [hhandled, hwrites]; exact h.order
  closed := fun hclosed => hreturned (h.closed (hopen ▸ hclosed))

end Files

theorem files_step (p : Pipeline Event) (e : PipelineEvent Event) (h : p.Files timestamp marshal config dir opened) :
    (p.step timestamp marshal e).Files timestamp marshal config dir opened := by
  have hconcat : ∀ w, p.history.step timestamp marshal w =
      replay timestamp marshal config dir opened (p.writes ++ [w]) := by
    intro w
    rw [replay_concat, h.history]
  cases e with
  | logSync now event =>
    unfold step
    dsimp only
    rcases h.writeEvent_cases now event with ⟨-, err, hwrite⟩ | hwrite
    · rw [hwrite]
      exact h.frame rfl rfl rfl rfl id
    · rw [hwrite]
      refine ⟨hconcat (now, event), ?_, Bool.noConfusion⟩
      exact h.order.trans ((List.sublist_append_left ..).map Prod.snd)
  | write now =>
    unfold step
    dsimp only
    split
    · rename_i event inner hstage
      rw [h.writeEvent_of_writing hstage now]
      refine ⟨hconcat (now, event), ?_, Bool.noConfusion⟩
      show (p.handled ++ [event]).Sublist ((p.writes ++ [(now, event)]).map Prod.snd)
      rw [List.map_append]
      exact h.order.append (.refl _)
    · exact h
  | log event =>
    unfold step
    dsimp only
    split <;> exact h.frame rfl rfl rfl rfl id
  | receive =>
    unfold step
    dsimp only
    split
    · rename_i hwaiting _
      refine h.frame rfl rfl rfl rfl fun hreturned => ?_
      rw [(WriterStage.waiting_spec hwaiting).2.2] at hreturned
      cases hreturned
    · exact h
  | flush => exact h
  | close => exact h.frame rfl rfl rfl rfl id
  | stop =>
    unfold step
    dsimp only
    split
    · rename_i hstop
      refine h.frame rfl rfl rfl rfl fun hreturned => ?_
      rw [(WriterStage.waiting_spec hstop.1).2.2] at hreturned
      cases hreturned
    · exact h
  | finish =>
    unfold step
    dsimp only
    split
    · exact h.frame rfl rfl rfl rfl fun _ => rfl
    · exact h
  | closeFile =>
    unfold step
    dsimp only
    split
    · rename_i hreturned
      exact ⟨h.history, h.order, fun _ => hreturned⟩
    · exact h

/-! ### The order of the queue -/

abbrev run (config : LoggerConfig) (dir : LogDir) (opened : Time) (es : List (PipelineEvent Event)) :
    Pipeline Event :=
  Run.exec (step timestamp marshal) (start timestamp config dir opened) es

theorem queue_run (config : LoggerConfig) (dir : LogDir) (opened : Time) (es : List (PipelineEvent Event)) :
    (run timestamp marshal config dir opened es).Queue :=
  Run.keeps (queue_step timestamp marshal) ⟨rfl, fun h => absurd h Bool.noConfusion⟩ es

theorem files_run (config : LoggerConfig) (dir : LogDir) (opened : Time) (es : List (PipelineEvent Event)) :
    (run timestamp marshal config dir opened es).Files timestamp marshal config dir opened :=
  Run.keeps (files_step timestamp marshal) ⟨rfl, .slnil, fun h => absurd h Bool.noConfusion⟩ es

/-- The calls of `Log` in a run, those that queued and those that dropped their event. -/
theorem queued_exec (p : Pipeline Event) (es : List (PipelineEvent Event)) :
    ∃ q d, (Run.exec (step timestamp marshal) p es).queued = p.queued ++ q ∧
      (Run.exec (step timestamp marshal) p es).dropped = p.dropped ++ d ∧
      q.Sublist (es.filterMap PipelineEvent.logged) ∧ (es.filterMap PipelineEvent.logged).Perm (q ++ d) := by
  induction es generalizing p with
  | nil => exact ⟨[], [], (List.append_nil _).symm, (List.append_nil _).symm, .slnil, .nil⟩
  | cons e es ih =>
    obtain ⟨q, d, hqueued, hdropped, hlogged⟩ := (moves_step timestamp marshal p e).queued
    obtain ⟨q', d', hqueued', hdropped', hsub, hperm⟩ := ih (p.step timestamp marshal e)
    have hcons : (e :: es).filterMap PipelineEvent.logged = q ++ d ++ es.filterMap PipelineEvent.logged := by
      rw [← hlogged, List.filterMap_cons]
      cases e.logged <;> rfl
    rw [Run.exec_cons, hqueued', hdropped', hqueued, hdropped, hcons]
    refine ⟨q ++ q', d ++ d', List.append_assoc .., List.append_assoc .., ?_, ?_⟩
    · exact (List.sublist_append_left q d).append hsub
    · -- the dropped events move behind the queued ones
      refine (hperm.append_left (q ++ d)).trans ?_
      rw [List.append_assoc, List.append_assoc]
      refine List.Perm.append_left q ?_
      rw [← List.append_assoc, ← List.append_assoc]
      exact List.perm_append_comm.append_right d'

/-- Whatever calls of `Log`, `LogSync` and `Close` and steps of the goroutine interleave: the events that `Log` took
are those given to `writeEvent`, in the order in which they were taken, then the one in the hands of the goroutine,
then those in the channel; every other call dropped its event; and the files are those of the sequence of writes, in
which the events of the queue come in its order. -/
theorem fifo_exec (config : LoggerConfig) (dir : LogDir) (opened : Time) (es : List (PipelineEvent Event)) :
    let p := run timestamp marshal config dir opened es
    p.queued = p.handled ++ p.stage.inHand ++ p.channel ∧
      p.queued.Sublist (es.filterMap PipelineEvent.logged) ∧
      (es.filterMap PipelineEvent.logged).Perm (p.queued ++ p.dropped) ∧
      p.history = replay timestamp marshal config dir opened p.writes ∧
      p.handled.Sublist (p.writes.map Prod.snd) := by
  intro p
  have hqueue : p.Queue := queue_run timestamp marshal config dir opened es
  have hfiles : p.Files timestamp marshal config dir opened := files_run timestamp marshal config dir opened es
  obtain ⟨q, d, hqueued, hdropped, hsub, hperm⟩ :=
    queued_exec timestamp marshal (start timestamp config dir opened) es
  have hq : p.queued = q := hqueued
  have hd : p.dropped = d := hdropped
  refine ⟨hqueue.fifo, ?_, ?_, hfiles.history, hfiles.order⟩
  · rw [hq]
    exact hsub
  · rw [hq, hd]
    exact hperm

/-! ### Shutdown -/

/-- A goroutine that has returned stays so and writes nothing. -/
theorem returned_step {p : Pipeline Event} (e : PipelineEvent Event) (h : p.stage.hasReturned = true) :
    (p.step timestamp marshal e).stage.hasReturned = true ∧ (p.step timestamp marshal e).handled = p.handled := by
  obtain ⟨-, hnone, -⟩ := WriterStage.returned_spec h
  cases moves_step timestamp marshal p e with
  | idle taken dropped hlogged hstage hhandled =>
    rw [hstage]
    exact ⟨h, hhandled⟩
  | receive event inner hwaiting =>
    rw [hnone] at hwaiting
    cases hwaiting
  | write event inner hbefore =>
    rw [hbefore] at h
    cases h
  | stop hwaiting =>
    rw [hnone] at hwaiting
    cases hwaiting
  | finish hwaiting =>
    rw [hnone] at hwaiting
    cases hwaiting

theorem returned_exec {p : Pipeline Event} (h : p.stage.hasReturned = true) (es : List (PipelineEvent Event)) :
    (Run.exec (step timestamp marshal) p es).stage.hasReturned = true ∧
      (Run.exec (step timestamp marshal) p es).handled = p.handled := by
  have hstep : ∀ (q : Pipeline Event) (e : PipelineEvent Event),
      q.stage.hasReturned = true ∧ q.handled = p.handled →
        (q.step timestamp marshal e).stage.hasReturned = true ∧ (q.step timestamp marshal e).handled = p.handled := by
    intro q e hq
    obtain ⟨hstage, hhandled⟩ := returned_step timestamp marshal e hq.1
    exact ⟨hstage, hhandled.trans hq.2⟩
  exact Run.keeps hstep ⟨h, rfl⟩ es

/-- What was queued at some time in the past, and has been written if the goroutine has returned. -/
structure Awaited (past : List Event) (p : Pipeline Event) : Prop where
  queue : p.Queue
  taken : past <+: p.queued
  written : p.stage.hasReturned = true → past <+: p.handled

theorem awaited_step {past : List Event} (p : Pipeline Event) (e : PipelineEvent Event) (h : Awaited past p) :
    Awaited past (p.step timestamp marshal e) := by
  refine ⟨queue_step timestamp marshal p e h.queue, ?_, ?_⟩
  · obtain ⟨taken, dropped, hqueued, -, -⟩ := (moves_step timestamp marshal p e).queued
    rw [hqueued]
    exact h.taken.trans (List.prefix_append ..)
  · intro hreturned
    cases moves_step timestamp marshal p e with
    | idle taken dropped hlogged hstage hhandled =>
      rw [hstage] at hreturned
      rw [hhandled]
      exact h.written hreturned
    | receive event inner hwaiting hstage =>
      rw [hstage] at hreturned
      cases hreturned
    | write event inner hbefore hstage =>
      rw [hstage, (WriterStage.afterWrite_spec inner).2.2] at hreturned
      cases hreturned
    | stop hwaiting hclosed hstage =>
      rw [hstage] at hreturned
      cases hreturned
    | finish hwaiting hempty hstage hhandled =>
      -- the channel is empty and nothing is in hand, so all that was taken has been written
      have hall := h.queue.fifo
      rw [hempty, (WriterStage.waiting_spec hwaiting).1, List.append_nil, List.append_nil] at hall
      rw [hhandled, ← hall]
      exact h.taken

section Lines

variable {line : Event → Bytes}

/-- A write to a current file that is there returns nil if the event can be marshalled. -/
theorem writeEvent_eq_none {l : Logger} (hcurrent : l.currentPath ∈ l.dir) (now : Time) {event : Event}
    (hmarshal : marshal event = .ok (line event)) : (l.writeEvent timestamp marshal now event).2 = none := by
  obtain ⟨l', hrotate, -⟩ := @Logger.rotate_spec timestamp _ hcurrent now
  unfold Logger.writeEvent
  rw [hrotate, hmarshal]

/-- The lines in the files are those of the events that were written. -/
structure Accounted (line : Event → Bytes) (config : LoggerConfig) (dir : LogDir) (opened : Time)
    (p : Pipeline Event) : Prop where
  files : p.Files timestamp marshal config dir opened
  lines : p.written.Perm ((p.handled ++ p.synced).map line)

theorem accounted_step (hmarshal : ∀ event, marshal event = .ok (line event)) (p : Pipeline Event)
    (e : PipelineEvent Event)
    (h : p.Accounted timestamp marshal line config dir opened) :
    (p.step timestamp marshal e).Accounted timestamp marshal line config dir opened := by
  refine ⟨files_step timestamp marshal p e h.files, ?_⟩
  have hnone : ∀ now event, (p.logger.writeEvent timestamp marshal now event).2 = none :=
    fun now event => writeEvent_eq_none timestamp marshal h.files.current_mem now (hmarshal event)
  have hline : ∀ now event, (p.history.step timestamp marshal (now, event)).written = p.written ++ [line event] := by
    intro now event
    show p.written ++ (if (p.logger.writeEvent timestamp marshal now event).2 = none then
      (marshal event).toOption.toList else []) = _
    rw [if_pos (hnone now event), hmarshal]
    rfl
  cases e with
  | logSync now event =>
    unfold step
    dsimp only
    rcases h.files.writeEvent_cases now event with ⟨-, err, hwrite⟩ | hwrite
    · rw [hwrite]
      exact h.lines
    · rw [hwrite]
      dsimp only
      rw [if_pos (hnone now event), hline, ← List.append_assoc, List.map_append]
      exact h.lines.append_right [line event]
  | write now =>
    unfold step
    dsimp only
    split
    · rename_i event inner hstage
      rw [h.files.writeEvent_of_writing hstage now]
      dsimp only
      rw [hline]
      refine (h.lines.append_right [line event]).trans ?_
      rw [List.append_assoc, List.map_append, List.map_append, List.map_append, List.append_assoc]
      exact List.Perm.append_left _ List.perm_append_comm
    · exact h.lines
  | flush => exact h.lines
  | close => exact h.lines
  | _ =>
    unfold step
    dsimp only
    split <;> exact h.lines

end Lines

/-- Whatever happens before the first `Close`, until the goroutine has returned and after that: all that was queued
before that `Close` has been written when the goroutine has returned; nothing queued is written any more, and what
`Log` still takes stays in the channel; and if every event can be marshalled and the rotations spare the files at
their targets, the directory holds what was in it and the lines of the events that were written, each of them once. -/
theorem kept_of_returned (config : LoggerConfig) (dir : LogDir) (opened : Time) {line : Event → Bytes}
    (hmarshal : ∀ event, marshal event = .ok (line event)) (before during after : List (PipelineEvent Event))
    (hfirst : (run timestamp marshal config dir opened before).stopClosed = false)
    (hreturned : (run timestamp marshal config dir opened (before ++ during)).stage = .returned)
    (hspares : Run.Admits (History.step timestamp marshal) (History.Spares timestamp)
      (History.start timestamp config dir opened)
      (run timestamp marshal config dir opened (before ++ during ++ after)).writes) :
    let p := run timestamp marshal config dir opened (before ++ during ++ after)
    (run timestamp marshal config dir opened before).queued <+: p.handled ∧
      p.handled = (run timestamp marshal config dir opened (before ++ during)).handled ∧
      p.queued = p.handled ++ p.channel ∧
      contents p.logger.dir = contents dir + ↑((p.handled ++ p.synced).map line) := by
  intro p
  have hstage : (run timestamp marshal config dir opened (before ++ during)).stage.hasReturned = true := by
    rw [hreturned]
    rfl
  have hp : p = Run.exec (step timestamp marshal)
    (run timestamp marshal config dir opened (before ++ during)) after :=
    Run.exec_append ..
  obtain ⟨hlast, hhandled⟩ := returned_exec timestamp marshal hstage after
  rw [← hp] at hlast hhandled
  -- at the first `Close` the goroutine is still running
  have hawaited : Awaited (run timestamp marshal config dir opened before).queued p := by
    have hbefore := queue_run timestamp marshal config dir opened before
    have hstart : Awaited (run timestamp marshal config dir opened before).queued
        (run timestamp marshal config dir opened before) := by
      refine ⟨hbefore, List.prefix_refl _, fun h => ?_⟩
      rw [hbefore.stopped (WriterStage.returned_spec h).2.2] at hfirst
      cases hfirst
    have hsplit : p = Run.exec (step timestamp marshal) (run timestamp marshal config dir opened before)
        (during ++ after) := by
      show Run.exec _ _ (before ++ during ++ after) = _
      rw [List.append_assoc]
      exact Run.exec_append ..
    rw [hsplit]
    exact Run.keeps (awaited_step timestamp marshal) hstart (during ++ after)
  have haccounted : p.Accounted timestamp marshal line config dir opened :=
    Run.keeps (accounted_step timestamp marshal hmarshal) ⟨files_run timestamp marshal config dir opened [], .nil⟩ _
  refine ⟨hawaited.written hlast, hhandled, ?_, ?_⟩
  · rw [hawaited.queue.fifo, (WriterStage.returned_spec hlast).1, List.append_nil]
  · have hkept := kept_replay timestamp marshal hspares
    rw [← haccounted.files.history] at hkept
    rw [show contents p.logger.dir = contents dir + ↑p.written from hkept, Multiset.coe_eq_coe.2 haccounted.lines]

/-- A buffer for one event: the second is dropped, the first is written during the shutdown, and the third, which
comes after it, stays in the channel. -/
def shutdownEvents : List (PipelineEvent Bytes) :=
  [.close, .stop, .receive, .write 5000000000, .finish, .closeFile]

theorem kept_of_returned_sample :
    let config : LoggerConfig := ⟨"logs", 100, 0, 1, 0⟩
    let p := run CivilTime.stamp (fun e : Bytes => .ok e) config ∅ 0
      ([.log [1], .log [2]] ++ shutdownEvents ++ [.log [3], .receive, .logSync 6000000000 [4]])
    (p.dropped = [[2]] ∧ p.channel = [[3]] ∧ p.synced = []) ∧
      [[1]] <+: p.handled ∧ p.handled = [[1]] ∧ p.queued = p.handled ++ p.channel ∧
      contents p.logger.dir = contents (∅ : LogDir) + ↑((p.handled ++ p.synced).map id) :=
  ⟨by decide +kernel,
    kept_of_returned CivilTime.stamp (fun e : Bytes => .ok e) ⟨"logs", 100, 0, 1, 0⟩ ∅ 0 (fun _ => rfl)
      [.log [1], .log [2]] shutdownEvents [.log [3], .receive, .logSync 6000000000 [4]] (by decide +kernel)
      (by decide +kernel) (by decide +kernel)⟩

end Pipeline

end Pipeline

end Audit

end DistributedBloomFilter
