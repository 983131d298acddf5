import DistributedBloomFilter.Basic
import DistributedBloomFilter.Lib.Run
import DistributedBloomFilter.Lib.Slices

/-!
# The asynchronous writer

`AsyncWALWriter` of `internal/wal/async_wal.go` as the interleaving of its goroutines: callers of `WriteAsync`, of
`Flush` and of `Close`, and the background loop.  A step is a critical section under `a.mu`, a call of
`WALWriter.Write` or of one callback, or an operation on a channel.  The buffer is a slice whose array is used again
after every flush; `view_exec` shows that the batches copied out of it do not notice, so that the results are proved
for buffers as values.

The statistics are left out, and so are the timestamps of the entries: nothing reads them.
-/

namespace DistributedBloomFilter

/-- An entry of the buffer: its place in the order of the appends, which is not data of the program, its payload, and
whether it has a callback. -/
structure WalEntry where
  number : Nat
  data : Bytes
  callback : Bool
deriving DecidableEq, Repr, Inhabited

/-- The payloads one after another, as `doFlush` joins them. -/
def batchData (entries : List WalEntry) : Bytes := entries.flatMap WalEntry.data

/-- The callback of an entry, if it has one, with the error it gets. -/
def calledWith (err : Option String) (e : WalEntry) : List (Nat × Option String) :=
  if e.callback then [(e.number, err)] else []

/-- Who runs a `doFlush`: a caller of `Flush`, or the background loop. -/
inductive Flusher where
  | caller (t : Nat)
  | loop
deriving DecidableEq, Repr

/-- Before the write, or in the loop over the callbacks with the error of the write and the number of entries done. -/
inductive Stage where
  | writing
  | calling (err : Option String) (done : Nat)
deriving DecidableEq, Repr

/-- A `doFlush` that is running. -/
structure Flight (B : Type) where
  owner : Flusher
  entries : B
  stage : Stage
deriving DecidableEq, Repr

/-- The background loop: in its `select`, on its way to the lock, in `doFlush`, or returned.  `stop` says that it was
woken by `stopCh`. -/
inductive LoopState where
  | selecting
  | locking (stop : Bool)
  | flushing (stop : Bool)
  | stopped
deriving DecidableEq, Repr

/-- The three cases of the `select`. -/
inductive Arm where
  | flushCh
  | timer
  | stopCh
deriving DecidableEq, Repr

inductive CloseState where
  | notCalled
  | waiting
  | returned (err : Option String)
deriving DecidableEq, Repr

/-- What has happened, for the statements only: the entries appended, the batches taken from the buffer, the batches
handed to `WALWriter.Write` with its error, the flushes that have returned, and the callbacks run. -/
structure AsyncLog where
  appended : List WalEntry
  batches : List (List WalEntry)
  writes : List (List WalEntry × Option String)
  returned : List (List WalEntry × Option String)
  callbacks : List (Nat × Option String)
deriving DecidableEq, Repr

/-- The embedded `WALWriter`; `I` is what a `Write` gets from outside. -/
structure WalOps (W I : Type) where
  write : I → W → Bytes → W × Option String
  close : W → W × Option String

/-- `flushCh` says that a value is in the channel, `stopCh` that it is closed; `flushDone` is closed when the loop has
stopped.  `signalling` counts the calls of `WriteAsync` that are to send on `flushCh`.  The flights are in the order
in which they took the buffer.  `log` and `beforeClose`, the number of entries when `Close` was called, are not data
of the program. -/
structure AsyncWALWriter (M B W : Type) where
  mem : M
  buffer : B
  maxBatchSize : Nat
  flushCh : Bool
  stopCh : Bool
  loop : LoopState
  closing : CloseState
  signalling : Nat
  flights : List (Flight B)
  wal : W
  log : AsyncLog
  beforeClose : Nat

namespace AsyncWALWriter

inductive Event (I : Type) where
  /-- the critical section of `WriteAsync`; `spare` is the room in a new array, if `append` makes one -/
  | writeAsync (data : Bytes) (callback : Bool) (spare : Nat)
  | signal
  /-- `Flush` by a caller, up to `doFlush` -/
  | flush (t : Nat)
  | select (arm : Arm)
  /-- `doFlushFromBuffer` by the loop, up to `doFlush` -/
  | flushFromBuffer
  /-- `doFlush` up to the callbacks -/
  | write (o : Flusher) (input : I)
  | callback (o : Flusher)
  | close
  | closeWal

section Model

variable {M B W I : Type} (ops : SliceOps M B WalEntry) (wal : WalOps W I)

def afterFlush (stop : Bool) : LoopState := if stop then .stopped else .selecting

def writeAsync (s : AsyncWALWriter M B W) (data : Bytes) (callback : Bool) (spare : Nat) : AsyncWALWriter M B W :=
  let entry : WalEntry := { number := s.log.appended.length, data := data, callback := callback }
  let r := ops.append s.mem s.buffer entry spare
  let shouldFlush := (ops.read r.1 r.2).length ≥ s.maxBatchSize
  { s with
    mem := r.1
    buffer := r.2
    signalling := if shouldFlush then s.signalling + 1 else s.signalling
    log := { s.log with appended := s.log.appended ++ [entry] } }

/-- The send on `flushCh`, which has room for one value; it is dropped when one is there. -/
def signal (s : AsyncWALWriter M B W) : AsyncWALWriter M B W :=
  if s.signalling = 0 then s else { s with signalling := s.signalling - 1, flushCh := true }

/-- The buffer is copied and cut to length zero. -/
def takeBuffer (s : AsyncWALWriter M B W) (o : Flusher) : AsyncWALWriter M B W :=
  let r := ops.copy s.mem s.buffer
  { s with
    mem := r.1
    buffer := ops.clear s.buffer
    flights := s.flights ++ [{ owner := o, entries := r.2, stage := .writing }]
    log := { s.log with batches := s.log.batches ++ [ops.read s.mem s.buffer] } }

/-- The running `doFlush` of a flusher. -/
def flightOf (flights : List (Flight B)) (o : Flusher) : Option (Flight B) := flights.find? fun f => f.owner = o

/-- `Flush` by a caller that is not in one; it returns at once when the buffer is empty. -/
def flush (s : AsyncWALWriter M B W) (t : Nat) : AsyncWALWriter M B W :=
  if (flightOf s.flights (.caller t)).isSome then s
  else if (ops.read s.mem s.buffer).length = 0 then s
  else s.takeBuffer ops (.caller t)

/-- A case of the `select` in the loop, where it is ready: what is in `flushCh` after it and where the loop is.  The
timer may fire at any time. -/
def selectArm (flushCh stopCh : Bool) : LoopState → Arm → Bool × LoopState
  | .selecting, .flushCh => if flushCh then (false, .locking false) else (flushCh, .selecting)
  | .selecting, .timer => (flushCh, .locking false)
  | .selecting, .stopCh => if stopCh then (flushCh, .locking true) else (flushCh, .selecting)
  | loop, _ => (flushCh, loop)

def select (s : AsyncWALWriter M B W) (arm : Arm) : AsyncWALWriter M B W :=
  let r := selectArm s.flushCh s.stopCh s.loop arm
  { s with flushCh := r.1, loop := r.2 }

def flushFromBuffer (s : AsyncWALWriter M B W) : AsyncWALWriter M B W :=
  match s.loop with
  | .locking stop =>
    if (ops.read s.mem s.buffer).length = 0 then { s with loop := afterFlush stop }
    else { s.takeBuffer ops .loop with loop := .flushing stop }
  | _ => s

def setStage (flights : List (Flight B)) (o : Flusher) (stage : Stage) : List (Flight B) :=
  flights.map fun f => if f.owner = o then { f with stage := stage } else f

/-- `doFlush` up to the callbacks: nothing is written when the payloads are all empty. -/
def write (s : AsyncWALWriter M B W) (o : Flusher) (input : I) : AsyncWALWriter M B W :=
  match flightOf s.flights o with
  | some ⟨_, slice, .writing⟩ =>
    let entries := ops.read s.mem slice
    if (batchData entries).length > 0 then
      let r := wal.write input s.wal (batchData entries)
      { s with
        wal := r.1
        flights := setStage s.flights o (.calling r.2 0)
        log := { s.log with writes := s.log.writes ++ [(entries, r.2)] } }
    else { s with flights := setStage s.flights o (.calling none 0) }
  | _ => s

/-- The callback of one entry, if it has one; after the last one `doFlush` returns. -/
def callback (s : AsyncWALWriter M B W) (o : Flusher) : AsyncWALWriter M B W :=
  match flightOf s.flights o with
  | some ⟨_, slice, .calling err done⟩ =>
    let entries := ops.read s.mem slice
    let called := ((entries.drop done).take 1).flatMap (calledWith err)
    if done + 1 < entries.length then
      { s with
        flights := setStage s.flights o (.calling err (done + 1))
        log := { s.log with callbacks := s.log.callbacks ++ called } }
    else
      { s with
        flights := s.flights.filter fun f => f.owner ≠ o
        loop :=
          match o, s.loop with
          | .loop, .flushing stop => afterFlush stop
          | _, loop => loop
        log := { s.log with
          callbacks := s.log.callbacks ++ called
          returned := s.log.returned ++ [(entries, err)] } }
  | _ => s

/-- `Close` up to the wait for `flushDone`. -/
def close (s : AsyncWALWriter M B W) : AsyncWALWriter M B W :=
  match s.closing with
  | .notCalled =>
    { s with stopCh := true, closing := .waiting, beforeClose := s.log.appended.length }
  | _ => s

def closeWal (s : AsyncWALWriter M B W) : AsyncWALWriter M B W :=
  match s.closing, s.loop with
  | .waiting, .stopped =>
    let r := wal.close s.wal
    { s with wal := r.1, closing := .returned r.2 }
  | _, _ => s

/-- A step of one of the goroutines; one that is not at that point does nothing. -/
def step (s : AsyncWALWriter M B W) : Event I → AsyncWALWriter M B W
  | .writeAsync data callback spare => s.writeAsync ops data callback spare
  | .signal => s.signal
  | .flush t => s.flush ops t
  | .select arm => s.select arm
  | .flushFromBuffer => s.flushFromBuffer ops
  | .write o input => s.write ops wal o input
  | .callback o => s.callback ops o
  | .close => s.close
  | .closeWal => s.closeWal wal

def emptyLog : AsyncLog :=
  { appended := [], batches := [], writes := [], returned := [], callbacks := [] }

/-- A writer whose loop has just been started. -/
def start (mem : M) (buffer : B) (maxBatchSize : Nat) (w : W) : AsyncWALWriter M B W :=
  { mem := mem, buffer := buffer, maxBatchSize := maxBatchSize, flushCh := false, stopCh := false,
    loop := .selecting, closing := .notCalled, signalling := 0, flights := [], wal := w, log := emptyLog,
    beforeClose := 0 }

/-- `NewAsyncWALWriter` around a new `WALWriter`: a buffer of length zero in an array of `maxBatchSize` entries. -/
def newAsyncWALWriter (maxBatchSize : Nat) (w : W) : AsyncWALWriter (List (List WalEntry)) Slice W :=
  start [List.replicate maxBatchSize default] { addr := 0, len := 0 } maxBatchSize w

end Model

/-! ### The buffer as a value -/

section View

variable {W I : Type} {wal : WalOps W I}

open SliceOps (arrays values)

/-- A running flush with the contents of its slice. -/
def viewFlight (mem : List (List WalEntry)) (f : Flight Slice) : Flight (List WalEntry) :=
  ⟨f.owner, (arrays WalEntry).read mem f.entries, f.stage⟩

/-- The same state with the contents of the slices in their place. -/
def view (s : AsyncWALWriter (List (List WalEntry)) Slice W) : AsyncWALWriter Unit (List WalEntry) W where
  mem := ()
  buffer := (arrays WalEntry).read s.mem s.buffer
  maxBatchSize := s.maxBatchSize
  flushCh := s.flushCh
  stopCh := s.stopCh
  loop := s.loop
  closing := s.closing
  signalling := s.signalling
  flights := s.flights.map (viewFlight s.mem)
  wal := s.wal
  log := s.log
  beforeClose := s.beforeClose

/-- No running flush has its entries in the array of the buffer. -/
def Apart (s : AsyncWALWriter (List (List WalEntry)) Slice W) : Prop :=
  Slice.Apart s.mem s.buffer (s.flights.map Flight.entries)

variable {s : AsyncWALWriter (List (List WalEntry)) Slice W}

private theorem flightOf_view (mem : List (List WalEntry)) (flights : List (Flight Slice)) (o : Flusher) :
    flightOf (flights.map (viewFlight mem)) o = (flightOf flights o).map (viewFlight mem) := by
  unfold flightOf
  rw [List.find?_map]
  rfl

private theorem setStage_view (mem : List (List WalEntry)) (flights : List (Flight Slice)) (o : Flusher)
    (stage : Stage) :
    setStage (flights.map (viewFlight mem)) o stage = (setStage flights o stage).map (viewFlight mem) := by
  unfold setStage
  rw [List.map_map, List.map_map]
  refine List.map_congr_left fun f _ => ?_
  show (if f.owner = o then _ else _) = viewFlight mem (if f.owner = o then _ else _)
  split <;> rfl

private theorem entries_setStage (flights : List (Flight Slice)) (o : Flusher) (stage : Stage) :
    (setStage flights o stage).map Flight.entries = flights.map Flight.entries := by
  unfold setStage
  rw [List.map_map]
  refine List.map_congr_left fun f _ => ?_
  show (if f.owner = o then _ else _ : Flight Slice).entries = _
  split <;> rfl

/-- The flights look the same in a memory in which their slices have the same contents. -/
private theorem map_viewFlight_congr {mem mem' : List (List WalEntry)} {flights : List (Flight Slice)}
    (h : ∀ t ∈ flights.map Flight.entries, (arrays WalEntry).read mem' t = (arrays WalEntry).read mem t) :
    flights.map (viewFlight mem') = flights.map (viewFlight mem) := by
  refine List.map_congr_left fun f hf => ?_
  show Flight.mk _ _ _ = Flight.mk _ _ _
  rw [h f.entries (List.mem_map_of_mem hf)]

private theorem view_takeBuffer (h : s.Apart) (o : Flusher) :
    view (s.takeBuffer (arrays WalEntry) o) = (view s).takeBuffer (values WalEntry) o ∧
      (s.takeBuffer (arrays WalEntry) o).Apart := by
  obtain ⟨hapart, hread, hothers⟩ := Slice.Apart.take h
  have hflights := map_viewFlight_congr hothers
  constructor
  · unfold view takeBuffer
    dsimp only
    rw [List.map_append, hflights, List.map_singleton, viewFlight, hread]
    congr 1
  · show Slice.Apart _ _ (List.map Flight.entries (_ ++ _))
    rw [List.map_append]
    exact hapart

private theorem view_writeAsync (h : s.Apart) (data : Bytes) (callback : Bool) (spare : Nat) :
    view (s.writeAsync (arrays WalEntry) data callback spare) =
        (view s).writeAsync (values WalEntry) data callback spare ∧
      (s.writeAsync (arrays WalEntry) data callback spare).Apart := by
  obtain ⟨hapart, hread, hothers⟩ :=
    Slice.Apart.append h (⟨s.log.appended.length, data, callback⟩ : WalEntry) spare
  refine ⟨?_, hapart⟩
  have hflights := map_viewFlight_congr hothers
  unfold view writeAsync
  dsimp only
  rw [hread]
  congr 1

private theorem view_write (s : AsyncWALWriter (List (List WalEntry)) Slice W) (o : Flusher) (input : I) :
    view (s.write (arrays WalEntry) wal o input) = (view s).write (values WalEntry) wal o input := by
  have hfind : flightOf (view s).flights o = (flightOf s.flights o).map (viewFlight s.mem) := flightOf_view ..
  unfold write
  rw [hfind]
  cases hf : flightOf s.flights o with
  | none => rfl
  | some f =>
    obtain ⟨owner, slice, stage⟩ := f
    cases stage with
    | calling err done => rfl
    | writing =>
      dsimp only [Option.map_some, viewFlight, values]
      have hstage := fun stage => setStage_view s.mem s.flights o stage
      split
      · unfold view
        dsimp only
        rw [hstage]
      · unfold view
        dsimp only
        rw [hstage]

private theorem view_callback (s : AsyncWALWriter (List (List WalEntry)) Slice W) (o : Flusher) :
    view (s.callback (arrays WalEntry) o) = (view s).callback (values WalEntry) o := by
  have hfind : flightOf (view s).flights o = (flightOf s.flights o).map (viewFlight s.mem) := flightOf_view ..
  unfold callback
  rw [hfind]
  cases hf : flightOf s.flights o with
  | none => rfl
  | some f =>
    obtain ⟨owner, slice, stage⟩ := f
    cases stage with
    | writing => rfl
    | calling err done =>
      dsimp only [Option.map_some, viewFlight, values]
      split
      · unfold view
        dsimp only
        rw [setStage_view]
      · unfold view
        dsimp only
        rw [List.filter_map]
        rfl

/-- The slices of the running flushes are those from before. -/
private theorem Apart.of_entries {t : AsyncWALWriter (List (List WalEntry)) Slice W} (h : s.Apart)
    (hmem : t.mem = s.mem) (hbuffer : t.buffer = s.buffer)
    (hflights : ∀ x ∈ t.flights.map Flight.entries, x ∈ s.flights.map Flight.entries) : t.Apart := by
  unfold Apart
  rw [hmem, hbuffer]
  exact ⟨h.valid, fun x hx => h.apart x (hflights x hx)⟩

private theorem apart_write (h : s.Apart) (o : Flusher) (input : I) :
    (s.write (arrays WalEntry) wal o input).Apart := by
  unfold write
  split
  · dsimp only
    split <;> exact h.of_entries rfl rfl fun x hx => by rwa [entries_setStage] at hx
  · exact h

private theorem apart_callback (h : s.Apart) (o : Flusher) : (s.callback (arrays WalEntry) o).Apart := by
  unfold callback
  split
  · dsimp only
    split
    · exact h.of_entries rfl rfl fun x hx => by rwa [entries_setStage] at hx
    · exact h.of_entries rfl rfl fun x hx => List.map_subset _ (List.filter_subset_self _) hx
  · exact h

/-- A step on slices is the step on values, as long as the flushes are apart from the buffer, and then they stay
so. -/
theorem view_step (h : s.Apart) (e : Event I) :
    view (s.step (arrays WalEntry) wal e) = (view s).step (values WalEntry) wal e ∧
      (s.step (arrays WalEntry) wal e).Apart := by
  cases e with
  | writeAsync data callback spare => exact view_writeAsync h data callback spare
  | signal =>
    simp only [step, signal]
    split
    · exact ⟨(if_pos ‹_›).symm, h⟩
    · exact ⟨(if_neg ‹_›).symm, h⟩
  | flush t =>
    have hfind : flightOf (view s).flights (.caller t) = (flightOf s.flights (.caller t)).map (viewFlight s.mem) :=
      flightOf_view ..
    simp only [step, flush, hfind, Option.isSome_map]
    split
    · exact ⟨rfl, h⟩
    · split
      · exact ⟨(if_pos ‹_›).symm, h⟩
      · obtain ⟨hview, hapart⟩ := view_takeBuffer h (.caller t)
        exact ⟨hview.trans (if_neg ‹_›).symm, hapart⟩
  | select arm => exact ⟨rfl, h⟩
  | flushFromBuffer =>
    have hloop : (view s).loop = s.loop := rfl
    simp only [step, flushFromBuffer, hloop]
    split
    · split
      · exact ⟨(if_pos ‹_›).symm, h⟩
      · obtain ⟨hview, hapart⟩ := view_takeBuffer h .loop
        refine ⟨Eq.trans ?_ (if_neg ‹_›).symm, hapart⟩
        rw [← hview]
        rfl
    · exact ⟨rfl, h⟩
  | write o input => exact ⟨view_write s o input, apart_write h o input⟩
  | callback o => exact ⟨view_callback s o, apart_callback h o⟩
  | close =>
    have hclosing : (view s).closing = s.closing := rfl
    simp only [step, close, hclosing]
    split <;> exact ⟨rfl, h⟩
  | closeWal =>
    have hclosing : (view s).closing = s.closing := rfl
    have hloop : (view s).loop = s.loop := rfl
    simp only [step, closeWal, hclosing, hloop]
    split <;> exact ⟨rfl, h⟩

/-- Whatever happens, the writer on slices is the writer on values. -/
theorem view_exec (h : s.Apart) (es : List (Event I)) :
    view (Run.exec (step (arrays WalEntry) wal) s es) = Run.exec (step (values WalEntry) wal) (view s) es := by
  induction es generalizing s with
  | nil => rfl
  | cons e es ih =>
    obtain ⟨hview, hapart⟩ := @view_step W I wal s h e
    rw [Run.exec_cons, Run.exec_cons, ← hview]
    exact ih hapart

theorem apart_new (maxBatchSize : Nat) (w : W) : (newAsyncWALWriter maxBatchSize w).Apart :=
  ⟨⟨Nat.one_pos, Nat.zero_le _⟩, fun _ h => absurd h List.not_mem_nil⟩

/-- What is said of the writer on slices along a run, is said of the writer on values. -/
theorem admits_view {ok : AsyncWALWriter (List (List WalEntry)) Slice W → Event I → Prop}
    {ok' : AsyncWALWriter Unit (List WalEntry) W → Event I → Prop} (hok : ∀ s e, s.Apart → (ok s e ↔ ok' (view s) e))
    (maxBatchSize : Nat) (w : W) (es : List (Event I)) :
    Run.Admits (step (arrays WalEntry) wal) ok (newAsyncWALWriter maxBatchSize w) es ↔
      Run.Admits (step (values WalEntry) wal) ok' (start () [] maxBatchSize w) es := by
  have hinv : ∀ (s : AsyncWALWriter (List (List WalEntry)) Slice W) (e : Event I), s.Apart → True →
      (s.step (arrays WalEntry) wal e).Apart := fun s e h _ => (view_step h e).2
  have habs : ∀ (s : AsyncWALWriter (List (List WalEntry)) Slice W) (e : Event I), s.Apart → True →
      view (s.step (arrays WalEntry) wal e) = Run.exec (step (values WalEntry) wal) (view s) [e] :=
    fun s e h _ => (view_step h e).1
  have hadmits : ∀ (s : AsyncWALWriter (List (List WalEntry)) Slice W) (e : Event I), s.Apart → True →
      (ok s e ↔ Run.Admits (step (values WalEntry) wal) ok' (view s) [e]) :=
    fun s e h _ => (hok s e h).trans (and_iff_left trivial).symm
  have hes : ∀ e ∈ es, (fun _ : Event I => True) e := fun _ _ => trivial
  have hrun := Run.exec_translate hinv habs hadmits (apart_new maxBatchSize w) hes
  rw [Run.translate_self] at hrun
  exact hrun.2.2

end View

end AsyncWALWriter

end DistributedBloomFilter
