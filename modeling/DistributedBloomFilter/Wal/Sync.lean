import DistributedBloomFilter.Basic
import DistributedBloomFilter.Lib.Handover
import DistributedBloomFilter.Lib.Keyed
import Mathlib.Data.List.Flatten

/-!
# The batching writer

`SyncWALWriter` of `internal/wal/async_wal.go`.  `Write` puts the record into a buffer and calls `Flush` when the
buffer is full; `Flush` takes the whole buffer and hands its records to `WALWriter.Write` one by one, stopping at the
first error.  `Close` is that of the embedded `WALWriter`.

`step` is the interleaving of any number of goroutines, with the critical sections under `s.mu` and the calls of
`WALWriter.Write` as steps; `write` and `flush` are whole calls, and `exec_write` and `exec_flush` say that they are
what one goroutine does by itself.  The buffer is copied before it is used again, as that of the asynchronous writer
is, and is a value here.
-/

namespace DistributedBloomFilter

open Run (exec Admits)

/-- A record: its place in the order of the appends, which is not data of the program, and its payload. -/
structure SyncRecord where
  number : Nat
  data : Bytes
deriving DecidableEq, Repr

/-- A `Flush` that has taken the buffer: its goroutine, the record of the `Write` that called it, if one did, and the
records it has still to write. -/
structure SyncFlush where
  owner : Nat
  caller : Option SyncRecord
  rest : List SyncRecord
deriving DecidableEq, Repr

/-- `due` are the goroutines in `Write` that are about to call `Flush`.  The file is the records for which
`WALWriter.Write` returned nil.  The records appended, those taken from the buffer, and those whose `Write` has
returned nil are not data of the program. -/
structure SyncWALWriter where
  maxSize : Nat
  buffer : List SyncRecord
  due : List (Nat × SyncRecord)
  flushes : List SyncFlush
  file : List SyncRecord
  appended : List SyncRecord
  taken : List SyncRecord
  accepted : List SyncRecord
deriving DecidableEq, Repr

namespace SyncWALWriter

inductive Event where
  /-- the critical section of `Write` -/
  | append (t : Nat) (data : Bytes)
  /-- the critical section of `Flush`, called by `Write` or from outside -/
  | swap (t : Nat)
  /-- a call of `WALWriter.Write` in the loop of `Flush`, with its error -/
  | write (t : Nat) (err : Option String)
deriving DecidableEq, Repr

def newSyncWALWriter (maxBatchSize : Nat) : SyncWALWriter :=
  { maxSize := maxBatchSize, buffer := [], due := [], flushes := [], file := [], appended := [], taken := [],
    accepted := [] }

section Model

variable (s : SyncWALWriter)

/-- The next record to be appended. -/
def nextRecord (data : Bytes) : SyncRecord := ⟨s.appended.length, data⟩

def flushOf (t : Nat) : Option SyncFlush := s.flushes.find? fun f => f.owner = t

/-- The record is put into the buffer. -/
def push (data : Bytes) : SyncWALWriter :=
  { s with buffer := s.buffer ++ [s.nextRecord data], appended := s.appended ++ [s.nextRecord data] }

/-- The critical section of `Write`; a `Write` that need not flush returns nil after it. -/
def append (t : Nat) (data : Bytes) : SyncWALWriter :=
  if (s.flushOf t).isSome ∨ (s.due.lookup t).isSome then s
  else
    let s' := s.push data
    if s'.buffer.length ≥ s'.maxSize then { s' with due := s.due ++ [(t, s.nextRecord data)] }
    else { s' with accepted := s.accepted ++ [s.nextRecord data] }

/-- The critical section of `Flush`, which returns nil when there is nothing in the buffer. -/
def swap (t : Nat) : SyncWALWriter :=
  if (s.flushOf t).isSome then s
  else
    let caller := s.due.lookup t
    let s' := { s with due := s.due.filter fun d => d.1 ≠ t }
    if s.buffer.length = 0 then { s' with accepted := s.accepted ++ caller.toList }
    else
      { s' with
        buffer := []
        taken := s.taken ++ s.buffer
        flushes := s.flushes ++ [⟨t, caller, s.buffer⟩] }

/-- The next record of a running `Flush`, which returns after its last one or after an error. -/
def writeNext (t : Nat) (err : Option String) : SyncWALWriter :=
  match s.flushOf t with
  | some ⟨_, caller, d :: ds⟩ =>
    match err with
    | some _ => { s with flushes := s.flushes.filter fun f => f.owner ≠ t }
    | none =>
      if ds.length = 0 then
        { s with
          file := s.file ++ [d]
          flushes := s.flushes.filter fun f => f.owner ≠ t
          accepted := s.accepted ++ caller.toList }
      else
        { s with
          file := s.file ++ [d]
          flushes := s.flushes.map fun f => if f.owner = t then { f with rest := ds } else f }
  | _ => s

/-- A step of one goroutine; one that is not at that point does nothing. -/
def step : Event → SyncWALWriter
  | .append t data => s.append t data
  | .swap t => s.swap t
  | .write t err => s.writeNext t err

/-! ### Whole calls -/

/-- The loop of `Flush` over the records it has taken.  `fault` is the call of `WALWriter.Write` that fails, counted
from the first record on, and its error. -/
def writeRecords (file : List SyncRecord) : Option (Nat × String) → List SyncRecord → List SyncRecord × Option String
  | _, [] => (file, none)
  | some (0, err), _ :: _ => (file, some err)
  | some (n + 1, err), d :: ds => writeRecords (file ++ [d]) (some (n, err)) ds
  | none, d :: ds => writeRecords (file ++ [d]) none ds

def flush (fault : Option (Nat × String)) : SyncWALWriter × Option String :=
  if s.buffer.length = 0 then (s, none)
  else
    let r := writeRecords s.file fault s.buffer
    ({ s with buffer := [], taken := s.taken ++ s.buffer, file := r.1 }, r.2)

def write (data : Bytes) (fault : Option (Nat × String)) : SyncWALWriter × Option String :=
  let s' := s.push data
  let r := if s'.buffer.length ≥ s'.maxSize then s'.flush fault else (s', none)
  -- the record is accepted when the call returns nil
  ({ r.1 with accepted := if r.2 = none then s.accepted ++ [s.nextRecord data] else s.accepted }, r.2)

end Model

/-- `Close` of the embedded `WALWriter`, which knows nothing of the buffer; `err` is the error of closing the file. -/
def close (s : SyncWALWriter) (err : Option String) : SyncWALWriter × Option String := (s, err)

/-- A call, with the call of `WALWriter.Write` in it that fails. -/
inductive Call where
  | write (data : Bytes) (fault : Option (Nat × String))
  | flush (fault : Option (Nat × String))
deriving DecidableEq, Repr

def call (s : SyncWALWriter) : Call → SyncWALWriter
  | .write data fault => (s.write data fault).1
  | .flush fault => (s.flush fault).1

variable {s : SyncWALWriter}

theorem length_push (s : SyncWALWriter) (data : Bytes) : (s.push data).buffer.length = s.buffer.length + 1 :=
  List.length_append

theorem push_ne_nil (s : SyncWALWriter) (data : Bytes) : (s.push data).buffer ≠ [] :=
  List.append_ne_nil_of_right_ne_nil _ (List.cons_ne_nil _ _)

theorem flush_of_ne_nil (hne : s.buffer ≠ []) (fault : Option (Nat × String)) :
    s.flush fault =
      ({ s with buffer := [], taken := s.taken ++ s.buffer, file := (writeRecords s.file fault s.buffer).1 },
        (writeRecords s.file fault s.buffer).2) := by
  unfold flush
  rw [if_neg fun hlen => hne (List.eq_nil_of_length_eq_zero hlen)]

/-- A `Write` that fills the buffer. -/
theorem write_of_full {data : Bytes} (hfull : s.buffer.length + 1 ≥ s.maxSize) (fault : Option (Nat × String)) :
    s.write data fault =
      ({ ((s.push data).flush fault).1 with
          accepted := if ((s.push data).flush fault).2 = none then s.accepted ++ [s.nextRecord data]
            else s.accepted },
        ((s.push data).flush fault).2) := by
  unfold write
  dsimp only
  rw [if_pos (by rw [length_push]; exact hfull)]

/-- A `Write` that does not. -/
theorem write_of_not_full {data : Bytes} (hfull : ¬ s.buffer.length + 1 ≥ s.maxSize) (fault : Option (Nat × String)) :
    s.write data fault = ({ s.push data with accepted := s.accepted ++ [s.nextRecord data] }, none) := by
  unfold write
  dsimp only
  rw [if_neg (by rw [length_push]; exact hfull)]
  rfl

/-! ### Calls by one goroutine -/

section Alone

/-- The events of the loop of a `Flush` over `n` records. -/
def writeEvents (t : Nat) : Option (Nat × String) → Nat → List Event
  | _, 0 => []
  | some (0, err), _ + 1 => [.write t (some err)]
  | some (i + 1, err), n + 1 => .write t none :: writeEvents t (some (i, err)) n
  | none, n + 1 => .write t none :: writeEvents t none n

/-- The events of a call. -/
def callEvents (t : Nat) (s : SyncWALWriter) : Call → List Event
  | .write data fault =>
    .append t data ::
      if s.buffer.length + 1 ≥ s.maxSize then .swap t :: writeEvents t fault (s.buffer.length + 1) else []
  | .flush fault => .swap t :: writeEvents t fault s.buffer.length

/-- No call is running. -/
def Idle (s : SyncWALWriter) : Prop := s.due = [] ∧ s.flushes = []

private theorem exec_writeEvents {t : Nat} {caller : Option SyncRecord} {ds : List SyncRecord} (hds : ds ≠ [])
    (fault : Option (Nat × String)) (h : s.flushes = [⟨t, caller, ds⟩]) :
    exec step s (writeEvents t fault ds.length) =
      { s with
        file := (writeRecords s.file fault ds).1
        flushes := []
        accepted := s.accepted ++ if (writeRecords s.file fault ds).2 = none then caller.toList else [] } := by
  induction ds generalizing s fault with
  | nil => exact absurd rfl hds
  | cons d ds ih =>
    have hof : s.flushOf t = some ⟨t, caller, d :: ds⟩ := by
      simp [flushOf, h]
    have hfilter : (s.flushes.filter fun f => f.owner ≠ t) = [] := by
      rw [h]
      simp
    have hok : ds ≠ [] → s.step (.write t none) = { s with file := s.file ++ [d], flushes := [⟨t, caller, ds⟩] } := by
      intro hne
      have hlen : ds.length ≠ 0 := fun hlen => hne (List.eq_nil_of_length_eq_zero hlen)
      simp only [step, writeNext, hof, if_neg hlen]
      rw [h]
      simp
    have hlast : ds = [] → s.step (.write t none) =
        { s with file := s.file ++ [d], flushes := [], accepted := s.accepted ++ caller.toList } := by
      rintro rfl
      simp only [step, writeNext, hof, hfilter, List.length_nil, if_true]
    rcases fault with _ | ⟨_ | i, err⟩
    · show exec step (s.step (.write t none)) (writeEvents t none ds.length) = _
      by_cases hne : ds = []
      · rw [hlast hne]
        subst hne
        rfl
      · rw [hok hne, ih hne none rfl]
        rfl
    · -- the write fails, and `Flush` returns
      show s.step (.write t (some err)) = _
      simp only [step, writeNext, hof, hfilter]
      exact congrArg (fun accepted => { s with flushes := [], accepted := accepted })
        (List.append_nil s.accepted).symm
    · show exec step (s.step (.write t none)) (writeEvents t (some (i, err)) ds.length) = _
      by_cases hne : ds = []
      · rw [hlast hne]
        subst hne
        rfl
      · rw [hok hne, ih hne _ rfl]
        rfl

/-- The critical section of a `Flush` that finds records, and its loop. -/
private theorem exec_swap {t : Nat} (hflushes : s.flushes = []) (hdue : (s.due.filter fun d => d.1 ≠ t) = [])
    (hne : s.buffer ≠ []) (fault : Option (Nat × String)) :
    exec step s (.swap t :: writeEvents t fault s.buffer.length) =
      { s with
        due := []
        buffer := []
        taken := s.taken ++ s.buffer
        file := (writeRecords s.file fault s.buffer).1
        accepted := s.accepted ++
          if (writeRecords s.file fault s.buffer).2 = none then (s.due.lookup t).toList else [] } := by
  have hlen : s.buffer.length ≠ 0 := fun hlen => hne (List.eq_nil_of_length_eq_zero hlen)
  have hswap : s.step (.swap t) =
      { s with
        due := []
        buffer := []
        taken := s.taken ++ s.buffer
        flushes := [⟨t, s.due.lookup t, s.buffer⟩] } := by
    simp only [step, swap, flushOf, hflushes, List.find?_nil, Option.isSome_none, Bool.false_eq_true, if_false, hdue,
      if_neg hlen, List.nil_append]
  rw [Run.exec_cons, hswap, exec_writeEvents hne fault rfl, hflushes]

/-- A `Flush` called from outside is its critical section and its loop. -/
theorem exec_flush (h : s.Idle) (t : Nat) (fault : Option (Nat × String)) :
    exec step s (callEvents t s (.flush fault)) = (s.flush fault).1 := by
  obtain ⟨hdue, hflushes⟩ := h
  unfold callEvents flush
  by_cases hne : s.buffer = []
  · have hlen : s.buffer.length = 0 := congrArg List.length hne
    have hswap : s.step (.swap t) = s := by
      simp only [step, swap, flushOf, hflushes, List.find?_nil, Option.isSome_none, Bool.false_eq_true,
        if_false, hdue, hlen, if_true, List.filter_nil, List.lookup_nil, Option.toList_none, List.append_nil]
      rw [← hdue, ← hflushes]
    rw [if_pos hlen, hlen, Run.exec_cons, hswap, writeEvents, Run.exec_nil]
  · have hlen : s.buffer.length ≠ 0 := fun hlen => hne (List.eq_nil_of_length_eq_zero hlen)
    rw [if_neg hlen, exec_swap hflushes (by rw [hdue]; rfl) hne, hdue, List.lookup_nil, Option.toList_none, ite_self,
      List.append_nil]

/-- A `Write` is its critical section and the `Flush` it calls. -/
theorem exec_write (h : s.Idle) (t : Nat) (data : Bytes) (fault : Option (Nat × String)) :
    exec step s (callEvents t s (.write data fault)) = (s.write data fault).1 := by
  obtain ⟨hdue, hflushes⟩ := h
  have hidle : ¬ ((s.flushOf t).isSome ∨ (s.due.lookup t).isSome) := by
    simp [flushOf, hflushes, hdue]
  have hlen := length_push s data
  unfold callEvents
  dsimp only
  rw [Run.exec_cons]
  by_cases hfull : s.buffer.length + 1 ≥ s.maxSize
  · have happend : s.step (.append t data) = { s.push data with due := [(t, s.nextRecord data)] } := by
      unfold step append
      dsimp only
      rw [if_neg hidle, if_pos (by rw [hlen]; exact hfull), hdue]
      rfl
    have hrun := exec_swap (s := { s.push data with due := [(t, s.nextRecord data)] }) (t := t) hflushes (by simp)
      (push_ne_nil s data) fault
    have hlookup : [(t, s.nextRecord data)].lookup t = some (s.nextRecord data) := by simp
    dsimp only at hrun
    rw [hlen, hlookup] at hrun
    rw [if_pos hfull, happend, hrun, write_of_full hfull, flush_of_ne_nil (push_ne_nil s data)]
    dsimp only
    have hdue' : (s.push data).due = [] := hdue
    rw [hdue']
    split
    · rfl
    · rw [List.append_nil]
      rfl
  · rw [if_neg hfull, write_of_not_full hfull, Run.exec_nil]
    unfold step append
    dsimp only
    rw [if_neg hidle, if_neg (by rw [hlen]; exact hfull)]

theorem idle_flush (h : s.Idle) (fault : Option (Nat × String)) : (s.flush fault).1.Idle := by
  unfold flush
  split <;> exact h

theorem idle_call (h : s.Idle) (c : Call) : (s.call c).Idle := by
  cases c with
  | write data fault =>
    have hpush : (s.push data).Idle := h
    unfold call write
    dsimp only
    split
    · exact idle_flush hpush fault
    · exact hpush
  | flush fault => exact idle_flush h fault

/-- Calls one after another are a run of a single goroutine. -/
theorem exec_calls (h : s.Idle) (t : Nat) (calls : List Call) :
    exec step s (Run.translate call (callEvents t) s calls) = exec call s calls := by
  induction calls generalizing s with
  | nil => rfl
  | cons c calls ih =>
    have hcall : exec step s (callEvents t s c) = s.call c := by
      cases c with
      | write data fault => exact exec_write h t data fault
      | flush fault => exact exec_flush h t fault
    rw [Run.translate, Run.exec_append, hcall, Run.exec_cons]
    exact ih (idle_call h c)

end Alone

/-! ### Accepted records -/

/-- The first `n` calls of `WALWriter.Write` return nil. -/
def Spares (fault : Option (Nat × String)) (n : Nat) : Prop := ∀ p ∈ fault, n ≤ p.1

theorem writeRecords_of_spares {fault : Option (Nat × String)} {data : List SyncRecord} (h : Spares fault data.length)
    (file : List SyncRecord) : writeRecords file fault data = (file ++ data, none) := by
  induction data generalizing file fault with
  | nil => rw [writeRecords, List.append_nil]
  | cons d ds ih =>
    rcases fault with _ | ⟨_ | i, err⟩
    · rw [writeRecords, ih fun p hp => absurd hp (by simp), List.append_assoc]
      rfl
    · exact absurd (h (0, err) rfl) (Nat.not_succ_le_zero _)
    · have hi : ds.length + 1 ≤ i + 1 := h (i + 1, err) rfl
      have hspares : Spares (some (i, err)) ds.length := by
        rintro p ⟨⟩
        exact Nat.le_of_succ_le_succ hi
      rw [writeRecords, ih hspares, List.append_assoc]
      rfl

theorem writeRecords_of_lt {data : List SyncRecord} {i : Nat} (hi : i < data.length) (err : String)
    (file : List SyncRecord) : writeRecords file (some (i, err)) data = (file ++ data.take i, some err) := by
  induction data generalizing file i with
  | nil => exact absurd hi (Nat.not_lt_zero _)
  | cons d ds ih =>
    cases i with
    | zero => rw [writeRecords, List.take_zero, List.append_nil]
    | succ i =>
      rw [writeRecords, ih (Nat.lt_of_succ_lt_succ hi), List.take_succ_cons, List.append_assoc]
      rfl

/-- The records accepted so far are those in the file and those in the buffer. -/
def Kept (s : SyncWALWriter) : Prop := s.accepted = s.file ++ s.buffer

/-- The first write that fails is the last one of a `Flush` that `Write` called, that of its own record; a `Flush`
from outside has none. -/
def Harmless (s : SyncWALWriter) : Call → Prop
  | .write _ fault => s.buffer.length + 1 ≥ s.maxSize → Spares fault s.buffer.length
  | .flush fault => Spares fault s.buffer.length

/-- A `Flush` keeps the records if no write fails, and loses some otherwise. -/
private theorem file_flush (fault : Option (Nat × String)) :
    (Spares fault s.buffer.length → (s.flush fault).2 = none ∧ (s.flush fault).1.file = s.file ++ s.buffer) ∧
      (∀ i err, fault = some (i, err) → i < s.buffer.length →
        (s.flush fault).2 = some err ∧ (s.flush fault).1.file = s.file ++ s.buffer.take i) ∧
      (s.flush fault).1.buffer = [] ∧ (s.flush fault).1.accepted = s.accepted := by
  unfold flush
  by_cases hne : s.buffer = []
  · have hlen : s.buffer.length = 0 := congrArg List.length hne
    rw [if_pos hlen]
    refine ⟨fun _ => ⟨rfl, ?_⟩, fun i _ _ hi => absurd hi (hlen ▸ Nat.not_lt_zero i), hne, rfl⟩
    rw [hne, List.append_nil]
  · have hlen : s.buffer.length ≠ 0 := fun hlen => hne (List.eq_nil_of_length_eq_zero hlen)
    rw [if_neg hlen]
    refine ⟨fun hspares => ?_, ?_, rfl, rfl⟩
    · dsimp only
      rw [writeRecords_of_spares hspares]
      exact ⟨rfl, rfl⟩
    · rintro i err rfl hi
      dsimp only
      rw [writeRecords_of_lt hi]
      exact ⟨rfl, rfl⟩

private theorem not_spares {fault : Option (Nat × String)} {n : Nat} (h : ¬ Spares fault n) :
    ∃ i err, fault = some (i, err) ∧ i < n := by
  rcases fault with _ | ⟨i, err⟩
  · exact absurd (fun p hp => absurd hp (Option.not_mem_none p)) h
  · refine ⟨i, err, rfl, Nat.lt_of_not_le fun hle => h ?_⟩
    rintro p ⟨⟩
    exact hle

theorem kept_flush_iff (h : s.Kept) (fault : Option (Nat × String)) :
    (s.flush fault).1.Kept ↔ Spares fault s.buffer.length := by
  obtain ⟨hall, hsome, hbuffer, haccepted⟩ := @file_flush s fault
  unfold Kept at h ⊢
  rw [hbuffer, haccepted, List.append_nil, h]
  constructor
  · intro heq
    by_contra hspares
    obtain ⟨i, err, hfault, hi⟩ := not_spares hspares
    rw [(hsome i err hfault hi).2, List.append_cancel_left_eq] at heq
    have hlen := congrArg List.length heq
    rw [List.length_take] at hlen
    omega
  · intro hspares
    exact (hall hspares).2.symm

theorem kept_write_iff (h : s.Kept) (data : Bytes) (fault : Option (Nat × String)) :
    (s.write data fault).1.Kept ↔ (s.buffer.length + 1 ≥ s.maxSize → Spares fault s.buffer.length) := by
  unfold Kept at h ⊢
  by_cases hfull : s.buffer.length + 1 ≥ s.maxSize
  · obtain ⟨hall, hsome, hbuffer, -⟩ := @file_flush (s.push data) fault
    rw [write_of_full hfull]
    dsimp only
    rw [hbuffer, List.append_nil]
    rw [length_push] at hall hsome
    have hfile : (s.push data).file ++ (s.push data).buffer = s.accepted ++ [s.nextRecord data] := by
      rw [h, List.append_assoc]
      rfl
    by_cases hspares : Spares fault (s.buffer.length + 1)
    · -- no write fails
      obtain ⟨hnone, hwritten⟩ := hall hspares
      rw [if_pos hnone, hwritten, hfile]
      exact ⟨fun _ _ p hp => Nat.le_of_succ_le (hspares p hp), fun _ => rfl⟩
    · obtain ⟨i, err, hfault, hi⟩ := not_spares hspares
      obtain ⟨hfail, hwritten⟩ := hsome i err hfault hi
      have htake : (s.push data).buffer.take i = s.buffer.take i :=
        List.take_append_of_le_length (Nat.le_of_lt_succ hi)
      rw [if_neg (by rw [hfail]; exact Option.some_ne_none _), hwritten, htake, h]
      show s.file ++ s.buffer = s.file ++ s.buffer.take i ↔ _
      rw [List.append_cancel_left_eq]
      constructor
      · rintro heq - p hp
        -- the record whose write failed is that of the call
        obtain rfl : (i, err) = p := Option.some.inj (hfault.symm.trans hp)
        have hlen := congrArg List.length heq
        rw [List.length_take] at hlen
        omega
      · intro hall'
        exact (List.take_of_length_le (hall' hfull (i, err) hfault)).symm
  · rw [write_of_not_full hfull]
    refine ⟨fun _ hfull' => absurd hfull' hfull, fun _ => ?_⟩
    show s.accepted ++ [s.nextRecord data] = s.file ++ (s.buffer ++ [s.nextRecord data])
    rw [h, List.append_assoc]

theorem kept_call_iff (h : s.Kept) (c : Call) : (s.call c).Kept ↔ s.Harmless c := by
  cases c with
  | write data fault => exact kept_write_iff h data fault
  | flush fault => exact kept_flush_iff h fault

/-- The records are numbered as they are appended, and those accepted are among them. -/
structure Numbered (s : SyncWALWriter) : Prop where
  numbers : s.appended.map SyncRecord.number = List.range s.appended.length
  accepted : s.accepted.Sublist s.appended

theorem numbers_push (h : s.appended.map SyncRecord.number = List.range s.appended.length) (data : Bytes) :
    (s.push data).appended.map SyncRecord.number = List.range (s.push data).appended.length := by
  show (s.appended ++ [s.nextRecord data]).map _ = List.range (s.appended ++ [s.nextRecord data]).length
  rw [List.map_append, h, List.length_append, List.length_singleton, List.range_succ]
  rfl

theorem nodup_of_numbers (h : s.appended.map SyncRecord.number = List.range s.appended.length) :
    s.appended.Nodup := by
  have hnodup : (s.appended.map SyncRecord.number).Nodup := h ▸ List.nodup_range
  exact hnodup.of_map _

theorem Numbered.push (h : s.Numbered) (data : Bytes) : (s.push data).Numbered where
  numbers := numbers_push h.numbers data
  accepted := h.accepted.trans (List.sublist_append_left _ _)

theorem Numbered.nodup (h : s.Numbered) : s.accepted.Nodup := (nodup_of_numbers h.numbers).sublist h.accepted

private theorem appended_flush (fault : Option (Nat × String)) : (s.flush fault).1.appended = s.appended := by
  unfold flush
  split <;> rfl

theorem numbered_call (c : Call) (h : s.Numbered) : (s.call c).Numbered := by
  cases c with
  | flush fault =>
    obtain ⟨-, -, -, haccepted⟩ := @file_flush s fault
    have happended := @appended_flush s fault
    constructor
    · show (s.flush fault).1.appended.map _ = List.range (s.flush fault).1.appended.length
      rw [happended]
      exact h.numbers
    · show (s.flush fault).1.accepted.Sublist (s.flush fault).1.appended
      rw [happended, haccepted]
      exact h.accepted
  | write data fault =>
    have hpush := h.push data
    have hmore : (s.accepted ++ [s.nextRecord data]).Sublist (s.push data).appended :=
      h.accepted.append_right [s.nextRecord data]
    unfold call
    by_cases hfull : s.buffer.length + 1 ≥ s.maxSize
    · have happended := @appended_flush (s.push data) fault
      dsimp only
      rw [write_of_full hfull]
      constructor
      · dsimp only
        rw [happended]
        exact hpush.numbers
      · dsimp only
        rw [happended]
        split
        · exact hmore
        · exact hpush.accepted
    · dsimp only
      rw [write_of_not_full hfull]
      exact ⟨hpush.numbers, hmore⟩

/-- No accepted record is lost as long as a write fails only for the record of the very `Write` that called `Flush`,
and `Close` finds the buffer empty; and only then. -/
theorem kept_iff_harmless (maxBatchSize : Nat) (calls : List Call) (err : Option String) :
    ((∀ before after, calls = before ++ after → (exec call (newSyncWALWriter maxBatchSize) before).Kept) ∧
      (((exec call (newSyncWALWriter maxBatchSize) calls).close err).2 = none →
        ∀ r ∈ ((exec call (newSyncWALWriter maxBatchSize) calls).close err).1.accepted,
          r ∈ ((exec call (newSyncWALWriter maxBatchSize) calls).close err).1.file)) ↔
    Admits call Harmless (newSyncWALWriter maxBatchSize) calls ∧
      (err = none → (exec call (newSyncWALWriter maxBatchSize) calls).buffer = []) := by
  have hkept : (newSyncWALWriter maxBatchSize).Kept := rfl
  have hruns : (∀ before after, calls = before ++ after → (exec call (newSyncWALWriter maxBatchSize) before).Kept) ↔
      Admits call Harmless (newSyncWALWriter maxBatchSize) calls := by
    have hstep : ∀ (s : SyncWALWriter) (c : Call), s.Kept → ((s.call c).Kept ↔ s.Harmless c) :=
      fun _ c hs => kept_call_iff hs c
    exact Run.forall_exec_iff_admits hstep hkept
  rw [← hruns]
  refine and_congr_right fun hall => imp_congr_right fun _ => ?_
  have hlast : (exec call (newSyncWALWriter maxBatchSize) calls).Kept := hall calls [] (List.append_nil _).symm
  have hnumbered : (exec call (newSyncWALWriter maxBatchSize) calls).Numbered :=
    Run.keeps (fun _ c hs => numbered_call c hs) ⟨rfl, .refl _⟩ calls
  generalize exec call (newSyncWALWriter maxBatchSize) calls = s at hlast hnumbered
  show (∀ r ∈ s.accepted, r ∈ s.file) ↔ s.buffer = []
  have hnodup := hnumbered.nodup
  unfold Kept at hlast
  rw [hlast, List.nodup_append] at hnodup
  rw [hlast]
  constructor
  · -- what is in the buffer is not in the file
    intro hfile
    refine List.eq_nil_iff_forall_not_mem.2 fun r hr => ?_
    exact hnodup.2.2 r (hfile r (List.mem_append_right _ hr)) r hr rfl
  · intro hnil r hr
    rwa [hnil, List.append_nil] at hr

/-- Batches of two: the first of two records is lost when its write fails, though its `Write` had returned nil, and a
single record is lost when the log is closed. -/
theorem not_kept_first_of_two :
    ((newSyncWALWriter 2).write [97] none).2 = none ∧
      (exec call (newSyncWALWriter 2) [.write [97] none, .write [98] (some (0, "disk full"))]).accepted =
        [⟨0, [97]⟩] ∧
      (exec call (newSyncWALWriter 2) [.write [97] none, .write [98] (some (0, "disk full"))]).file = [] ∧
      (exec call (newSyncWALWriter 2) [.write [97] none, .write [98] (some (0, "disk full"))]).buffer = [] ∧
      ((exec call (newSyncWALWriter 2) [.write [97] none]).close none).2 = none ∧
      ((exec call (newSyncWALWriter 2) [.write [97] none]).close none).1.accepted = [⟨0, [97]⟩] ∧
      ((exec call (newSyncWALWriter 2) [.write [97] none]).close none).1.file = [] := by
  decide

end SyncWALWriter

end DistributedBloomFilter
