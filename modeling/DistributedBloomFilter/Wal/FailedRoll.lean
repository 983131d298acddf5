import DistributedBloomFilter.Wal.Reader
import DistributedBloomFilter.Wal.Writer

/-!
# A roll that fails

`doRollFile` closes the current file before it opens the next one.  When the opening fails, the writer is left with
the closed file: whether a later `Write` rolls again or not, it closes or writes a file that is closed, and returns an
error.  Nothing but a new writer on the directory writes to the log again.
-/

namespace DistributedBloomFilter

open Run (exec)

/-- A call of `Write`, with the encryptor as it is then and all that the call meets. -/
structure WriteCall where
  enc : WALEncryptor
  io : Faults
  now : Time
  later : Time
  rand : Except String (BytesN 12)
  data : Bytes

namespace WriteCall

variable (aead : Aead)

/-- The call on a writer and its directory. -/
def outcome (s : WALWriter × Dir) (call : WriteCall) : Outcome :=
  s.1.write aead call.enc s.2 call.io call.now call.later call.rand call.data

/-- The writer and its directory after the call. -/
def step (s : WALWriter × Dir) (call : WriteCall) : WALWriter × Dir :=
  ((call.outcome aead s).writer, (call.outcome aead s).dir)

/-- The call rolls, closes the current file and fails to open the new one. -/
def OpeningFails (w : WALWriter) (call : WriteCall) : Prop :=
  w.fileOpen = true ∧ call.io.close = none ∧ call.io.openFile ≠ none ∧
    ∃ encrypted, call.enc.encrypt aead call.rand call.data = .ok encrypted ∧ w.NeedRoll call.now encrypted

/-- After some further calls there is one that returns nil, and `ReadAll` returns its payload. -/
def Recovers (s : WALWriter × Dir) : Prop :=
  ∃ (calls : List WriteCall) (call : WriteCall),
    (call.outcome aead (exec (step aead) s calls)).err = none ∧
    ∃ results, readAll aead call.enc (call.outcome aead (exec (step aead) s calls)).dir = .ok results ∧
      call.data ∈ results

variable {aead}

/-- The file is closed, the number has been counted up and no file was made. -/
theorem step_of_openingFails {w : WALWriter} {call : WriteCall} (h : OpeningFails aead w call) (dir : Dir) :
    step aead (w, dir) call = ({ w with fileOpen := false, currentIndex := w.currentIndex + 1 }, dir) := by
  obtain ⟨hopen, hclose, hfault, encrypted, henc, hroll⟩ := h
  obtain ⟨err, herr⟩ := Option.ne_none_iff_exists'.1 hfault
  have hrolled : w.doRollFile dir call.io call.later =
      ⟨{ w with fileOpen := false, currentIndex := w.currentIndex + 1 }, dir, some (.error err)⟩ := by
    rw [WALWriter.doRollFile, if_neg (by rw [hopen]; decide), hclose]
    simp only [WALWriter.openCurrentFile, herr]
  simp only [step, outcome, WALWriter.write, henc, if_pos hroll, hrolled]

/-- A writer whose file is closed stays as it is, and so do the files. -/
theorem exec_of_closed {s : WALWriter × Dir} (hclosed : s.1.fileOpen = false) (calls : List WriteCall) :
    exec (step aead) s calls = s := by
  have hstep : ∀ (t : WALWriter × Dir) (call : WriteCall), t = s → step aead t call = s := by
    rintro t call rfl
    obtain ⟨err, herr⟩ :=
      WALWriter.write_closed hclosed aead call.enc t.2 call.io call.now call.later call.rand call.data
    rw [step, outcome, herr]
  exact Run.keeps hstep rfl calls

/-- No later `Write` succeeds once a roll has failed to open its file. -/
theorem not_recovers_of_openingFails {w : WALWriter} {call : WriteCall} (h : OpeningFails aead w call) (dir : Dir) :
    ¬ Recovers aead (step aead (w, dir) call) := by
  rintro ⟨calls, next, hnil, -⟩
  rw [step_of_openingFails h, exec_of_closed rfl] at hnil
  obtain ⟨err, herr⟩ := WALWriter.write_closed (w := { w with fileOpen := false, currentIndex := w.currentIndex + 1 })
    rfl aead next.enc dir next.io next.now next.later next.rand next.data
  rw [outcome, herr] at hnil
  cases hnil

/-! ### A writer that rolls at every record -/

def rollingWriter : WALWriter where
  config := { maxFileSize := 0, rollingInterval := 1000, maxFiles := 2 }
  currentName := walFileName 1
  fileOpen := true
  currentSize := 0
  currentTime := 0
  currentIndex := 1

def emptyLog : Dir := [{ name := walFileName 1, data := [], modTime := 0 }]

example : newWALWriterWithConfig [] rollingWriter.config .none 0 = .ok (rollingWriter, emptyLog) := by decide +kernel

/-- The call of a time at which no file can be opened. -/
def outOfFiles : WriteCall where
  enc := KeyRun.secretEncryptor
  io := { Faults.none with openFile := some "too many open files" }
  now := 1
  later := 1
  rand := KeyRun.randomNonce
  data := [97]

/-- The same call when files can be opened again. -/
def outOfFilesAgain : WriteCall := { outOfFiles with io := .none }

theorem not_recovers_rollingWriter :
    OpeningFails AesGcm.aead rollingWriter outOfFiles ∧
      ¬ Recovers AesGcm.aead (step AesGcm.aead (rollingWriter, emptyLog) outOfFiles) := by
  have h : OpeningFails AesGcm.aead rollingWriter outOfFiles := by
    refine ⟨rfl, rfl, by decide, ?_⟩
    cases henc : outOfFiles.enc.encrypt AesGcm.aead outOfFiles.rand outOfFiles.data with
    | error err => cases henc
    | ok encrypted =>
      refine ⟨encrypted, rfl, .inl ?_⟩
      have := (Seals.of_encrypt henc).length_eq
      show (0 : Int) + encrypted.length > 0
      omega
  exact ⟨h, not_recovers_of_openingFails h emptyLog⟩

/-- With nothing wrong any more, the second call and the third one fail to close the file that is closed. -/
theorem closed_after_outOfFiles :
    (outOfFiles.outcome AesGcm.aead (rollingWriter, emptyLog)).err = some (.error "too many open files") ∧
    (outOfFilesAgain.outcome AesGcm.aead (exec (step AesGcm.aead) (rollingWriter, emptyLog) [outOfFiles])).err =
      some (.error "close 000001.wal.enc: file already closed") ∧
    (outOfFilesAgain.outcome AesGcm.aead
        (exec (step AesGcm.aead) (rollingWriter, emptyLog) [outOfFiles, outOfFilesAgain])).err =
      some (.error "close 000001.wal.enc: file already closed") ∧
    readAll AesGcm.aead KeyRun.secretEncryptor (exec (step AesGcm.aead) (rollingWriter, emptyLog)
        [outOfFiles, outOfFilesAgain, outOfFilesAgain]).2 = .ok [] := by
  decide +kernel

end WriteCall

end DistributedBloomFilter
