import DistributedBloomFilter.Basic
import DistributedBloomFilter.Lib.CivilTime
import DistributedBloomFilter.Lib.Contents
import DistributedBloomFilter.Lib.Run

/-!
# The audit logger and its rotation

`internal/audit/logger.go`.  The logger appends one line for every event to its current file.  When that file has
reached its size, `rotateLog` renames it to a name made of the time in seconds and opens a new file under the old
name. Nothing looks whether there is a file of that name already: a second rotation within one second replaces the
file that the first one left, with all its events.  The exception is the second in which the logger was opened, when
the file is renamed to itself.

A directory is a table of files, each a list of lines.  A rotation takes out exactly the lines of the file it
replaces, so nothing is lost in a run if and only if every rotation finds nothing at its target (`kept_iff_spares`).
-/

namespace DistributedBloomFilter

open Contents (contents listAt)

namespace Audit

/-! ### Files -/

/-- The log directory: the lines of every file. -/
abbrev LogDir := AList fun _ : String => List Bytes

namespace LogDir

/-- `os.OpenFile` for appending, which creates the file if it is not there. -/
def openAppend (d : LogDir) (name : String) : LogDir := if name ∈ d then d else d.insert name []

def write (d : LogDir) (name : String) (line : Bytes) : LogDir := d.insert name (listAt d name ++ [line])

/-- `os.Rename`, which replaces a target that is there; `none` when there is no such file. -/
def rename (d : LogDir) (oldName newName : String) : Option LogDir :=
  match d.lookup oldName with
  | none => none
  | some lines => some (if oldName = newName then d else (d.erase oldName).insert newName lines)

variable {d : LogDir} {name : String}

theorem contents_openAppend (d : LogDir) (name : String) : contents (d.openAppend name) = contents d := by
  unfold openAppend
  split
  · rfl
  · rename_i hname
    have herase : d.erase name = d := AList.ext (List.kerase_of_notMem_keys hname)
    rw [Contents.contents_insert, herase]
    exact zero_add _

theorem mem_openAppend (d : LogDir) (name : String) : name ∈ d.openAppend name := by
  unfold openAppend
  split
  · assumption
  · exact (AList.mem_insert d).2 (.inl rfl)

theorem contents_write (d : LogDir) (name : String) (line : Bytes) :
    contents (d.write name line) = contents d + {line} :=
  Contents.contents_insert_append d name [line]

/-- A file that is there can be renamed; what is lost is what was in the target. -/
theorem rename_spec {oldName : String} (h : oldName ∈ d) (newName : String) :
    ∃ d', d.rename oldName newName = some d' ∧
      contents d = (if oldName = newName then 0 else ↑(listAt d newName)) + contents d' := by
  obtain ⟨lines, hlookup⟩ := Option.isSome_iff_exists.1 (AList.lookup_isSome.2 h)
  have hlines : listAt d oldName = lines := by rw [listAt, hlookup]; rfl
  unfold rename
  rw [hlookup]
  refine ⟨_, rfl, ?_⟩
  split
  · exact (zero_add _).symm
  · rename_i hne
    rw [Contents.contents_insert, Contents.contents_eq_add_erase d oldName, hlines,
      Contents.contents_eq_add_erase (d.erase oldName) newName, Contents.listAt_erase_of_ne d oldName (Ne.symm hne),
      add_left_comm]

end LogDir

/-! ### The logger -/

def DefaultLogDir : String := "logs/audit"

def DefaultMaxFileSize : Int := 10 * 1024 * 1024

/-- Thirty days, in nanoseconds. -/
def DefaultMaxAge : Int := 30 * 24 * 3600 * 1000000000

def DefaultBufferSize : Int := 1000

/-- Five seconds. -/
def DefaultFlushInterval : Int := 5 * 1000000000

structure LoggerConfig where
  logDir : String
  maxFileSize : Int
  maxAge : Int
  bufferSize : Int
  flushInterval : Int
deriving DecidableEq, Repr

/-- The defaults of `NewLogger`. -/
def LoggerConfig.withDefaults (config : LoggerConfig) : LoggerConfig where
  logDir := if config.logDir = "" then DefaultLogDir else config.logDir
  maxFileSize := if config.maxFileSize ≤ 0 then DefaultMaxFileSize else config.maxFileSize
  maxAge := if config.maxAge ≤ 0 then DefaultMaxAge else config.maxAge
  bufferSize := if config.bufferSize ≤ 0 then DefaultBufferSize else config.bufferSize
  flushInterval := if config.flushInterval ≤ 0 then DefaultFlushInterval else config.flushInterval

/-- The logger with its directory; `currentFile` is the file of the name `currentPath`. -/
structure Logger where
  config : LoggerConfig
  dir : LogDir
  currentPath : String
  currentSize : Nat

section Logger

variable {Event : Type} (timestamp : Time → String) (marshal : Event → Except String Bytes)

/-- The name of a log file; all of them are in the directory of the configuration. -/
def logPath (now : Time) : String := "audit_" ++ timestamp now ++ ".log"

/-- `openLogFile` of a new logger; `timestamp` is the layout `20060102_150405` in the zone of the machine. -/
def openLogFile (config : LoggerConfig) (dir : LogDir) (now : Time) : Logger :=
  let path := logPath timestamp now
  { config := config, dir := dir.openAppend path, currentPath := path, currentSize := 0 }

def newLogger (config : LoggerConfig) (dir : LogDir) (now : Time) : Logger :=
  openLogFile timestamp config.withDefaults dir now

namespace Logger

def rotateLog (l : Logger) (now : Time) : Except String Logger :=
  let rotatedPath := logPath timestamp now
  match l.dir.rename l.currentPath rotatedPath with
  | none => .error ("failed to rename log file: rename " ++ l.currentPath ++ " " ++ rotatedPath ++
      ": no such file or directory")
  | some dir => .ok { l with dir := dir.openAppend l.currentPath, currentSize := 0 }

/-- `writeEvent`, with the error it returns. -/
def writeEvent (l : Logger) (now : Time) (event : Event) : Logger × Option String :=
  match (if l.config.maxFileSize ≤ l.currentSize then l.rotateLog timestamp now else .ok l) with
  | .error err => (l, some ("failed to rotate log: " ++ err))
  | .ok l =>
    match marshal event with
    | .error err => (l, some ("failed to marshal event: " ++ err))
    | .ok eventJSON =>
      -- the line ends with a newline
      ({ l with
          dir := l.dir.write l.currentPath eventJSON
          currentSize := l.currentSize + (eventJSON.length + 1) }, none)

/-- The lines that the rotation of this write takes out of the directory: those of the file at its target. -/
def lost (l : Logger) (now : Time) : List Bytes :=
  if l.config.maxFileSize ≤ l.currentSize ∧ l.currentPath ≠ logPath timestamp now then
    listAt l.dir (logPath timestamp now)
  else []

variable {timestamp}

theorem rotateLog_spec {l : Logger} (hcurrent : l.currentPath ∈ l.dir) (now : Time) :
    ∃ l', l.rotateLog timestamp now = .ok l' ∧ l'.currentPath = l.currentPath ∧ l'.currentPath ∈ l'.dir ∧
      contents l.dir =
        (if l.currentPath = logPath timestamp now then 0 else ↑(listAt l.dir (logPath timestamp now))) +
          contents l'.dir := by
  obtain ⟨dir, hrename, hcontents⟩ := LogDir.rename_spec hcurrent (logPath timestamp now)
  unfold rotateLog
  dsimp only
  rw [hrename]
  refine ⟨_, rfl, rfl, LogDir.mem_openAppend dir l.currentPath, ?_⟩
  rw [LogDir.contents_openAppend]
  exact hcontents

/-- The head of `writeEvent`. -/
theorem rotate_spec {l : Logger} (hcurrent : l.currentPath ∈ l.dir) (now : Time) :
    ∃ l', (if l.config.maxFileSize ≤ l.currentSize then l.rotateLog timestamp now else .ok l) = .ok l' ∧
      l'.currentPath = l.currentPath ∧ l'.currentPath ∈ l'.dir ∧
      contents l.dir = ↑(l.lost timestamp now) + contents l'.dir := by
  unfold lost
  by_cases hfull : l.config.maxFileSize ≤ l.currentSize
  · obtain ⟨l', hrotate, hpath, hmem, hcontents⟩ := rotateLog_spec hcurrent now
    refine ⟨l', by rw [if_pos hfull, hrotate], hpath, hmem, ?_⟩
    rw [hcontents]
    by_cases hsame : l.currentPath = logPath timestamp now
    · rw [if_pos hsame, if_neg (fun h => h.2 hsame)]
      rfl
    · rw [if_neg hsame, if_pos ⟨hfull, hsame⟩]
  · refine ⟨l, if_neg hfull, rfl, hcurrent, ?_⟩
    rw [if_neg (fun h => hfull h.1)]
    exact (zero_add _).symm

variable (timestamp)

/-- What a write does to the directory: the lines at the target of its rotation go, and the line of the event comes if
the write returns nil. -/
theorem writeEvent_spec {l : Logger} (hcurrent : l.currentPath ∈ l.dir) (now : Time) (event : Event) :
    let r := l.writeEvent timestamp marshal now event
    r.1.currentPath ∈ r.1.dir ∧
      contents l.dir + ↑(if r.2 = none then (marshal event).toOption.toList else []) =
        ↑(l.lost timestamp now) + contents r.1.dir := by
  obtain ⟨l', hrotate, hpath, hmem, hcontents⟩ := rotate_spec hcurrent now
  unfold writeEvent
  rw [hrotate]
  cases hjson : marshal event with
  | error err =>
    refine ⟨hmem, ?_⟩
    show contents l.dir + ((if some ("failed to marshal event: " ++ err) = none then _ else [] : List Bytes) :
      Multiset Bytes) = _ + contents l'.dir
    rw [if_neg (by simp), hcontents]
    exact add_zero _
  | ok eventJSON =>
    refine ⟨(AList.mem_insert _).2 (.inl rfl), ?_⟩
    show contents l.dir + {eventJSON} = _ + contents (l'.dir.write l'.currentPath eventJSON)
    rw [LogDir.contents_write, hcontents, add_assoc]

end Logger

/-! ### Runs -/

/-- The logger, and the lines of the events for which `writeEvent` returned nil. -/
structure History where
  logger : Logger
  written : List Bytes

namespace History

def start (config : LoggerConfig) (dir : LogDir) (now : Time) : History :=
  { logger := newLogger timestamp config dir now, written := [] }

/-- An event is written at a time. -/
def step (h : History) (e : Time × Event) : History :=
  let r := h.logger.writeEvent timestamp marshal e.1 e.2
  { logger := r.1
    written := h.written ++ (if r.2 = none then (marshal e.2).toOption.toList else []) }

/-- No rotation is due, or there is nothing at its target, or the target is the current file itself. -/
def Spares (h : History) (e : Time × Event) : Prop :=
  h.logger.currentSize < h.logger.config.maxFileSize ∨ h.logger.currentPath = logPath timestamp e.1 ∨
    listAt h.logger.dir (logPath timestamp e.1) = []

instance (h : History) (e : Time × Event) : Decidable (h.Spares timestamp e) := inferInstanceAs (Decidable (_ ∨ _))

/-- The directory holds what was there before and every written line, each of them once. -/
def Kept (before : Multiset Bytes) (h : History) : Prop := contents h.logger.dir = before + ↑h.written

structure Inv (before : Multiset Bytes) (h : History) : Prop where
  current : h.logger.currentPath ∈ h.logger.dir
  /-- nothing is there that was not written -/
  le : contents h.logger.dir ≤ before + ↑h.written

/-- What was there and what is written: what is lost and what is there then. -/
theorem step_spec {h : History} (e : Time × Event) (hcurrent : h.logger.currentPath ∈ h.logger.dir) :
    (h.step timestamp marshal e).logger.currentPath ∈ (h.step timestamp marshal e).logger.dir ∧
      ∃ added : List Bytes, (h.step timestamp marshal e).written = h.written ++ added ∧
        contents h.logger.dir + ↑added =
          ↑(h.logger.lost timestamp e.1) + contents (h.step timestamp marshal e).logger.dir := by
  obtain ⟨hmem, hcontents⟩ := Logger.writeEvent_spec timestamp marshal hcurrent e.1 e.2
  exact ⟨hmem, _, rfl, hcontents⟩

variable {timestamp marshal} {before : Multiset Bytes}

theorem lost_eq_nil_iff (h : History) (e : Time × Event) :
    h.logger.lost timestamp e.1 = [] ↔ h.Spares timestamp e := by
  unfold Logger.lost Spares
  split
  · rename_i hdue
    rw [or_iff_right (by omega), or_iff_right hdue.2]
  · rename_i hdue
    refine iff_of_true rfl ?_
    by_cases hfull : h.logger.config.maxFileSize ≤ h.logger.currentSize
    · exact .inr (.inl (by_contra fun hne => hdue ⟨hfull, hne⟩))
    · exact .inl (by omega)

theorem inv_step (h : History) (e : Time × Event) (hinv : Inv before h) :
    Inv before (h.step timestamp marshal e) := by
  obtain ⟨hcurrent, added, hwritten, hcontents⟩ := step_spec timestamp marshal e hinv.current
  refine ⟨hcurrent, ?_⟩
  calc contents (h.step timestamp marshal e).logger.dir
      ≤ ↑(h.logger.lost timestamp e.1) + contents (h.step timestamp marshal e).logger.dir := Multiset.le_add_left _ _
    _ = contents h.logger.dir + ↑added := hcontents.symm
    _ ≤ before + ↑h.written + ↑added := add_le_add_left hinv.le _
    _ = before + ↑(h.step timestamp marshal e).written := by
      rw [hwritten, ← Multiset.coe_add, add_assoc]

/-- What is lost once does not come back. -/
theorem kept_step (h : History) (e : Time × Event) (hinv : Inv before h) :
    Kept before (h.step timestamp marshal e) ↔ Kept before h ∧ h.Spares timestamp e := by
  obtain ⟨_, added, hwritten, hcontents⟩ := step_spec timestamp marshal e hinv.current
  have hgoal : before + ↑(h.step timestamp marshal e).written = before + ↑h.written + (added : Multiset Bytes) := by
    rw [hwritten, ← Multiset.coe_add, add_assoc]
  unfold Kept
  rw [hgoal, ← lost_eq_nil_iff]
  constructor
  · intro hkept
    have hle : contents h.logger.dir + ↑added ≤ before + ↑h.written + (added : Multiset Bytes) :=
      add_le_add_left hinv.le _
    -- as much as was there and was added is there, so nothing was lost
    have hlost : (h.logger.lost timestamp e.1 : Multiset Bytes) = 0 := by
      rw [hcontents, hkept] at hle
      exact Multiset.le_zero.1 (le_of_add_le_add_right (hle.trans_eq (zero_add _).symm))
    rw [hlost, zero_add, hkept] at hcontents
    exact ⟨add_right_cancel hcontents, (Multiset.coe_eq_zero _).1 hlost⟩
  · rintro ⟨hkept, hlost⟩
    rw [hlost, Multiset.coe_nil, zero_add] at hcontents
    rw [← hcontents, hkept]

variable (timestamp marshal) in
/-- Whatever was in the directory and whatever is written at whatever times: everything is kept, what was there and
every written event exactly once, if and only if every rotation spares the file at its target. -/
theorem kept_iff_spares (config : LoggerConfig) (dir : LogDir) (now : Time) (events : List (Time × Event)) :
    Kept (contents dir) (Run.exec (step timestamp marshal) (start timestamp config dir now) events) ↔
      Run.Admits (step timestamp marshal) (Spares timestamp) (start timestamp config dir now) events := by
  have hopen : contents (dir.openAppend (logPath timestamp now)) = contents dir := LogDir.contents_openAppend _ _
  have hstart : Kept (contents dir) (start timestamp config dir now) := by
    show contents (dir.openAppend _) = contents dir + 0
    rw [hopen, add_zero]
  have hinv : Inv (contents dir) (start timestamp config dir now) :=
    ⟨LogDir.mem_openAppend dir _, le_of_eq hstart⟩
  have hkeep : ∀ (h : History) (e : Time × Event), Inv (contents dir) h →
      Inv (contents dir) (h.step timestamp marshal e) := inv_step
  rw [Run.exec_iff_admits_of_inv hkeep kept_step hinv, and_iff_right hstart]

end History

/-- Three lines of two bytes with the size limit one, the logger opened one second earlier: the second and the third
event rotate within one second, and the first event is gone. -/
theorem not_kept_same_second :
    let h := Run.exec (History.step CivilTime.stamp (fun e : Bytes => .ok e))
      (History.start CivilTime.stamp ⟨"logs", 1, 0, 0, 0⟩ ∅ 0)
      [(1000000000, [1]), (1000000001, [2]), (1000000002, [3])]
    h.written = [[1], [2], [3]] ∧ (h.logger.dir.entries.map fun e => (e.1, e.2)) =
      [("audit_19700101_000000.log", [[3]]), ("audit_19700101_000001.log", [[2]])] := by
  decide +kernel

end Logger

end Audit

end DistributedBloomFilter
