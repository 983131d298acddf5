import DistributedBloomFilter.Audit.Listing
import DistributedBloomFilter.Lib.FileSystem

/-!
# Removing old audit files

`performCleanup` of `internal/audit/logger.go` removes every audit file that was last written to before `MaxAge`.  It
does not look whether the file is the one the logger has open.  So this model keeps files apart from their names: the
logger writes to the file it opened, whatever has become of its name, and only a rotation looks for the name again.

As long as every cleanup finds the current file younger than `MaxAge`, nothing younger is ever removed
(`kept_of_fresh`).  A cleanup that finds it older takes its name away, and from then on no event gets into the
directory: writes go to a file without a name and return nil until the file has reached its size, and return an error
for ever after that, because there is nothing to rename (`lost_of_not_attached`).
-/

namespace DistributedBloomFilter

namespace Audit

/-- The logger with its open file.  A line of a file is kept with the time of its writing. -/
structure OpenLogger where
  config : LoggerConfig
  fs : FileSystem String (Time × Bytes)
  modTime : Nat → Time
  currentFile : Nat
  currentPath : String
  currentSize : Nat

/-- A line is in a log file of the directory. -/
def InDir (fs : FileSystem String (Time × Bytes)) (line : Time × Bytes) : Prop :=
  ∃ name i, IsLog name ∧ fs.links name = some i ∧ line ∈ fs.data i

/-- No file was last written to in the future or before one of its lines was. -/
structure Stamped (fs : FileSystem String (Time × Bytes)) (modTime : Nat → Time) (clock : Time) : Prop where
  lines : ∀ i < fs.next, ∀ line ∈ fs.data i, line.1 ≤ modTime i
  past : ∀ i < fs.next, modTime i ≤ clock

section Retention

variable {Event : Type} (timestamp : Time → String) (marshal : Event → Except String Bytes)

namespace OpenLogger

/-- `os.OpenFile` of the current path. -/
def openCurrent (l : OpenLogger) (now : Time) : OpenLogger :=
  { l with
    fs := (l.fs.openAppend l.currentPath).1
    modTime := if l.fs.links l.currentPath = none then Function.update l.modTime l.fs.next now else l.modTime
    currentFile := (l.fs.openAppend l.currentPath).2
    currentSize := 0 }

/-- `NewLogger`, in a directory that may have files already. -/
def newLogger (config : LoggerConfig) (fs : FileSystem String (Time × Bytes)) (modTime : Nat → Time) (now : Time) :
    OpenLogger :=
  openCurrent
    { config := config.withDefaults, fs := fs, modTime := modTime, currentFile := 0
      currentPath := logPath timestamp now, currentSize := 0 } now

def rotateLog (l : OpenLogger) (now : Time) : Except String OpenLogger :=
  let rotatedPath := logPath timestamp now
  match l.fs.rename l.currentPath rotatedPath with
  | none => .error ("failed to rename log file: rename " ++ l.currentPath ++ " " ++ rotatedPath ++
      ": no such file or directory")
  | some fs => .ok (openCurrent { l with fs := fs } now)

/-- Writes a line to the open file. -/
def append (l : OpenLogger) (now : Time) (eventJSON : Bytes) : OpenLogger :=
  { l with
    fs := l.fs.append l.currentFile [(now, eventJSON)]
    modTime := Function.update l.modTime l.currentFile now
    currentSize := l.currentSize + (eventJSON.length + 1) }

/-- `writeEvent`, with the error it returns. -/
def writeEvent (l : OpenLogger) (now : Time) (event : Event) : OpenLogger × Option String :=
  match (if l.config.maxFileSize ≤ l.currentSize then l.rotateLog timestamp now else .ok l) with
  | .error err => (l, some ("failed to rotate log: " ++ err))
  | .ok l =>
    match marshal event with
    | .error err => (l, some ("failed to marshal event: " ++ err))
    | .ok eventJSON => (l.append now eventJSON, none)

/-- The file of this name was last written to before the cutoff. -/
def isOld (l : OpenLogger) (cutoff : Time) (name : String) : Bool :=
  (l.fs.links name).any fun i => decide (l.modTime i < cutoff)

def performCleanup (l : OpenLogger) (now : Time) : OpenLogger :=
  { l with fs := l.fs.removeWhere fun name => decide (IsLog name) && l.isOld (now - l.config.maxAge) name }

/-- The current path is the name of the open file. -/
def Attached (l : OpenLogger) : Prop := l.fs.links l.currentPath = some l.currentFile

/-- The open file has no name, and there is no file of the current path. -/
structure Detached (l : OpenLogger) : Prop where
  path : l.fs.links l.currentPath = none
  file : ∀ name, l.fs.links name ≠ some l.currentFile

/-- A rotation that is due finds nothing at its target, or the current file itself. -/
def Spares (l : OpenLogger) (now : Time) : Prop :=
  l.config.maxFileSize ≤ l.currentSize →
    l.currentPath = logPath timestamp now ∨ l.fs.links (logPath timestamp now) = none

instance (l : OpenLogger) (now : Time) : Decidable (l.Spares timestamp now) := inferInstanceAs (Decidable (_ → _))

/-! ### Opening and rotating -/

variable {timestamp marshal} {l : OpenLogger}

theorem attached_openCurrent (l : OpenLogger) (now : Time) : (l.openCurrent now).Attached := by
  have hlinks := (l.fs.openAppend_spec l.currentPath).1
  show (l.fs.openAppend l.currentPath).1.links l.currentPath = some (l.fs.openAppend l.currentPath).2
  rw [hlinks, Function.update_self]

theorem inDir_openCurrent {line : Time × Bytes} (h : InDir l.fs line) (now : Time) :
    InDir (l.openCurrent now).fs line := by
  obtain ⟨name, i, hname, hlink, hline⟩ := h
  obtain ⟨hlinks, hdata, hfile⟩ := l.fs.openAppend_spec l.currentPath
  refine ⟨name, i, hname, ?_, ?_⟩
  · show (l.fs.openAppend l.currentPath).1.links name = some i
    rw [hlinks, Function.update_apply]
    split
    · rename_i hpath
      rcases hfile with ⟨hold, -⟩ | ⟨hnone, -⟩
      · rw [← hlink, hpath, hold]
      · rw [hpath, hnone] at hlink
        cases hlink
    · exact hlink
  · show line ∈ (l.fs.openAppend l.currentPath).1.data i
    rw [hdata i (l.fs.below hlink)]
    exact hline

theorem stamped_openCurrent {clock now : Time} (h : Stamped l.fs l.modTime clock) (hnow : clock ≤ now) :
    Stamped (l.openCurrent now).fs (l.openCurrent now).modTime now := by
  obtain ⟨-, hdata, hfile⟩ := l.fs.openAppend_spec l.currentPath
  unfold openCurrent
  dsimp only
  rcases hfile with ⟨hold, hnext⟩ | ⟨hnone, hnew, hnext, hempty⟩
  · rw [if_neg (by rw [hold]; exact Option.some_ne_none _)]
    refine ⟨fun i hi line hline => ?_, fun i hi => ?_⟩
    · rw [hnext] at hi
      rw [hdata i hi] at hline
      exact h.lines i hi line hline
    · rw [hnext] at hi
      exact (h.past i hi).trans hnow
  · rw [if_pos hnone]
    refine ⟨fun i hi line hline => ?_, fun i hi => ?_⟩
    · by_cases hi' : i = l.fs.next
      · rw [hi', hempty] at hline
        cases hline
      · have hlt : i < l.fs.next := by omega
        rw [hdata i hlt] at hline
        rw [Function.update_of_ne hi']
        exact h.lines i hlt line hline
    · by_cases hi' : i = l.fs.next
      · rw [hi', Function.update_self]
      · rw [Function.update_of_ne hi']
        exact (h.past i (by omega)).trans hnow

/-- A rotation of an attached logger keeps every line if it spares the file at its target. -/
theorem rotateLog_spec (h : l.Attached) (now : Time) :
    ∃ l', l.rotateLog timestamp now = .ok l' ∧ l'.Attached ∧ l'.config = l.config ∧ l'.currentPath = l.currentPath ∧
      (∀ clock, Stamped l.fs l.modTime clock → clock ≤ now → Stamped l'.fs l'.modTime now) ∧
      (l.currentPath = logPath timestamp now ∨ l.fs.links (logPath timestamp now) = none →
        ∀ line, InDir l.fs line → InDir l'.fs line) := by
  obtain ⟨fs, hrename, hlinks, hdata, hnext⟩ := FileSystem.rename_spec h (logPath timestamp now)
  unfold rotateLog
  dsimp only
  rw [hrename]
  refine ⟨_, rfl, attached_openCurrent _ now, rfl, rfl, ?_, ?_⟩
  · intro clock hstamped hclock
    refine @stamped_openCurrent { l with fs := fs } clock now ⟨?_, ?_⟩ hclock
    · intro i hi
      rw [hnext] at hi
      rw [hdata]
      exact hstamped.lines i hi
    · intro i hi
      rw [hnext] at hi
      exact hstamped.past i hi
  · rintro hspares line ⟨name, i, hname, hlink, hline⟩
    refine @inDir_openCurrent { l with fs := fs } line ?_ now
    by_cases hcurrent : name = l.currentPath
    · -- the lines of the current file are under the new name
      refine ⟨logPath timestamp now, i, isLog_logPath timestamp now, ?_, ?_⟩
      · rw [hlinks, Function.update_self, ← hlink, hcurrent, h]
      · rw [hdata]
        exact hline
    · refine ⟨name, i, hname, ?_, ?_⟩
      · have htarget : name ≠ logPath timestamp now := by
          rintro rfl
          rcases hspares with hsame | hnone
          · exact hcurrent hsame.symm
          · rw [hnone] at hlink
            cases hlink
        rw [hlinks, Function.update_of_ne htarget, Function.update_of_ne hcurrent, hlink]
      · rw [hdata]
        exact hline

/-! ### Writing -/

/-- A line goes to the open file, and stays in the files where it was. -/
theorem mem_data_append {i : Nat} {line : Time × Bytes} (now : Time) (eventJSON : Bytes) :
    line ∈ (l.append now eventJSON).fs.data i ↔ line ∈ l.fs.data i ∨ i = l.currentFile ∧ line = (now, eventJSON) := by
  show line ∈ Function.update l.fs.data l.currentFile (l.fs.data l.currentFile ++ [(now, eventJSON)]) i ↔ _
  rw [Function.update_apply]
  split
  · rename_i hi
    rw [hi, List.mem_append, List.mem_singleton, and_iff_right rfl]
  · rename_i hi
    rw [or_iff_left fun h => hi h.1]

theorem inDir_append_iff {line : Time × Bytes} (now : Time) (eventJSON : Bytes) :
    InDir (l.append now eventJSON).fs line ↔
      InDir l.fs line ∨ line = (now, eventJSON) ∧ ∃ name, IsLog name ∧ l.fs.links name = some l.currentFile := by
  constructor
  · rintro ⟨name, i, hname, hlink, hline⟩
    rcases (mem_data_append now eventJSON).1 hline with hold | ⟨rfl, hnew⟩
    · exact .inl ⟨name, i, hname, hlink, hold⟩
    · exact .inr ⟨hnew, name, hname, hlink⟩
  · rintro (⟨name, i, hname, hlink, hline⟩ | ⟨hnew, name, hname, hlink⟩)
    · exact ⟨name, i, hname, hlink, (mem_data_append now eventJSON).2 (.inl hline)⟩
    · exact ⟨name, l.currentFile, hname, hlink, (mem_data_append now eventJSON).2 (.inr ⟨rfl, hnew⟩)⟩

theorem stamped_append {clock now : Time} (hstamped : Stamped l.fs l.modTime clock) (hnow : clock ≤ now)
    (eventJSON : Bytes) : Stamped (l.append now eventJSON).fs (l.append now eventJSON).modTime now := by
  have hmod : ∀ i, (l.append now eventJSON).modTime i = if i = l.currentFile then now else l.modTime i := by
    intro i
    exact Function.update_apply ..
  refine ⟨fun i hi line hline => ?_, fun i hi => ?_⟩
  · rw [hmod]
    rcases (mem_data_append now eventJSON).1 hline with hold | ⟨rfl, rfl⟩
    · split
      · exact (hstamped.lines i hi line hold).trans ((hstamped.past i hi).trans hnow)
      · exact hstamped.lines i hi line hold
    · rw [if_pos rfl]
  · rw [hmod]
    split
    · exact Int.le_refl _
    · exact (hstamped.past i hi).trans hnow

variable (timestamp marshal) in
/-- A write by an attached logger: it stays attached, and its line is in the directory if it returns nil, with all
that was there if its rotation spares its target. -/
theorem writeEvent_spec (h : l.Attached) (hpath : IsLog l.currentPath) (now : Time) (event : Event) :
    let r := l.writeEvent timestamp marshal now event
    r.1.Attached ∧ r.1.config = l.config ∧ r.1.currentPath = l.currentPath ∧
      (∀ clock, Stamped l.fs l.modTime clock → clock ≤ now → Stamped r.1.fs r.1.modTime now) ∧
      (r.2 = none → ∀ eventJSON ∈ (marshal event).toOption, InDir r.1.fs (now, eventJSON)) ∧
      (l.Spares timestamp now → ∀ line, InDir l.fs line → InDir r.1.fs line) := by
  have hrotate : ∃ l', (if l.config.maxFileSize ≤ l.currentSize then l.rotateLog timestamp now else .ok l) = .ok l' ∧
      l'.Attached ∧ l'.config = l.config ∧ l'.currentPath = l.currentPath ∧
      (∀ clock, Stamped l.fs l.modTime clock → clock ≤ now →
        ∃ clock', clock' ≤ now ∧ Stamped l'.fs l'.modTime clock') ∧
      (l.Spares timestamp now → ∀ line, InDir l.fs line → InDir l'.fs line) := by
    by_cases hdue : l.config.maxFileSize ≤ l.currentSize
    · obtain ⟨l', hrotate, hattached, hconfig, hcurrent, hstamped, hkept⟩ := @rotateLog_spec timestamp l h now
      rw [if_pos hdue]
      refine ⟨l', hrotate, hattached, hconfig, hcurrent, ?_, fun hspares => hkept (hspares hdue)⟩
      intro clock hclock hnow
      exact ⟨now, Int.le_refl _, hstamped clock hclock hnow⟩
    · rw [if_neg hdue]
      exact ⟨l, rfl, h, rfl, rfl, fun clock hclock hnow => ⟨clock, hnow, hclock⟩, fun _ _ hline => hline⟩
  obtain ⟨l', hl', hattached, hconfig, hcurrent, hstamped, hkept⟩ := hrotate
  unfold writeEvent
  rw [hl']
  cases hjson : marshal event with
  | error err =>
    refine ⟨hattached, hconfig, hcurrent, ?_, fun hnone => absurd hnone (Option.some_ne_none _), hkept⟩
    intro clock hclock hnow
    obtain ⟨clock', hclock', hs⟩ := hstamped clock hclock hnow
    exact ⟨hs.lines, fun i hi => (hs.past i hi).trans hclock'⟩
  | ok eventJSON =>
    refine ⟨hattached, hconfig, hcurrent, ?_, ?_, ?_⟩
    · intro clock hclock hnow
      obtain ⟨clock', hclock', hs⟩ := hstamped clock hclock hnow
      exact stamped_append hs hclock' eventJSON
    · rintro - _ ⟨⟩
      refine (inDir_append_iff now eventJSON).2 (.inr ⟨rfl, l'.currentPath, ?_, hattached⟩)
      rw [hcurrent]
      exact hpath
    · intro hspares line hline
      exact (inDir_append_iff now eventJSON).2 (.inl (hkept hspares line hline))

/-- A write by a detached logger: no line comes into the directory. -/
theorem writeEvent_of_detached (h : l.Detached) (now : Time) (event : Event) :
    let r := l.writeEvent timestamp marshal now event
    r.1.Detached ∧ r.1.currentPath = l.currentPath ∧ (∀ line, InDir r.1.fs line → InDir l.fs line) ∧
      (l.config.maxFileSize ≤ l.currentSize → ∃ err, r = (l, some err)) := by
  unfold writeEvent
  by_cases hdue : l.config.maxFileSize ≤ l.currentSize
  · rw [if_pos hdue]
    unfold rotateLog
    dsimp only
    rw [FileSystem.rename_eq_none h.path]
    exact ⟨h, rfl, fun _ hline => hline, fun _ => ⟨_, rfl⟩⟩
  · rw [if_neg hdue]
    dsimp only
    cases marshal event with
    | error err => exact ⟨h, rfl, fun _ hline => hline, fun hdue' => absurd hdue' hdue⟩
    | ok eventJSON =>
      refine ⟨⟨h.path, h.file⟩, rfl, fun line hline => ?_, fun hdue' => absurd hdue' hdue⟩
      rcases (inDir_append_iff now eventJSON).1 hline with hold | ⟨-, name, -, hlink⟩
      · exact hold
      · exact absurd hlink (h.file name)

/-! ### Cleaning up -/

theorem links_performCleanup {name : String} {i : Nat} {now : Time} :
    (l.performCleanup now).fs.links name = some i ↔
      l.fs.links name = some i ∧ ¬ (IsLog name ∧ l.modTime i < now - l.config.maxAge) := by
  show (l.fs.removeWhere _).links name = some i ↔ _
  rw [FileSystem.links_removeWhere, and_comm]
  refine and_congr_right fun hlink => ?_
  rw [isOld, hlink]
  simp

/-- A cleanup takes a line away only when the file it is in was last written to before the cutoff. -/
theorem inDir_performCleanup {clock now : Time} {line : Time × Bytes} (hstamped : Stamped l.fs l.modTime clock)
    (hline : InDir l.fs line) (hyoung : now - l.config.maxAge ≤ line.1) : InDir (l.performCleanup now).fs line := by
  obtain ⟨name, i, hname, hlink, hmem⟩ := hline
  refine ⟨name, i, hname, links_performCleanup.2 ⟨hlink, fun hold => ?_⟩, hmem⟩
  have hmod := hstamped.lines i (l.fs.below hlink) line hmem
  exact absurd hold.2 (Int.not_lt.2 (hyoung.trans hmod))

theorem attached_performCleanup_iff (h : l.Attached) (hpath : IsLog l.currentPath) (now : Time) :
    (l.performCleanup now).Attached ↔ now - l.config.maxAge ≤ l.modTime l.currentFile := by
  constructor
  · intro hattached
    exact Int.not_lt.1 fun hold => (links_performCleanup.1 hattached).2 ⟨hpath, hold⟩
  · intro hfresh
    exact links_performCleanup.2 ⟨h, fun hold => absurd hold.2 (Int.not_lt.2 hfresh)⟩

/-- A cleanup that takes the name of the current file away. -/
theorem detached_performCleanup (h : l.Attached) {now : Time} (hnot : ¬ (l.performCleanup now).Attached) :
    (l.performCleanup now).Detached := by
  have hnone : ∀ i, (l.performCleanup now).fs.links l.currentPath ≠ some i := by
    intro i hlink
    obtain rfl : l.currentFile = i := Option.some.inj (h.symm.trans (links_performCleanup.1 hlink).1)
    exact hnot hlink
  refine ⟨Option.eq_none_iff_forall_ne_some.2 hnone, fun name hlink => ?_⟩
  have hname := (links_performCleanup.1 hlink).1
  rw [l.fs.injective hname h] at hlink
  exact hnone _ hlink

theorem Detached.performCleanup (h : l.Detached) (now : Time) :
    (l.performCleanup now).Detached ∧ ∀ line, InDir (l.performCleanup now).fs line → InDir l.fs line := by
  refine ⟨⟨?_, fun name hlink => h.file name (links_performCleanup.1 hlink).1⟩, ?_⟩
  · refine Option.eq_none_iff_forall_ne_some.2 fun i hlink => ?_
    exact absurd (h.path.symm.trans (links_performCleanup.1 hlink).1) (Option.some_ne_none i).symm
  · rintro line ⟨name, i, hname, hlink, hline⟩
    exact ⟨name, i, hname, (links_performCleanup.1 hlink).1, hline⟩

end OpenLogger

/-! ### Runs -/

/-- The logger, the lines of the events for which `writeEvent` returned nil, the times of the cleanups, and the
clock. -/
structure RetentionRun where
  logger : OpenLogger
  written : List (Time × Bytes)
  cleanups : List Time
  clock : Time

inductive RetentionEvent (Event : Type) where
  | write (now : Time) (event : Event)
  | cleanup (now : Time)

namespace RetentionRun

def start (config : LoggerConfig) (fs : FileSystem String (Time × Bytes)) (modTime : Nat → Time) (now : Time) :
    RetentionRun :=
  { logger := OpenLogger.newLogger timestamp config fs modTime now, written := [], cleanups := [], clock := now }

def step (s : RetentionRun) : RetentionEvent Event → RetentionRun
  | .write now event =>
    let r := s.logger.writeEvent timestamp marshal now event
    { s with
      logger := r.1
      written := s.written ++ (if r.2 = none then (marshal event).toOption.toList.map fun json => (now, json) else [])
      clock := now }
  | .cleanup now =>
    { s with logger := s.logger.performCleanup now, cleanups := s.cleanups ++ [now], clock := now }

/-- A cleanup finds that the current file has been written to, or made, within the time that files are kept. -/
def Fresh (s : RetentionRun) : RetentionEvent Event → Prop
  | .write _ _ => True
  | .cleanup now => now - s.logger.config.maxAge ≤ s.logger.modTime s.logger.currentFile

/-- The clock does not go back, and rotations spare the files at their targets. -/
def Calm (s : RetentionRun) : RetentionEvent Event → Prop
  | .write now _ => s.clock ≤ now ∧ s.logger.Spares timestamp now
  | .cleanup now => s.clock ≤ now

instance : ∀ (s : RetentionRun) (e : RetentionEvent Event), Decidable (s.Fresh e)
  | _, .write _ _ => .isTrue trivial
  | _, .cleanup _ => inferInstanceAs (Decidable (_ ≤ _))

instance : ∀ (s : RetentionRun) (e : RetentionEvent Event), Decidable (s.Calm timestamp e)
  | _, .write _ _ => inferInstanceAs (Decidable (_ ∧ _))
  | _, .cleanup _ => inferInstanceAs (Decidable (_ ≤ _))

/-- The name of the current file is that of a log file, and the file has it or has none. -/
structure Inv (s : RetentionRun) : Prop where
  path : IsLog s.logger.currentPath
  file : s.logger.Attached ∨ s.logger.Detached

/-- Every line that is younger than the cutoff of every cleanup is in the directory. -/
structure Kept (maxAge : Int) (s : RetentionRun) : Prop where
  path : IsLog s.logger.currentPath
  attached : s.logger.Attached
  maxAge_eq : s.logger.config.maxAge = maxAge
  stamped : Stamped s.logger.fs s.logger.modTime s.clock
  kept : ∀ line ∈ s.written, (∀ t ∈ s.cleanups, t - maxAge ≤ line.1) → InDir s.logger.fs line

theorem inv_start (config : LoggerConfig) (fs : FileSystem String (Time × Bytes)) (modTime : Nat → Time)
    (now : Time) :
    (start timestamp config fs modTime now).Inv :=
  ⟨isLog_logPath timestamp now, .inl (OpenLogger.attached_openCurrent _ now)⟩

variable {maxAge : Int}

/-- A step keeps the name of the current file unless it is a cleanup that finds it too old. -/
theorem attached_step {s : RetentionRun} (e : RetentionEvent Event) (hpath : IsLog s.logger.currentPath)
    (h : s.logger.Attached) :
    IsLog (s.step timestamp marshal e).logger.currentPath ∧
      ((s.step timestamp marshal e).logger.Attached ↔ s.Fresh e) ∧
      (¬ s.Fresh e → (s.step timestamp marshal e).logger.Detached) := by
  cases e with
  | write now event =>
    obtain ⟨hattached, -, hcurrent, -⟩ := OpenLogger.writeEvent_spec timestamp marshal h hpath now event
    refine ⟨?_, iff_of_true hattached trivial, fun hnot => absurd trivial hnot⟩
    show IsLog (s.logger.writeEvent timestamp marshal now event).1.currentPath
    rw [hcurrent]
    exact hpath
  | cleanup now =>
    have hiff := OpenLogger.attached_performCleanup_iff h hpath now
    exact ⟨hpath, hiff, fun hnot => OpenLogger.detached_performCleanup h fun hattached => hnot (hiff.1 hattached)⟩

/-- What has lost its name does not get it back, and no line comes into the directory any more. -/
theorem detached_step {s : RetentionRun} (e : RetentionEvent Event) (h : s.logger.Detached) :
    (s.step timestamp marshal e).logger.Detached ∧
      (s.step timestamp marshal e).logger.currentPath = s.logger.currentPath ∧
      ∀ line, InDir (s.step timestamp marshal e).logger.fs line → InDir s.logger.fs line := by
  cases e with
  | write now event =>
    obtain ⟨hdetached, hcurrent, hlines, -⟩ :=
      @OpenLogger.writeEvent_of_detached Event timestamp marshal s.logger h now event
    exact ⟨hdetached, hcurrent, hlines⟩
  | cleanup now =>
    obtain ⟨hdetached, hlines⟩ := h.performCleanup now
    exact ⟨hdetached, rfl, hlines⟩

theorem inv_step (s : RetentionRun) (e : RetentionEvent Event) (h : s.Inv) : (s.step timestamp marshal e).Inv := by
  rcases h.file with hattached | hdetached
  · obtain ⟨hpath, hiff, hdetached⟩ := attached_step timestamp marshal e h.path hattached
    by_cases hfresh : s.Fresh e
    · exact ⟨hpath, .inl (hiff.2 hfresh)⟩
    · exact ⟨hpath, .inr (hdetached hfresh)⟩
  · obtain ⟨hdetached', hcurrent, -⟩ := detached_step timestamp marshal e hdetached
    refine ⟨?_, .inr hdetached'⟩
    rw [hcurrent]
    exact h.path

theorem attached_step_iff (s : RetentionRun) (e : RetentionEvent Event) (h : s.Inv) :
    (s.step timestamp marshal e).logger.Attached ↔ s.logger.Attached ∧ s.Fresh e := by
  rcases h.file with hattached | hdetached
  · rw [(attached_step timestamp marshal e h.path hattached).2.1, and_iff_right hattached]
  · refine iff_of_false (fun hattached => ?_) fun hattached => hdetached.file _ hattached.1
    exact (detached_step timestamp marshal e hdetached).1.file _ hattached

theorem detached_exec {s : RetentionRun} (h : s.logger.Detached) (es : List (RetentionEvent Event)) :
    (Run.exec (step timestamp marshal) s es).logger.Detached ∧
      ∀ line, InDir (Run.exec (step timestamp marshal) s es).logger.fs line → InDir s.logger.fs line := by
  have hstep : ∀ (t : RetentionRun) (e : RetentionEvent Event),
      (t.logger.Detached ∧ ∀ line, InDir t.logger.fs line → InDir s.logger.fs line) →
        (t.step timestamp marshal e).logger.Detached ∧
          ∀ line, InDir (t.step timestamp marshal e).logger.fs line → InDir s.logger.fs line := by
    intro t e ht
    obtain ⟨hdetached, -, hlines⟩ := detached_step timestamp marshal e ht.1
    exact ⟨hdetached, fun line hline => ht.2 line (hlines line hline)⟩
  exact Run.keeps hstep ⟨h, fun _ hline => hline⟩ es

/-- In every run of writes and cleanups at any times, in any directory: the current file has its name at the end
exactly if every cleanup found it young enough.  If it has lost it, no line comes into the directory whatever happens
next, and when the file has reached its size every write returns an error and leaves everything as it is. -/
theorem lost_of_not_attached (config : LoggerConfig) (fs : FileSystem String (Time × Bytes)) (modTime : Nat → Time)
    (opened : Time) (es : List (RetentionEvent Event)) :
    let s := Run.exec (step timestamp marshal) (start timestamp config fs modTime opened) es
    (s.logger.Attached ↔ Run.Admits (step timestamp marshal) Fresh (start timestamp config fs modTime opened) es) ∧
      (¬ s.logger.Attached → ∀ later : List (RetentionEvent Event),
        let t := Run.exec (step timestamp marshal) s later
        (∀ line, InDir t.logger.fs line → InDir s.logger.fs line) ∧
          (t.logger.config.maxFileSize ≤ t.logger.currentSize → ∀ now event,
            ∃ err, t.logger.writeEvent timestamp marshal now event = (t.logger, some err))) := by
  intro s
  have hstart := inv_start timestamp config fs modTime opened
  refine ⟨?_, fun hnot later => ?_⟩
  · rw [Run.exec_iff_admits_of_inv (P := fun s => s.logger.Attached) (inv_step timestamp marshal)
      (attached_step_iff timestamp marshal) hstart]
    exact and_iff_right (OpenLogger.attached_openCurrent _ opened)
  · have hinv : s.Inv := Run.keeps (inv_step timestamp marshal) hstart es
    have hdetached : s.logger.Detached := hinv.file.resolve_left hnot
    obtain ⟨hlast, hlines⟩ := detached_exec timestamp marshal hdetached later
    refine ⟨hlines, fun hdue now event => ?_⟩
    exact (OpenLogger.writeEvent_of_detached hlast now event).2.2.2 hdue

theorem kept_step (s : RetentionRun) (e : RetentionEvent Event) (h : s.Kept maxAge)
    (hok : s.Fresh e ∧ s.Calm timestamp e) : (s.step timestamp marshal e).Kept maxAge := by
  obtain ⟨hpath, hiff, -⟩ := attached_step timestamp marshal e h.path h.attached
  cases e with
  | write now event =>
    obtain ⟨hclock, hspares⟩ := hok.2
    obtain ⟨hattached, hconfig, hcurrent, hstamped, hnew, hold⟩ :=
      OpenLogger.writeEvent_spec timestamp marshal h.attached h.path now event
    refine ⟨hpath, hattached, ?_, hstamped s.clock h.stamped hclock, ?_⟩
    · show (s.logger.writeEvent timestamp marshal now event).1.config.maxAge = maxAge
      rw [hconfig, h.maxAge_eq]
    · intro line hline hyoung
      rcases List.mem_append.1 hline with hline | hline
      · exact hold hspares line (h.kept line hline hyoung)
      · split at hline
        · rename_i hnone
          obtain ⟨json, hjson, rfl⟩ := List.mem_map.1 hline
          exact hnew hnone json (Option.mem_toList.1 hjson)
        · cases hline
  | cleanup now =>
    refine ⟨h.path, hiff.2 hok.1, h.maxAge_eq, ?_, ?_⟩
    · exact ⟨h.stamped.lines, fun i hi => (h.stamped.past i hi).trans hok.2⟩
    · intro line hline hyoung
      have hin := h.kept line hline fun t ht => hyoung t (List.mem_append_left _ ht)
      refine OpenLogger.inDir_performCleanup h.stamped hin ?_
      rw [h.maxAge_eq]
      exact hyoung now (List.mem_append_right _ List.mem_cons_self)

/-- In every run in which the clock does not go back, the rotations spare the files at their targets and every cleanup
finds the current file young enough, every written line is in the directory as long as no cleanup has come more than
`MaxAge` after its writing. -/
theorem kept_of_fresh (config : LoggerConfig) {fs : FileSystem String (Time × Bytes)} {modTime : Nat → Time}
    {opened : Time} (hfs : Stamped fs modTime opened) {es : List (RetentionEvent Event)}
    (hes : Run.Admits (step timestamp marshal) (fun s e => s.Fresh e ∧ s.Calm timestamp e)
      (start timestamp config fs modTime opened) es) :
    let s := Run.exec (step timestamp marshal) (start timestamp config fs modTime opened) es
    ∀ line ∈ s.written, (∀ t ∈ s.cleanups, t - config.withDefaults.maxAge ≤ line.1) → InDir s.logger.fs line := by
  have hstart : (start timestamp config fs modTime opened).Kept config.withDefaults.maxAge := by
    refine ⟨isLog_logPath timestamp opened, OpenLogger.attached_openCurrent _ opened, rfl, ?_, ?_⟩
    · exact OpenLogger.stamped_openCurrent (l := OpenLogger.mk _ fs modTime 0 _ 0) hfs (Int.le_refl _)
    · intro line hline
      cases hline
  exact (Run.invariant (kept_step timestamp marshal) hstart hes).kept

/-- Five nanoseconds are kept.  Both cleanups find the current file young enough, though the first line in it is too
old at the second. -/
theorem kept_of_fresh_sample :
    let config : LoggerConfig := ⟨"logs", 100, 5, 0, 0⟩
    let s := Run.exec (step CivilTime.stamp fun e : Bytes => .ok e)
      (start CivilTime.stamp config .empty (fun _ => 0) 0)
      [.write 1 [1], .cleanup 3, .write 4 [2], .cleanup 8]
    s.written = [(1, [1]), (4, [2])] ∧ s.cleanups = [3, 8] ∧
      ∀ line ∈ s.written, (∀ t ∈ s.cleanups, t - config.withDefaults.maxAge ≤ line.1) → InDir s.logger.fs line :=
  ⟨by decide +kernel, by decide +kernel,
    kept_of_fresh CivilTime.stamp (fun e : Bytes => .ok e) ⟨"logs", 100, 5, 0, 0⟩
      ⟨fun _ h => absurd h (Nat.not_lt_zero _), fun _ h => absurd h (Nat.not_lt_zero _)⟩ (by decide +kernel)⟩

end RetentionRun

/-! ### The same writes in a directory of names -/

/-- The files have under their names what the directory of the logger has. -/
structure OpenLogger.Reads (l : OpenLogger) (d : Logger) : Prop where
  config : l.config = d.config
  path : l.currentPath = d.currentPath
  size : l.currentSize = d.currentSize
  lines : ∀ name, (l.fs.read name).map (List.map Prod.snd) = d.dir.lookup name

namespace OpenLogger.Reads

variable {l : OpenLogger} {d : Logger}

theorem openCurrent (h : l.Reads d) (now : Time) :
    (l.openCurrent now).Reads { d with dir := d.dir.openAppend d.currentPath, currentSize := 0 } := by
  refine ⟨h.config, h.path, rfl, fun name => ?_⟩
  show ((l.fs.openAppend l.currentPath).1.read name).map _ = (d.dir.openAppend d.currentPath).lookup name
  have hlines := h.lines l.currentPath
  rw [FileSystem.read_openAppend, ← h.path, LogDir.openAppend, Function.update_apply]
  by_cases hmem : l.currentPath ∈ d.dir
  · rw [if_pos hmem]
    obtain ⟨lines, hlookup⟩ := Option.isSome_iff_exists.1 (AList.lookup_isSome.2 hmem)
    split
    · rename_i hname
      rw [hlookup] at hlines
      obtain ⟨data, hread, hdata⟩ := Option.map_eq_some_iff.1 hlines
      rw [hname, hlookup, hread, ← hdata]
      rfl
    · exact h.lines name
  · rw [if_neg hmem]
    rw [AList.lookup_eq_none.2 hmem, Option.map_eq_none_iff] at hlines
    split
    · rename_i hname
      rw [hname, AList.lookup_insert, hlines]
      rfl
    · rename_i hname
      rw [AList.lookup_insert_ne hname]
      exact h.lines name

theorem rotateLog (h : l.Reads d) (hattached : l.Attached) (now : Time) :
    ∃ l' d', l.rotateLog timestamp now = .ok l' ∧ d.rotateLog timestamp now = .ok d' ∧ l'.Reads d' := by
  obtain ⟨fs, hrename, -⟩ := FileSystem.rename_spec hattached (logPath timestamp now)
  have hlookup : d.dir.lookup d.currentPath = some ((l.fs.data l.currentFile).map Prod.snd) := by
    rw [← h.lines, ← h.path, FileSystem.read_of_links hattached]
    rfl
  unfold OpenLogger.rotateLog Logger.rotateLog LogDir.rename
  dsimp only
  rw [hrename, hlookup]
  have hrenamed : { l with fs := fs }.Reads { d with
      dir := if d.currentPath = logPath timestamp now then d.dir
        else (d.dir.erase d.currentPath).insert (logPath timestamp now)
          ((l.fs.data l.currentFile).map Prod.snd) } := by
    refine ⟨h.config, h.path, h.size, fun name => ?_⟩
    show (fs.read name).map _ = _
    rw [FileSystem.read_rename_eq hrename, Function.update_apply, Function.update_apply, ← h.path]
    split
    · rename_i hname
      rw [h.lines, h.path, hlookup]
      split
      · rename_i hsame
        rw [hname, ← hsame, hlookup]
      · rw [hname, AList.lookup_insert]
    · rename_i hname
      split
      · rename_i hcurrent
        rw [if_neg (fun hsame => hname (hcurrent.trans hsame)), AList.lookup_insert_ne hname, hcurrent]
        exact (AList.lookup_erase l.currentPath d.dir).symm
      · rename_i hcurrent
        rw [h.lines]
        split
        · rfl
        · rw [AList.lookup_insert_ne hname, AList.lookup_erase_ne hcurrent]
  exact ⟨_, _, rfl, rfl, hrenamed.openCurrent now⟩

theorem append (h : l.Reads d) (hattached : l.Attached) (now : Time) (eventJSON : Bytes) :
    (l.append now eventJSON).Reads { d with
      dir := d.dir.write d.currentPath eventJSON
      currentSize := d.currentSize + (eventJSON.length + 1) } := by
  refine ⟨h.config, h.path, congrArg (· + _) h.size, fun name => ?_⟩
  show ((l.fs.append l.currentFile [(now, eventJSON)]).read name).map _ =
    (d.dir.write d.currentPath eventJSON).lookup name
  have hlines : Contents.listAt d.dir l.currentPath = (l.fs.data l.currentFile).map Prod.snd := by
    rw [Contents.listAt, ← h.lines, FileSystem.read_of_links hattached]
    rfl
  rw [FileSystem.read_append hattached, Function.update_apply, ← h.path, LogDir.write, hlines]
  split
  · rename_i hname
    rw [hname, AList.lookup_insert, Option.map_some, List.map_append]
    rfl
  · rename_i hname
    rw [AList.lookup_insert_ne hname]
    exact h.lines name

theorem writeEvent (h : l.Reads d) (hattached : l.Attached) (now : Time) (event : Event) :
    (l.writeEvent timestamp marshal now event).2 = (d.writeEvent timestamp marshal now event).2 ∧
      (l.writeEvent timestamp marshal now event).1.Reads (d.writeEvent timestamp marshal now event).1 := by
  have hrotate : ∃ l' d', l'.Attached ∧ l'.Reads d' ∧
      (if l.config.maxFileSize ≤ l.currentSize then l.rotateLog timestamp now else .ok l) = .ok l' ∧
      (if d.config.maxFileSize ≤ d.currentSize then d.rotateLog timestamp now else .ok d) = .ok d' := by
    rw [← h.config, ← h.size]
    split
    · obtain ⟨l', d', hl', hd', hreads⟩ := h.rotateLog timestamp hattached now
      obtain ⟨l'', hl'', hattached', -⟩ := @OpenLogger.rotateLog_spec timestamp l hattached now
      obtain rfl := Except.ok.inj (hl'.symm.trans hl'')
      exact ⟨l', d', hattached', hreads, hl', hd'⟩
    · exact ⟨l, d, hattached, h, rfl, rfl⟩
  obtain ⟨l', d', hattached', hreads, hl', hd'⟩ := hrotate
  unfold OpenLogger.writeEvent Logger.writeEvent
  rw [hl', hd']
  cases marshal event with
  | error err => exact ⟨rfl, hreads⟩
  | ok eventJSON => exact ⟨rfl, hreads.append hattached' now eventJSON⟩

end OpenLogger.Reads

/-- Without cleanups the open file makes no difference: after any sequence of writes every name has the lines that it
has in the directory of names, and the same writes have returned nil. -/
theorem reads_exec (config : LoggerConfig) {fs : FileSystem String (Time × Bytes)} {dir : LogDir}
    (modTime : Nat → Time) (opened : Time) (hfs : ∀ name, (fs.read name).map (List.map Prod.snd) = dir.lookup name)
    (writes : List (Time × Event)) :
    let s := Run.exec (RetentionRun.step timestamp marshal) (RetentionRun.start timestamp config fs modTime opened)
      (writes.map fun w => .write w.1 w.2)
    let h := Run.exec (History.step timestamp marshal) (History.start timestamp config dir opened) writes
    s.logger.Reads h.logger ∧ s.written.map Prod.snd = h.written := by
  have hstep : ∀ (s : RetentionRun) (h : History), IsLog s.logger.currentPath → s.logger.Attached →
      s.logger.Reads h.logger → s.written.map Prod.snd = h.written →
      let s' := Run.exec (RetentionRun.step timestamp marshal) s (writes.map fun w => .write w.1 w.2)
      let h' := Run.exec (History.step timestamp marshal) h writes
      s'.logger.Reads h'.logger ∧ s'.written.map Prod.snd = h'.written := by
    induction writes with
    | nil => exact fun s h _ _ hreads hwritten => ⟨hreads, hwritten⟩
    | cons w writes ih =>
      intro s h hpath hattached hreads hwritten
      obtain ⟨herr, hreads'⟩ := hreads.writeEvent timestamp marshal hattached w.1 w.2
      obtain ⟨hpath', hiff, -⟩ := RetentionRun.attached_step timestamp marshal (.write w.1 w.2) hpath hattached
      refine ih (s.step timestamp marshal (.write w.1 w.2)) (h.step timestamp marshal w) hpath' (hiff.2 trivial)
        hreads' ?_
      show (s.written ++ _).map Prod.snd = h.written ++ _
      rw [List.map_append, hwritten, herr]
      split
      · rw [List.map_map]
        exact congrArg (h.written ++ ·) (List.map_id _)
      · rfl
  refine hstep _ _ (isLog_logPath timestamp opened) (OpenLogger.attached_openCurrent _ opened) ?_ rfl
  exact OpenLogger.Reads.openCurrent (l := OpenLogger.mk _ fs modTime 0 _ 0) (d := Logger.mk _ dir _ 0)
    ⟨rfl, rfl, rfl, hfs⟩ opened

end Retention

end Audit

end DistributedBloomFilter
