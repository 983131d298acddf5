import DistributedBloomFilter.Audit.Logger
import Mathlib.Data.List.Sort

/-!
# The order of the audit files

`GetLogFiles` lists the files by their names.  A rotation gives the name of its own second to the lines that were
written before it and goes on with the name of the second in which the logger was opened.  So the lines of the rotated
files are listed in the order of the rotations, but the newest ones, in the current file, come before all of them: the
listing is in the order of writing only as long as nothing was rotated, or no event could be encoded since
(`chronological_exec_iff`).  The names are in local time, and in the order of the clock on the wall (`logPath_lt`).
-/

namespace DistributedBloomFilter

open Contents (listAt)

namespace Audit

/-- The names that `GetLogFiles` picks. -/
def IsLog (name : String) : Prop := "audit_".toList <+: name.toList

instance (name : String) : Decidable (IsLog name) := inferInstanceAs (Decidable (_ <+: _))

/-- `GetLogFiles`: the log files in the order of their names; the directory that they all have in front is left
out. -/
def getLogFiles (dir : LogDir) : List String :=
  (dir.keys.filter fun name => IsLog name).insertionSort fun a b => ¬ b < a

/-- The lines of the files, one file after the other as they are listed. -/
def listedLines (dir : LogDir) : List Bytes := (getLogFiles dir).flatMap (listAt dir)

/-- `getLogFiles` is the increasing list of the log files. -/
theorem getLogFiles_eq {dir : LogDir} {names : List String} (hsorted : names.Pairwise (· < ·))
    (hmem : ∀ name, name ∈ dir ∧ IsLog name ↔ name ∈ names) : getLogFiles dir = names := by
  have htotal : Std.Total fun a b : String => ¬ b < a := ⟨fun a b => (le_total a b).imp not_lt.2 not_lt.2⟩
  have htrans : IsTrans String fun a b => ¬ b < a :=
    ⟨fun a b c hab hbc => not_lt.2 ((not_lt.1 hab).trans (not_lt.1 hbc))⟩
  have hperm : (getLogFiles dir).Perm names := by
    refine (List.perm_insertionSort _ _).trans ?_
    refine (List.perm_ext_iff_of_nodup (dir.keys_nodup.filter _) (hsorted.imp ne_of_lt)).2 fun name => ?_
    rw [List.mem_filter, ← AList.mem_keys, decide_eq_true_iff, hmem]
  have hlisted : (getLogFiles dir).Pairwise fun a b => ¬ b < a := List.pairwise_insertionSort ..
  refine hperm.eq_of_pairwise (fun a b _ _ hab hba => ?_) hlisted (hsorted.imp fun h => not_lt.2 h.le)
  exact le_antisymm (not_lt.1 hab) (not_lt.1 hba)

section Logger

variable {Event : Type} (timestamp : Time → String) (marshal : Event → Except String Bytes)

namespace History

/-- The times of the writes that rotate. -/
def rotations (h : History) : List (Time × Event) → List Time
  | [] => []
  | e :: events =>
    (if h.logger.config.maxFileSize ≤ h.logger.currentSize then [e.1] else []) ++
      rotations (h.step timestamp marshal e) events

/-- The events of a run from its last rotation on, and `since` in front of them if there is none. -/
def sinceRotation (h : History) (since : List Event) : List (Time × Event) → List Event
  | [] => since
  | e :: events =>
    sinceRotation (h.step timestamp marshal e)
      ((if h.logger.config.maxFileSize ≤ h.logger.currentSize then [] else since) ++ [e.2]) events

/-- Nothing is rotated, or no event can be encoded from the last rotation on. -/
def NothingSince (h : History) (events : List (Time × Event)) : Prop :=
  h.rotations timestamp marshal events = [] ∨
    ∀ e ∈ h.sinceRotation timestamp marshal [] events, (marshal e).toOption = none

instance (h : History) (events : List (Time × Event)) : Decidable (h.NothingSince timestamp marshal events) :=
  inferInstanceAs (Decidable (_ ∨ _))

/-- The lines are listed in the order in which they were written. -/
def Chronological (h : History) : Prop := listedLines h.logger.dir = h.written

/-- A logger that was opened at the time `opened` and has rotated at `times`. -/
structure Rotated (opened : Time) (times : List Time) (h : History) : Prop where
  path : h.logger.currentPath = logPath timestamp opened
  sorted : ((opened :: times).map (logPath timestamp)).Pairwise (· < ·)
  logs : ∀ name, name ∈ h.logger.dir ∧ IsLog name ↔ name ∈ (opened :: times).map (logPath timestamp)
  written : h.written = times.flatMap (fun t => listAt h.logger.dir (logPath timestamp t)) ++
    listAt h.logger.dir h.logger.currentPath
  limit : 0 < h.logger.config.maxFileSize
  /-- a file that has a size has lines, and so has one that was rotated -/
  full : 0 < h.logger.currentSize → listAt h.logger.dir h.logger.currentPath ≠ []
  nonempty : ∀ t ∈ times, listAt h.logger.dir (logPath timestamp t) ≠ []

end History

theorem isLog_logPath (now : Time) : IsLog (logPath timestamp now) := by
  unfold IsLog logPath
  rw [String.toList_append, String.toList_append, List.append_assoc]
  exact List.prefix_append ..

/-- The layout `20060102_150405` in the zone of the machine, which is so many seconds ahead of UTC at a time. -/
def localStamp (zone : Time → Int) (now : Time) : String := CivilTime.stamp (now + zone now * 1000000000)

/-- Names are ordered by the seconds of the local clock. -/
theorem logPath_lt {zone : Time → Int} {a b : Time} (ha : CivilTime.FourDigits (a + zone a * 1000000000))
    (hb : CivilTime.FourDigits (b + zone b * 1000000000))
    (hlt : a / 1000000000 + zone a < b / 1000000000 + zone b) :
    logPath (localStamp zone) a < logPath (localStamp zone) b := by
  have hseconds : ∀ t z : Int, (t + z * 1000000000) / 1000000000 = t / 1000000000 + z := by
    intro t z
    omega
  have hstamp := CivilTime.stamp_append_lt ha hb (by rw [hseconds, hseconds]; exact hlt) ".log" ".log"
  unfold logPath localStamp
  rw [String.append_assoc, String.append_assoc]
  generalize CivilTime.stamp (a + zone a * 1000000000) ++ ".log" = u at hstamp ⊢
  generalize CivilTime.stamp (b + zone b * 1000000000) ++ ".log" = v at hstamp ⊢
  rw [String.lt_iff_toList_lt, String.toList_append, String.toList_append]
  exact List.append_left_lt (String.lt_iff_toList_lt.1 hstamp)

/-! ### A rotation to a name that is not there -/

variable {timestamp marshal}

/-- The lines go to the new name, and the old one is empty. -/
theorem Logger.rotateLog_fresh {l : Logger} {now : Time} (hcurrent : l.currentPath ∈ l.dir)
    (hfresh : logPath timestamp now ∉ l.dir) :
    l.rotateLog timestamp now = .ok { l with
      dir := ((l.dir.erase l.currentPath).insert (logPath timestamp now) (listAt l.dir l.currentPath)).insert
        l.currentPath []
      currentSize := 0 } := by
  have hne : l.currentPath ≠ logPath timestamp now := fun heq => hfresh (heq ▸ hcurrent)
  obtain ⟨lines, hlookup⟩ := Option.isSome_iff_exists.1 (AList.lookup_isSome.2 hcurrent)
  have hlines : listAt l.dir l.currentPath = lines := by rw [listAt, hlookup]; rfl
  have hgone : l.currentPath ∉ (l.dir.erase l.currentPath).insert (logPath timestamp now) lines := by
    rw [AList.mem_insert, AList.mem_erase]
    exact fun h => h.elim hne fun h => h.1 rfl
  unfold rotateLog LogDir.rename
  rw [hlookup]
  dsimp only
  rw [if_neg hne, LogDir.openAppend, if_neg hgone, hlines]

namespace History

variable {opened : Time} {times : List Time} {h : History}

theorem Rotated.current_mem (hr : h.Rotated timestamp opened times) : h.logger.currentPath ∈ h.logger.dir := by
  have hmem : h.logger.currentPath ∈ (opened :: times).map (logPath timestamp) := by
    rw [hr.path]
    exact List.mem_cons_self
  exact ((hr.logs _).2 hmem).1

theorem rotated_start {config : LoggerConfig} {dir : LogDir} (hdir : ∀ name ∈ dir, ¬ IsLog name) (opened : Time) :
    (start timestamp config dir opened).Rotated timestamp opened [] := by
  have hfresh : logPath timestamp opened ∉ dir := fun hmem => hdir _ hmem (isLog_logPath timestamp opened)
  have hopen : (start timestamp config dir opened).logger.dir = dir.insert (logPath timestamp opened) [] :=
    if_neg hfresh
  refine ⟨rfl, List.pairwise_singleton .., fun name => ?_, ?_, ?_, fun hsize => absurd hsize (Nat.lt_irrefl 0),
    fun t ht => by cases ht⟩
  · rw [hopen, AList.mem_insert, List.map_singleton, List.mem_singleton]
    constructor
    · rintro ⟨rfl | hmem, hlog⟩
      · rfl
      · exact absurd hlog (hdir name hmem)
    · rintro rfl
      exact ⟨.inl rfl, isLog_logPath timestamp opened⟩
  · rw [hopen]
    exact (Contents.listAt_insert ..).symm
  · show 0 < config.withDefaults.maxFileSize
    unfold LoggerConfig.withDefaults DefaultMaxFileSize
    dsimp only
    split <;> omega

/-- A rotation at a time whose name comes after all others; the current file is empty then. -/
theorem rotated_rotateLog (hr : h.Rotated timestamp opened times) {now : Time}
    (hlater : ∀ t ∈ opened :: times, logPath timestamp t < logPath timestamp now)
    (hfull : h.logger.config.maxFileSize ≤ h.logger.currentSize) :
    ∃ l, h.logger.rotateLog timestamp now = .ok l ∧
      Rotated timestamp opened (times ++ [now]) { h with logger := l } ∧ listAt l.dir l.currentPath = [] := by
  have hfresh : logPath timestamp now ∉ h.logger.dir := by
    intro hmem
    obtain ⟨t, ht, heq⟩ := List.mem_map.1 ((hr.logs _).1 ⟨hmem, isLog_logPath timestamp now⟩)
    exact absurd heq (ne_of_lt (hlater t ht))
  have hnow : logPath timestamp now ≠ h.logger.currentPath := fun heq => hfresh (heq ▸ hr.current_mem)
  refine ⟨_, Logger.rotateLog_fresh hr.current_mem hfresh, ?_⟩
  generalize hdir : ((h.logger.dir.erase h.logger.currentPath).insert (logPath timestamp now)
    (listAt h.logger.dir h.logger.currentPath)).insert h.logger.currentPath [] = dir
  -- the file that is rotated, the others, and the current one
  have hrotated : listAt dir (logPath timestamp now) = listAt h.logger.dir h.logger.currentPath := by
    rw [← hdir, Contents.listAt_insert_of_ne _ _ _ hnow, Contents.listAt_insert]
  have hothers : ∀ t ∈ times, listAt dir (logPath timestamp t) = listAt h.logger.dir (logPath timestamp t) := by
    intro t ht
    have hcurrent : logPath timestamp t ≠ h.logger.currentPath := by
      rw [hr.path]
      exact ne_of_gt ((List.pairwise_cons.1 hr.sorted).1 _ (List.mem_map_of_mem ht))
    have hlt := ne_of_lt (hlater t (List.mem_cons_of_mem _ ht))
    rw [← hdir, Contents.listAt_insert_of_ne _ _ _ hcurrent, Contents.listAt_insert_of_ne _ _ _ hlt,
      Contents.listAt_erase_of_ne _ _ hcurrent]
  have hempty : listAt dir h.logger.currentPath = [] := by rw [← hdir, Contents.listAt_insert]
  refine ⟨?_, hempty⟩
  refine ⟨hr.path, ?_, fun name => ?_, ?_, hr.limit, fun hsize => absurd hsize (Nat.lt_irrefl 0), fun t ht => ?_⟩
  · rw [← List.cons_append, List.map_append, List.pairwise_append]
    refine ⟨hr.sorted, List.pairwise_singleton .., fun a ha b hb => ?_⟩
    obtain ⟨t, ht, rfl⟩ := List.mem_map.1 ha
    rw [List.map_singleton, List.mem_singleton] at hb
    rw [hb]
    exact hlater t ht
  · have hlogs := hr.logs name
    have hlog := isLog_logPath timestamp now
    have hcurrent := hr.current_mem
    rw [← List.cons_append, List.map_append, List.mem_append, ← hlogs, List.map_singleton, List.mem_singleton, ← hdir,
      AList.mem_insert, AList.mem_insert, AList.mem_erase]
    constructor
    · rintro ⟨rfl | rfl | ⟨-, hmem⟩, hname⟩
      · exact .inl ⟨hcurrent, hname⟩
      · exact .inr rfl
      · exact .inl ⟨hmem, hname⟩
    · rintro (⟨hmem, hname⟩ | rfl)
      · refine ⟨?_, hname⟩
        by_cases heq : name = h.logger.currentPath
        · exact .inl heq
        · exact .inr (.inr ⟨heq, hmem⟩)
      · exact ⟨.inr (.inl rfl), hlog⟩
  · show h.written = _ ++ listAt dir h.logger.currentPath
    rw [hempty, List.append_nil, List.flatMap_append, List.flatMap_singleton, hrotated, hr.written]
    congr 1
    exact List.flatMap_congr fun t ht => (hothers t ht).symm
  · rcases List.mem_append.1 ht with ht | ht
    · show listAt dir _ ≠ []
      rw [hothers t ht]
      exact hr.nonempty t ht
    · have hlimit := hr.limit
      show listAt dir _ ≠ []
      rw [List.mem_singleton.1 ht, hrotated]
      exact hr.full (by omega)

/-- A line is added to the current file. -/
theorem rotated_write (hr : h.Rotated timestamp opened times) (line : Bytes) :
    Rotated timestamp opened times
      { logger := { h.logger with
          dir := h.logger.dir.write h.logger.currentPath line
          currentSize := h.logger.currentSize + (line.length + 1) }
        written := h.written ++ [line] } := by
  have hcurrent := hr.current_mem
  have hothers : ∀ t ∈ times, listAt (h.logger.dir.write h.logger.currentPath line) (logPath timestamp t) =
      listAt h.logger.dir (logPath timestamp t) := by
    intro t ht
    refine Contents.listAt_insert_of_ne _ _ _ ?_
    rw [hr.path]
    exact ne_of_gt ((List.pairwise_cons.1 hr.sorted).1 _ (List.mem_map_of_mem ht))
  have hline : listAt (h.logger.dir.write h.logger.currentPath line) h.logger.currentPath =
      listAt h.logger.dir h.logger.currentPath ++ [line] := Contents.listAt_insert ..
  refine ⟨hr.path, hr.sorted, fun name => ?_, ?_, hr.limit, fun _ => ?_, fun t ht => ?_⟩
  · rw [← hr.logs name]
    show name ∈ h.logger.dir.insert _ _ ∧ _ ↔ _
    rw [AList.mem_insert, or_iff_right_of_imp (fun heq => heq ▸ hcurrent)]
  · show h.written ++ [line] = _
    dsimp only
    rw [hline, hr.written, List.append_assoc, List.flatMap_congr hothers]
  · show listAt (h.logger.dir.write h.logger.currentPath line) h.logger.currentPath ≠ []
    rw [hline]
    exact List.append_ne_nil_of_right_ne_nil _ (List.cons_ne_nil line [])
  · show listAt (h.logger.dir.write h.logger.currentPath line) _ ≠ []
    rw [hothers t ht]
    exact hr.nonempty t ht

variable (marshal) in
/-- The current file has the lines since the last rotation. -/
theorem rotated_step (hr : h.Rotated timestamp opened times) (e : Time × Event)
    (hlater : h.logger.config.maxFileSize ≤ h.logger.currentSize →
      ∀ t ∈ opened :: times, logPath timestamp t < logPath timestamp e.1) :
    (h.step timestamp marshal e).Rotated timestamp opened
      (times ++ if h.logger.config.maxFileSize ≤ h.logger.currentSize then [e.1] else []) ∧
    listAt (h.step timestamp marshal e).logger.dir (h.step timestamp marshal e).logger.currentPath =
      (if h.logger.config.maxFileSize ≤ h.logger.currentSize then [] else
        listAt h.logger.dir h.logger.currentPath) ++ (marshal e.2).toOption.toList := by
  -- the logger with which the line is written
  obtain ⟨l, hhead, hl, hlines⟩ : ∃ l,
      (if h.logger.config.maxFileSize ≤ h.logger.currentSize then h.logger.rotateLog timestamp e.1
        else .ok h.logger) =
        .ok l ∧
      Rotated timestamp opened
        (times ++ if h.logger.config.maxFileSize ≤ h.logger.currentSize then [e.1] else []) { h with logger := l } ∧
      listAt l.dir l.currentPath = if h.logger.config.maxFileSize ≤ h.logger.currentSize then [] else
        listAt h.logger.dir h.logger.currentPath := by
    by_cases hfull : h.logger.config.maxFileSize ≤ h.logger.currentSize
    · rw [if_pos hfull, if_pos hfull, if_pos hfull]
      exact rotated_rotateLog hr (hlater hfull) hfull
    · rw [if_neg hfull, if_neg hfull, if_neg hfull, List.append_nil]
      exact ⟨h.logger, rfl, hr, rfl⟩
  unfold step Logger.writeEvent
  rw [hhead, ← hlines]
  cases hjson : marshal e.2 with
  | error err =>
    dsimp only
    exact ⟨by simpa using hl, by simp [Except.toOption]⟩
  | ok eventJSON => exact ⟨rotated_write hl eventJSON, Contents.listAt_insert ..⟩

/-- After a run the logger has rotated where it was due, and the current file has the lines of the events since. -/
theorem rotated_exec (hr : h.Rotated timestamp opened times) {since : List Event}
    (hsince : listAt h.logger.dir h.logger.currentPath = since.flatMap fun e => (marshal e).toOption.toList)
    {events : List (Time × Event)}
    (hlater : (opened :: (times ++ h.rotations timestamp marshal events)).Pairwise
      fun a b => logPath timestamp a < logPath timestamp b) :
    (Run.exec (step timestamp marshal) h events).Rotated timestamp opened
      (times ++ h.rotations timestamp marshal events) ∧
    listAt (Run.exec (step timestamp marshal) h events).logger.dir
        (Run.exec (step timestamp marshal) h events).logger.currentPath =
      (h.sinceRotation timestamp marshal since events).flatMap fun e => (marshal e).toOption.toList := by
  induction events generalizing h times since with
  | nil =>
    rw [rotations, List.append_nil]
    exact ⟨hr, hsince⟩
  | cons e events ih =>
    rw [rotations, ← List.append_assoc] at hlater ⊢
    obtain ⟨hr', hlines⟩ := rotated_step marshal hr e fun hfull t ht => by
      rw [if_pos hfull, List.append_assoc, ← List.cons_append, List.pairwise_append] at hlater
      exact hlater.2.2 t ht e.1 (List.mem_append_left _ (List.mem_singleton.2 rfl))
    refine ih hr' ?_ hlater
    rw [hlines, List.flatMap_append, List.flatMap_singleton, hsince]
    split <;> rfl

/-- The current file is listed first, and its lines were written last. -/
theorem Rotated.listedLines_eq (hr : h.Rotated timestamp opened times) :
    listedLines h.logger.dir = listAt h.logger.dir h.logger.currentPath ++
      times.flatMap fun t => listAt h.logger.dir (logPath timestamp t) := by
  rw [listedLines, getLogFiles_eq hr.sorted hr.logs, List.map_cons, List.flatMap_cons, List.flatMap_map, hr.path]

/-- The listing is in order if there are no rotated files or the current file is empty, and with lines that are all
different only then. -/
theorem Rotated.chronological_iff (hr : h.Rotated timestamp opened times) :
    (times = [] ∨ listAt h.logger.dir h.logger.currentPath = [] → h.Chronological) ∧
      (h.written.Nodup → h.Chronological → times = [] ∨ listAt h.logger.dir h.logger.currentPath = []) := by
  unfold Chronological
  rw [hr.listedLines_eq, hr.written]
  have hnonempty := hr.nonempty
  constructor
  · rintro (rfl | hnil)
    · simp
    · rw [hnil, List.append_nil, List.nil_append]
  · intro hnodup heq
    cases times with
    | nil => exact .inl rfl
    | cons t times =>
      right
      -- the first line would be both in the current file and in a rotated one
      by_contra hcurrent
      obtain ⟨x, xs, hxs⟩ := List.exists_cons_of_ne_nil hcurrent
      obtain ⟨y, ys, hys⟩ := List.exists_cons_of_ne_nil (hnonempty t List.mem_cons_self)
      rw [List.flatMap_cons, hxs, hys] at heq hnodup
      obtain ⟨rfl, -⟩ := List.cons.inj heq
      exact (List.nodup_append.1 hnodup).2.2 x List.mem_cons_self x List.mem_cons_self rfl

variable (timestamp marshal) in
/-- A logger on a directory without logs, for whose opening and rotations the names increase: the files list the lines
in the order of writing if nothing was rotated or no event could be encoded since, and with lines that are all
different only then. -/
theorem chronological_exec_iff (config : LoggerConfig) (dir : LogDir) (hdir : ∀ name ∈ dir, ¬ IsLog name)
    (opened : Time) (events : List (Time × Event))
    (hlater : (opened :: (start timestamp config dir opened).rotations timestamp marshal events).Pairwise
      fun a b => logPath timestamp a < logPath timestamp b) :
    let h := Run.exec (step timestamp marshal) (start timestamp config dir opened) events
    ((start timestamp config dir opened).NothingSince timestamp marshal events → h.Chronological) ∧
      (h.written.Nodup →
        (h.Chronological ↔ (start timestamp config dir opened).NothingSince timestamp marshal events)) := by
  intro h
  have hfresh : logPath timestamp opened ∉ dir := fun hmem => hdir _ hmem (isLog_logPath timestamp opened)
  have hempty : listAt (start timestamp config dir opened).logger.dir
      (start timestamp config dir opened).logger.currentPath =
        ([] : List Event).flatMap fun e => (marshal e).toOption.toList := by
    show listAt (dir.openAppend (logPath timestamp opened)) (logPath timestamp opened) = []
    rw [LogDir.openAppend, if_neg hfresh, Contents.listAt_insert]
  obtain ⟨hrotated, hlines⟩ := rotated_exec (rotated_start hdir opened) hempty hlater
  have hnothing : (start timestamp config dir opened).NothingSince timestamp marshal events ↔
      (start timestamp config dir opened).rotations timestamp marshal events = [] ∨
        listAt h.logger.dir h.logger.currentPath = [] := by
    unfold NothingSince
    rw [hlines, List.flatMap_eq_nil_iff]
    simp only [Option.toList_eq_nil_iff]
  rw [hnothing]
  obtain ⟨hsuff, hnec⟩ := hrotated.chronological_iff
  exact ⟨hsuff, fun hnodup => ⟨hnec hnodup, hsuff⟩⟩

/-- Two events in different seconds, with the size limit one: the second one rotates, and its line is listed first. -/
theorem not_chronological_two_seconds :
    let h := Run.exec (step CivilTime.stamp fun e : Bytes => .ok e)
      (start CivilTime.stamp ⟨"logs", 1, 0, 0, 0⟩ ∅ 0) [(1000000000, [1]), (2000000000, [2])]
    (start CivilTime.stamp ⟨"logs", 1, 0, 0, 0⟩ ∅ 0).rotations CivilTime.stamp (fun e : Bytes => .ok e)
        [(1000000000, [1]), (2000000000, [2])] = [2000000000] ∧
      h.written = [[1], [2]] ∧ getLogFiles h.logger.dir = ["audit_19700101_000000.log", "audit_19700101_000002.log"] ∧
      listedLines h.logger.dir = [[2], [1]] ∧ ¬ h.Chronological := by
  unfold Chronological
  decide +kernel

/-- Every event but one can be encoded. -/
def marshalButTwo (e : Bytes) : Except String Bytes :=
  if e = [2] then .error "json: unsupported value: NaN" else .ok e

/-- Eight hours ahead of UTC, the second event rotates and cannot be encoded: the line of the first one is the only
one and in the file that was rotated. -/
theorem chronological_after_rotation :
    (start (localStamp fun _ => 28800) ⟨"logs", 1, 0, 0, 0⟩ ∅ 0).rotations (localStamp fun _ => 28800) marshalButTwo
        [(1000000000, [1]), (2000000000, [2])] = [2000000000] ∧
    getLogFiles (Run.exec (step (localStamp fun _ => 28800) marshalButTwo)
      (start (localStamp fun _ => 28800) ⟨"logs", 1, 0, 0, 0⟩ ∅ 0)
      [(1000000000, [1]), (2000000000, [2])]).logger.dir =
        ["audit_19700101_080000.log", "audit_19700101_080002.log"] ∧
    (Run.exec (step (localStamp fun _ => 28800) marshalButTwo)
      (start (localStamp fun _ => 28800) ⟨"logs", 1, 0, 0, 0⟩ ∅ 0)
      [(1000000000, [1]), (2000000000, [2])]).Chronological := by
  have hrotations : (start (localStamp fun _ => 28800) ⟨"logs", 1, 0, 0, 0⟩ ∅ 0).rotations
      (localStamp fun _ => 28800) marshalButTwo [(1000000000, [1]), (2000000000, [2])] = [2000000000] := by
    decide +kernel
  refine ⟨hrotations, by decide +kernel, ?_⟩
  refine (chronological_exec_iff _ marshalButTwo ⟨"logs", 1, 0, 0, 0⟩ ∅
    (fun _ hname => absurd hname (AList.notMem_empty _)) 0 _ ?_).1 (by decide +kernel)
  rw [hrotations]
  exact List.pairwise_pair.2 (logPath_lt (by decide +kernel) (by decide +kernel) (by decide))

end History

end Logger

end Audit

end DistributedBloomFilter
