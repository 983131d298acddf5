import DistributedBloomFilter.Lib.FileSystem
import DistributedBloomFilter.Metadata.Service

/-!
# How `Save` replaces the file

The section of `Save` under `writeMu`, call by call: the directory is made, the temporary file is opened and emptied,
written piece by piece and closed, and then moved over `metadata.json`.  Every call can fail, and the process can end
between any two of them, whereupon another one starts with the files as they are.

All calls of `Save` use one temporary file.  As the lock is held from before it is emptied until after it is moved, it
holds the whole text of one `Save` when it is moved, and nothing else touches `metadata.json`.  So the file is always
a whole text (`metadataFile_whole`), and it is the file of the service whose `Save` replaces it in one step
(`read_eq_file`).
-/

namespace DistributedBloomFilter

open Run (exec Admits)

/-- The files of the data directory, whose path is left out. -/
abbrev DataDir := FileSystem String UInt8

def metadataPath : String := "metadata.json"

def tmpPath : String := metadataPath ++ ".tmp"

/-- Where the `Save` is that holds `writeMu`. -/
inductive SaveStage where
  | locked
  /-- the directory is there -/
  | made
  /-- in `os.WriteFile`, with the open file, the offset and what is still to be written -/
  | writing (file offset : Nat) (rest : Bytes)
  | closed
  | renamed
  /-- the rename failed -/
  | removing
  | returning
deriving DecidableEq

/-- The service with its files.  `holder` is the goroutine that holds `writeMu`; `snapshots` are the metadata of which
texts were made, by this process and those before it, and are not data of the program. -/
structure SavingService (V : Type) where
  service : Service V
  dir : DataDir
  holder : Option (Nat × SaveStage)
  snapshots : List (Metadata V)

namespace SavingService

variable {V : Type}

/-- What happens: to the metadata, to a call of `Save` before it holds `writeMu`, to the one that holds it, and to the
process. -/
inductive Event (V : Type) where
  | mutate (now : Time) (mutation : Mutation V)
  /-- `Load` has replaced the metadata -/
  | load (m : Metadata V)
  | save (t : Nat)
  | marshal (t : Nat) (now : Time)
  | lock (t : Nat)
  | mkdirAll (ok : Bool)
  | openFile (ok : Bool)
  /-- some of the bytes have been written -/
  | write (n : Nat)
  | writeFails
  | close (ok : Bool)
  | rename (ok : Bool)
  | remove (ok : Bool)
  | syncDir
  | unlock
  /-- the process ends, and another one has loaded or made this metadata -/
  | crash (m : Metadata V)

section Model

variable (json : Json (Metadata V)) (s : SavingService V)

/-- The metadata of which a call makes a text, if it does. -/
def snapshot (t : Nat) (now : Time) : List (Metadata V) :=
  match s.service.called.lookup t, json.marshal { s.service.metadata with updatedAt := now } with
  | some _, .ok _ => [{ s.service.metadata with updatedAt := now }]
  | _, _ => []

/-- `Save` returns an error; its text is not written. -/
def fail (t : Nat) : SavingService V :=
  { s with
    service := { s.service with waiting := s.service.waiting.filter fun w => w.1 ≠ t }
    holder := some (t, .returning) }

/-- The next call of the goroutine that holds `writeMu`; one that does not come next does nothing. -/
def advance (t : Nat) : SaveStage → Event V → SavingService V
  | .locked, .mkdirAll ok => if ok then { s with holder := some (t, .made) } else s.fail t
  | .made, .openFile ok =>
    if ok then
      match s.service.waiting.find? fun w => w.1 = t with
      | none => s
      | some w =>
        let (dir, file) := s.dir.openTrunc tmpPath
        { s with dir := dir, holder := some (t, .writing file 0 w.2.data) }
    else s.fail t
  | .writing file offset rest, .write n =>
    { s with
      dir := s.dir.writeAt file offset (rest.take n)
      holder := some (t, .writing file (offset + (rest.take n).length) (rest.drop n)) }
  | .writing _ _ _, .writeFails => s.fail t
  | .writing _ _ [], .close ok => if ok then { s with holder := some (t, .closed) } else s.fail t
  | .closed, .rename ok =>
    match if ok then s.dir.rename tmpPath metadataPath else none with
    | none => { s with holder := some (t, .removing) }
    | some dir => { s with service := s.service.write t, dir := dir, holder := some (t, .renamed) }
  | .removing, .remove ok => if ok then { s with dir := s.dir.remove tmpPath }.fail t else s.fail t
  | .renamed, .syncDir => { s with holder := some (t, .returning) }
  | .returning, .unlock => { s with holder := none }
  | _, _ => s

def step : Event V → SavingService V
  | .mutate now mutation => { s with service := s.service.step json (.mutate now mutation) }
  | .load m => { s with service := s.service.update m }
  | .save t => { s with service := s.service.step json (.save t) }
  | .marshal t now =>
    { s with
      service := s.service.step json (.marshal t now)
      snapshots := s.snapshots ++ s.snapshot json t now }
  | .lock t =>
    if s.holder = none ∧ t ∈ s.service.waiting.map Prod.fst then { s with holder := some (t, .locked) } else s
  | .crash m => { s with service := Service.newService m (s.dir.read metadataPath), holder := none }
  | e =>
    match s.holder with
    | none => s
    | some (t, stage) => s.advance t stage e

end Model

/-- The first process, with the files as it finds them. -/
def start (m : Metadata V) (dir : DataDir) : SavingService V :=
  { service := Service.newService m (dir.read metadataPath), dir := dir, holder := none, snapshots := [] }

/-- The file is what it was before the first process, or one whole text of a `Save`. -/
def Whole (json : Json (Metadata V)) (earlier : Option Bytes) (s : SavingService V) : Prop :=
  s.dir.read metadataPath = earlier ∨
    ∃ m ∈ s.snapshots, ∃ data, json.marshal m = .ok data ∧ s.dir.read metadataPath = some data

/-! ### The invariant -/

/-- What the temporary file is for the `Save` that holds `writeMu`: what has been written of its text, and the whole
of it once it is closed. -/
def Held (s : SavingService V) (t : Nat) : SaveStage → Prop
  | .writing file offset rest => ∃ text, (t, text) ∈ s.service.waiting ∧ s.dir.links tmpPath = some file ∧
      offset = (s.dir.data file).length ∧ s.dir.data file ++ rest = text.data
  | .closed => ∃ text, (t, text) ∈ s.service.waiting ∧ s.dir.read tmpPath = some text.data
  | _ => True

structure Inv (json : Json (Metadata V)) (earlier : Option Bytes) (s : SavingService V) : Prop where
  service : s.service.Inv json
  file : s.dir.read metadataPath = s.service.file
  texts : ∀ w ∈ s.service.waiting, ∃ m ∈ s.snapshots, json.marshal m = .ok w.2.data
  whole : s.Whole json earlier
  held : ∀ t stage, s.holder = some (t, stage) → s.Held t stage

theorem metadataPath_ne_tmpPath : metadataPath ≠ tmpPath := by
  decide

variable {json : Json (Metadata V)} {earlier : Option Bytes} {s : SavingService V}

theorem inv_start (m : Metadata V) (dir : DataDir) : Inv json (dir.read metadataPath) (start m dir) where
  service := Service.inv_new m _
  file := rfl
  texts := fun _ hw => absurd hw List.not_mem_nil
  whole := .inl rfl
  held := fun _ _ h => by cases h

/-- The metadata changes, and perhaps another text waits; the files do not. -/
theorem Inv.frame (h : Inv json earlier s) {service : Service V} {snapshots : List (Metadata V)}
    (hinv : service.Inv json) (hfile : service.file = s.service.file) (hwaiting : s.service.waiting ⊆ service.waiting)
    (htexts : ∀ w ∈ service.waiting, ∃ m ∈ snapshots, json.marshal m = .ok w.2.data)
    (hsnapshots : s.snapshots ⊆ snapshots) :
    Inv json earlier { s with service := service, snapshots := snapshots } where
  service := hinv
  file := h.file.trans hfile.symm
  texts := htexts
  whole := h.whole.imp_right fun ⟨m, hm, hdata⟩ => ⟨m, hsnapshots hm, hdata⟩
  held := by
    intro t stage hholder
    have hheld := h.held t stage hholder
    cases stage with
    | writing file offset rest =>
      obtain ⟨text, htext, hrest⟩ := hheld
      exact ⟨text, hwaiting htext, hrest⟩
    | closed =>
      obtain ⟨text, htext, hrest⟩ := hheld
      exact ⟨text, hwaiting htext, hrest⟩
    | locked | made | renamed | removing | returning => trivial

theorem Inv.marshal (h : Inv json earlier s) (t : Nat) (now : Time) :
    Inv json earlier (s.step json (.marshal t now)) := by
  have hinv := Service.inv_step h.service (.marshal t now)
  have hold : ∀ w ∈ s.service.waiting, ∃ m ∈ s.snapshots ++ s.snapshot json t now, json.marshal m = .ok w.2.data := by
    intro w hw
    obtain ⟨m, hm, hdata⟩ := h.texts w hw
    exact ⟨m, List.mem_append_left _ hm, hdata⟩
  have hsub : s.snapshots ⊆ s.snapshots ++ s.snapshot json t now := List.subset_append_left ..
  show Inv json earlier { s with service := s.service.marshal json t now, snapshots := _ }
  change (s.service.marshal json t now).Inv json at hinv
  rcases Service.marshal_cases json s.service t now with
    ⟨-, heq⟩ | ⟨begin, hlookup, ⟨err, -, heq⟩ | ⟨data, hdata, heq⟩⟩
  · rw [heq] at hinv ⊢
    exact h.frame hinv rfl (List.Subset.refl _) hold hsub
  · rw [heq] at hinv ⊢
    exact h.frame hinv rfl (List.Subset.refl _) hold hsub
  · rw [heq] at hinv ⊢
    refine h.frame hinv rfl (List.subset_append_left ..) (List.forall_mem_append.2 ⟨hold, ?_⟩) hsub
    refine List.forall_mem_singleton.2 ⟨_, List.mem_append_right _ ?_, hdata⟩
    simp only [snapshot, hlookup, hdata]
    exact List.mem_singleton.2 rfl

/-- The holder goes on to a stage that needs nothing of the files, or gives up the lock. -/
theorem Inv.withHolder (h : Inv json earlier s) {holder : Option (Nat × SaveStage)}
    (hheld : ∀ t stage, holder = some (t, stage) → s.Held t stage) : Inv json earlier { s with holder := holder } :=
  ⟨h.service, h.file, h.texts, h.whole, hheld⟩

theorem Inv.fail (h : Inv json earlier s) (t : Nat) : Inv json earlier (s.fail t) where
  service := h.service.sublist List.filter_sublist
  file := h.file
  texts := fun w hw => h.texts w (List.mem_of_mem_filter hw)
  whole := h.whole
  held := fun _ _ hholder => by
    obtain ⟨-, rfl⟩ := Prod.mk.inj (Option.some.inj hholder)
    trivial

/-- The temporary file changes, and with it the stage of the holder. -/
theorem Inv.withDir (h : Inv json earlier s) {dir : DataDir} (hread : dir.read metadataPath = s.dir.read metadataPath)
    {t : Nat} {stage : SaveStage} (hheld : Held { s with dir := dir } t stage) :
    Inv json earlier { s with dir := dir, holder := some (t, stage) } where
  service := h.service
  file := hread.trans h.file
  texts := h.texts
  whole := by
    show dir.read metadataPath = earlier ∨ ∃ m ∈ s.snapshots, ∃ data, json.marshal m = .ok data ∧ _ = some data
    rw [hread]
    exact h.whole
  held := fun _ _ hholder => by
    obtain ⟨rfl, rfl⟩ := Prod.mk.inj (Option.some.inj hholder)
    cases stage <;> exact hheld

theorem Inv.openFile (h : Inv json earlier s) {t : Nat} {text : Marshalled} (htext : (t, text) ∈ s.service.waiting) :
    Inv json earlier
      { s with
        dir := (s.dir.openTrunc tmpPath).1
        holder := some (t, .writing (s.dir.openTrunc tmpPath).2 0 text.data) } := by
  obtain ⟨hlinks, hdata⟩ := FileSystem.openTrunc_spec s.dir tmpPath
  refine h.withDir (FileSystem.read_openTrunc_of_ne metadataPath_ne_tmpPath) ⟨text, htext, hlinks, ?_, ?_⟩
  · show 0 = ((s.dir.openTrunc tmpPath).1.data _).length
    rw [hdata]
    rfl
  · show (s.dir.openTrunc tmpPath).1.data _ ++ text.data = text.data
    rw [hdata]
    rfl

theorem Inv.writeAt (h : Inv json earlier s) {t file offset : Nat} {rest : Bytes}
    (hheld : s.Held t (.writing file offset rest)) (n : Nat) :
    Inv json earlier
      { s with
        dir := s.dir.writeAt file offset (rest.take n)
        holder := some (t, .writing file (offset + (rest.take n).length) (rest.drop n)) } := by
  obtain ⟨text, htext, hlinks, rfl, hdata⟩ := hheld
  have hwritten := FileSystem.data_writeAt_length s.dir file (rest.take n)
  refine h.withDir (FileSystem.read_writeAt_of_ne hlinks metadataPath_ne_tmpPath _ _) ⟨text, htext, hlinks, ?_, ?_⟩
  · show _ = ((s.dir.writeAt file (s.dir.data file).length (rest.take n)).data file).length
    rw [hwritten, List.length_append]
  · show (s.dir.writeAt file (s.dir.data file).length (rest.take n)).data file ++ rest.drop n = text.data
    rw [hwritten, List.append_assoc, List.take_append_drop, hdata]

/-- All of the text has been written. -/
theorem Held.closed {t file offset : Nat} (hheld : s.Held t (.writing file offset [])) : s.Held t .closed := by
  obtain ⟨text, htext, hlinks, -, hdata⟩ := hheld
  rw [List.append_nil] at hdata
  exact ⟨text, htext, by rw [FileSystem.read_of_links hlinks, hdata]⟩

/-- The text that is moved is the one that the service writes. -/
theorem Inv.rename (h : Inv json earlier s) {t : Nat} (hheld : s.Held t .closed) {dir : DataDir}
    (hrename : s.dir.rename tmpPath metadataPath = some dir) :
    Inv json earlier { s with service := s.service.write t, dir := dir, holder := some (t, .renamed) } := by
  obtain ⟨text, htext, hread⟩ := hheld
  have hmoved : dir.read metadataPath = some text.data := (FileSystem.read_rename hrename).trans hread
  have hinv : (s.service.write t).Inv json := Service.inv_step h.service (.write t)
  rcases Service.write_cases h.service.owners t with ⟨hnotMem, -⟩ | ⟨u, l, r, hwaiting, hothers, heq⟩
  · exact absurd (List.mem_map_of_mem htext) hnotMem
  have hu : text = u := by
    rw [hwaiting] at htext
    rcases List.mem_append.1 htext with hl | hr
    · exact absurd rfl (hothers _ (List.mem_append_left _ hl))
    · rcases List.mem_cons.1 hr with heq | hr
      · exact (Prod.mk.inj heq).2
      · exact absurd rfl (hothers _ (List.mem_append_right _ hr))
  subst hu
  obtain ⟨m, hm, hdata⟩ := h.texts _ htext
  refine ⟨hinv, ?_, fun w hw => ?_, .inr ⟨m, hm, text.data, hdata, hmoved⟩, fun _ _ hholder => ?_⟩
  · show dir.read metadataPath = (s.service.write t).file
    rw [hmoved, heq]
  · refine h.texts w ?_
    change w ∈ (s.service.write t).waiting at hw
    rw [heq] at hw
    rw [hwaiting]
    exact (List.sublist_cons_self _ _).append_left l |>.subset hw
  · obtain ⟨-, rfl⟩ := Prod.mk.inj (Option.some.inj hholder)
    trivial

theorem Inv.remove (h : Inv json earlier s) (t : Nat) :
    Inv json earlier ({ s with dir := s.dir.remove tmpPath }.fail t) := by
  have hdir : Inv json earlier { s with dir := s.dir.remove tmpPath, holder := some (t, .removing) } :=
    h.withDir (FileSystem.read_remove_of_ne metadataPath_ne_tmpPath) trivial
  exact hdir.fail t

/-- The holder goes on to a stage that needs nothing of the files. -/
theorem Inv.toStage (h : Inv json earlier s) {t : Nat} {stage : SaveStage} (hheld : s.Held t stage) :
    Inv json earlier { s with holder := some (t, stage) } := by
  refine h.withHolder fun t' stage' hholder => ?_
  obtain ⟨rfl, rfl⟩ := Prod.mk.inj (Option.some.inj hholder)
  exact hheld

theorem inv_advance (h : Inv json earlier s) {t : Nat} {stage : SaveStage} (hheld : s.Held t stage) (e : Event V) :
    Inv json earlier (s.advance t stage e) := by
  unfold advance
  split
  · -- `os.MkdirAll`
    split
    · exact h.toStage trivial
    · exact h.fail t
  · -- the temporary file is opened
    split
    · split
      · exact h
      · rename_i w hw
        have howner : w.1 = t := by simpa using List.find?_some hw
        exact h.openFile (howner ▸ List.mem_of_find?_eq_some hw)
    · exact h.fail t
  · exact h.writeAt hheld _
  · exact h.fail t
  · split
    · exact h.toStage hheld.closed
    · exact h.fail t
  · -- `os.Rename`
    split
    · exact h.toStage trivial
    · rename_i dir hrename
      split at hrename
      · exact h.rename hheld hrename
      · cases hrename
  · split
    · exact h.remove t
    · exact h.fail t
  · exact h.toStage trivial
  · exact h.withHolder fun _ _ hholder => by cases hholder
  · exact h

theorem inv_step (h : Inv json earlier s) (e : Event V) : Inv json earlier (s.step json e) := by
  -- a call of the goroutine that holds the lock
  have hholder : ∀ e, Inv json earlier (match s.holder with
      | none => s
      | some (t, stage) => s.advance t stage e) := by
    intro e
    split
    · exact h
    · rename_i t stage hholder
      exact inv_advance h (h.held t stage hholder) e
  cases e with
  | mutate now mutation => exact h.frame (h.service.update _) rfl (List.Subset.refl _) h.texts (List.Subset.refl _)
  | load m => exact h.frame (h.service.update m) rfl (List.Subset.refl _) h.texts (List.Subset.refl _)
  | save t =>
    have hsame : (s.service.save t).file = s.service.file ∧ (s.service.save t).waiting = s.service.waiting := by
      unfold Service.save
      split <;> exact ⟨rfl, rfl⟩
    refine h.frame (Service.inv_step h.service (.save t)) hsame.1 ?_ ?_ (List.Subset.refl _)
    · exact fun w hw => hsame.2.symm ▸ hw
    · exact fun w hw => h.texts w (hsame.2 ▸ hw)
  | marshal t now => exact h.marshal t now
  | lock t =>
    show Inv json earlier (if _ then _ else s)
    split
    · exact h.toStage (show s.Held t .locked from trivial)
    · exact h
  | crash m =>
    exact ⟨Service.inv_new m _, rfl, fun _ hw => absurd hw List.not_mem_nil, h.whole, fun _ _ hnone => by cases hnone⟩
  | mkdirAll | openFile | write | writeFails | close | rename | remove | syncDir | unlock => exact hholder _

theorem inv_exec (json : Json (Metadata V)) (m : Metadata V) (dir : DataDir) (es : List (Event V)) :
    Inv json (dir.read metadataPath) (exec (step json) (start m dir) es) := by
  have hstep : ∀ (s : SavingService V) (e : Event V), Inv json (dir.read metadataPath) s →
      Inv json (dir.read metadataPath) (s.step json e) := fun _ e h => inv_step h e
  exact Run.keeps hstep (inv_start m dir) es

/-- The calls of one `Save` after the other, whatever fails and whenever the process ends, do to `metadata.json` what
the service does when a text replaces the file in one step. -/
theorem read_eq_file (json : Json (Metadata V)) (m : Metadata V) (dir : DataDir) (es : List (Event V)) :
    (exec (step json) (start m dir) es).dir.read metadataPath = (exec (step json) (start m dir) es).service.file :=
  (inv_exec json m dir es).file

/-- At every point of every run `metadata.json` is what it was at first, or the whole text of one `Save`. -/
theorem metadataFile_whole (json : Json (Metadata V)) (m : Metadata V) (dir : DataDir) (es : List (Event V)) :
    (exec (step json) (start m dir) es).Whole json (dir.read metadataPath) :=
  (inv_exec json m dir es).whole

/-- A `Save` replaces the file; the next one has written seven bytes when the process ends. -/
example : (exec (step (Json.ofTable Service.sampleTable))
    (start Service.sampleMetadata ⟨fun _ => none, fun _ => [], 0, nofun, nofun⟩)
    [.save 0, .marshal 0 (Service.savedAt + 1), .lock 0, .mkdirAll true, .openFile true, .write 500, .close true,
      .rename true, .syncDir, .unlock, .mutate (Service.savedAt + 2) (.addClusterNode "node2"), .save 1,
      .marshal 1 (Service.savedAt + 3), .lock 1, .mkdirAll true, .openFile true, .write 7,
      .crash Service.sampleMetadata]).dir.read metadataPath =
      some (Service.sampleText "2026-03-14T00:00:00.000000001Z" "[]") := by
  decide +kernel

end SavingService

end DistributedBloomFilter
