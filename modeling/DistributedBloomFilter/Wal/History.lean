import DistributedBloomFilter.Wal.Reader
import DistributedBloomFilter.Wal.Writer
import Mathlib.Data.List.ModifyLast

/-!
# Histories of the log

Writes, rolls, restarts, crashes and key rotations, from an empty directory on.  A crash is a `Write` that stops
anywhere: before the roll, in the middle of it or with a strict prefix of its record in the file.  The invariant
(`Stored`) keeps the acknowledged payloads by the file they went to: the files that are left are the newest ones, and
each holds its payloads and at most a torn record after them, because a new file is started after every crash.
-/

namespace DistributedBloomFilter

open BigEndian (uint32)
open Run (exec Admits)

/-- The log on disk, its writer if one is running, and what has been acknowledged: in order, and for every file ever
made the payloads that went to it. -/
structure History where
  enc : WALEncryptor
  dir : Dir
  writer : Option WALWriter
  acked : List Bytes
  files : List (List Bytes)

namespace History

inductive Event where
  /-- a new writer on the same directory -/
  | restart (now : Time)
  | write (now later : Time) (rand : Except String (BytesN 12)) (data : Bytes)
  /-- a `Write` that stops at a fault, at the latest after `written` bytes of its record -/
  | crash (io : Faults) (written : Nat) (now later : Time) (rand : Except String (BytesN 12)) (data : Bytes)
  | rotateKey (now : Time) (rand : Except String (BytesN 32))

def start (e : WALEncryptor) : History := { enc := e, dir := [], writer := none, acked := [], files := [] }

/-- The files by their payloads after a `Write`, before its own payload is put down: there is one more if a file was
opened. -/
def filesAfter (files : List (List Bytes)) (w : WALWriter) (o : Outcome) : List (List Bytes) :=
  if o.writer.currentName = w.currentName then files else files ++ [[]]

section Steps

variable (aead : Aead) (config : WALConfig)

def step (s : History) : Event → History
  | .restart now =>
    match newWALWriterWithConfig s.dir config .none now with
    | .error _ => s
    | .ok (w, dir) =>
      { s with
        writer := some w
        dir := dir
        files := if s.dir.lookup w.currentName = none then s.files ++ [[]] else s.files }
  | .write now later rand data =>
    match s.writer with
    | none => s
    | some w =>
      let o := w.write aead s.enc s.dir .none now later rand data
      match o.err with
      | some _ => { s with writer := some o.writer, dir := o.dir, files := filesAfter s.files w o }
      | none =>
        { s with
          writer := some o.writer
          dir := o.dir
          acked := s.acked ++ [data]
          files := (filesAfter s.files w o).modifyLast (· ++ [data]) }
  | .crash io written now later rand data =>
    match s.writer with
    | none => s
    | some w =>
      let o := w.write aead s.enc s.dir { io with write := some (written, "crash") } now later rand data
      { s with writer := none, dir := o.dir, files := filesAfter s.files w o }
  | .rotateKey now rand => { s with enc := (s.enc.rotateKey now rand).1 }

/-- Payloads are shorter than `2 ^ 32 - 64` bytes, a crash leaves less than the whole record, and fewer than a million
files are made. -/
def Admissible (s : History) (e : Event) : Prop :=
  (s.step aead config e).files.length < 10 ^ 6 ∧
  match e with
  | .write _ _ _ data => data.length < 2 ^ 32 - 64
  | .crash _ written _ _ _ data => data.length < 2 ^ 32 - 64 ∧ written < data.length + 36
  | .restart _ | .rotateKey _ _ => True

/-- A rotation finds no record under the next version, unless that version has the new key already. -/
def NextFree (s : History) : Event → Prop
  | .rotateKey _ rand => ∀ newKey ∈ rand.toOption, ∀ f ∈ s.dir, ∀ r ∈ fileFrames f.data,
      uint32 (r.drop 4) = s.enc.keyVersion + 1 → s.enc.keyCache (s.enc.keyVersion + 1) = some newKey.1
  | _ => True

/-- `ReadAll` returns no error and a suffix of the acknowledged payloads, with everything that went to the newest
`maxFiles` files. -/
def Recovers (s : History) : Prop :=
  ∃ results, readAll aead s.enc s.dir = .ok results ∧ results <:+ s.acked ∧
    (s.files.drop (s.files.length - config.maxFiles.toNat)).flatten <:+ results ∧
    (s.files.length ≤ config.maxFiles → results = s.acked)

end Steps

/-! ### What is stored -/

section Stored

variable (aead : Aead) (enc : WALEncryptor)

/-- The file holds the payloads, and perhaps a torn record after them. -/
def FileHolds (f : File) (payloads : List Bytes) : Prop := ∃ rest, Torn rest ∧ Holds aead enc f.data payloads rest

/-- Of all the files ever made, the first `d` have been deleted, and the others hold their payloads. -/
structure Stored (maxFiles : Nat) (dir : Dir) (files : List (List Bytes)) (d : Nat) : Prop where
  deleted : d ≤ files.length - maxFiles
  numbered : dir.Numbered (d + 1)
  holds : List.Forall₂ (FileHolds aead enc) dir (files.drop d)

end Stored

variable {aead : Aead} {enc : WALEncryptor}

namespace Stored

variable {maxFiles d : Nat} {dir olds : Dir} {f g : File} {files pss : List (List Bytes)} {ps : List Bytes}

theorem length_dir (h : Stored aead enc maxFiles dir files d) : dir.length = files.length - d := by
  rw [h.holds.length_eq, List.length_drop]

/-- When every file ever made is there, none was deleted. -/
theorem eq_zero_of_length_eq (h : Stored aead enc maxFiles dir files d) (hkept : dir.length = files.length) :
    d = 0 := by
  have hlen := h.length_dir
  have hd := h.deleted
  omega

/-- A change of keys that keeps those of the versions in the log leaves it as it is. -/
theorem mono {enc' : WALEncryptor} (hkeys : ∀ f ∈ dir, ∀ r ∈ fileFrames f.data, ∀ k,
    enc.keyCache (uint32 (r.drop 4)) = some k → enc'.keyCache (uint32 (r.drop 4)) = some k)
    (h : Stored aead enc maxFiles dir files d) : Stored aead enc' maxFiles dir files d := by
  have hkept : List.Forall₂ (fun f ps => (∀ r ∈ fileFrames f.data, ∀ k, enc.keyCache (uint32 (r.drop 4)) = some k →
      enc'.keyCache (uint32 (r.drop 4)) = some k) ∧ FileHolds aead enc f ps) dir (files.drop d) :=
    (List.forall₂_and_left _ _).2 ⟨hkeys, h.holds⟩
  refine ⟨h.deleted, h.numbered, hkept.imp fun f ps hf => ?_⟩
  obtain ⟨hf, rest, htorn, hholds⟩ := hf
  exact ⟨rest, htorn, hholds.mono htorn hf⟩

private theorem drop_concat (hmax : 1 ≤ maxFiles) (hd : d ≤ (pss ++ [ps]).length - maxFiles) (ps' : List Bytes) :
    (pss ++ [ps']).drop d = pss.drop d ++ [ps'] := by
  rw [List.length_append, List.length_singleton] at hd
  exact List.drop_append_of_le_length (by omega)

/-- The newest file is written to. -/
theorem replace_last (hmax : 1 ≤ maxFiles) (h : Stored aead enc maxFiles (olds ++ [f]) (pss ++ [ps]) d)
    (hname : g.name = f.name) {ps' : List Bytes} (hg : FileHolds aead enc g ps') :
    Stored aead enc maxFiles (olds ++ [g]) (pss ++ [ps']) d := by
  obtain ⟨holds, hf⟩ := Dir.numbered_concat.1 h.numbered
  have hfiles := h.holds
  rw [drop_concat hmax h.deleted] at hfiles
  refine ⟨?_, Dir.numbered_concat.2 ⟨holds, hname.trans hf⟩, ?_⟩
  · have := h.deleted
    rwa [List.length_append, List.length_singleton] at this ⊢
  · rw [drop_concat hmax h.deleted]
    exact forall₂_concat.2 ⟨(forall₂_concat.1 hfiles).1, hg⟩

/-- A new file is made, and `j` more of the oldest are deleted. -/
theorem roll (h : Stored aead enc maxFiles dir files d) {j : Nat} (hj : j ≤ dir.length + 1 - maxFiles)
    (hmax : 1 ≤ maxFiles) (hnum : Dir.Numbered (dir.drop j ++ [g]) (d + 1 + j)) (hg : FileHolds aead enc g ps) :
    Stored aead enc maxFiles (dir.drop j ++ [g]) (files ++ [ps]) (d + j) := by
  have hlen := h.length_dir
  have hd := h.deleted
  refine ⟨?_, by rwa [Nat.add_right_comm] at hnum, ?_⟩
  · rw [List.length_append, List.length_singleton]; omega
  · rw [List.drop_append_of_le_length (by omega), ← List.drop_drop]
    exact forall₂_concat.2 ⟨List.forall₂_drop j h.holds, hg⟩

/-- The number of a file that a `Write` opens is the number of files made so far. -/
theorem index_lt {w : WALWriter} {o : Outcome} (h : Stored aead enc maxFiles (olds ++ [f]) files d)
    (hactive : w.Active olds f (d + 1)) (hcount : (filesAfter files w o).length < 10 ^ 6)
    (hne : o.writer.currentName ≠ w.currentName) : w.currentIndex + 1 < 10 ^ 6 := by
  have hlen := h.length_dir
  have hindex := hactive.index
  rw [filesAfter, if_neg hne] at hcount
  simp only [List.length_append, List.length_singleton] at hlen hcount
  omega

theorem readAll (h : Stored aead enc maxFiles dir files d) (hcount : files.length < 10 ^ 6) :
    readAll aead enc dir = .ok (files.drop d).flatten := by
  have hlen := h.length_dir
  have hd := h.deleted
  exact readAll_of_holds h.numbered (by omega) h.holds

end Stored

/-! ### The invariant -/

/-- The writer has the newest file open, and there is no torn record in it. -/
def Running (aead : Aead) (enc : WALEncryptor) (w : WALWriter) (dir : Dir) (files : List (List Bytes)) (d : Nat) :
    Prop :=
  ∃ olds f pss ps, dir = olds ++ [f] ∧ files = pss ++ [ps] ∧ w.Active olds f (d + 1) ∧ Holds aead enc f.data ps []

structure Inv (aead : Aead) (config : WALConfig) (s : History) : Prop where
  acked : s.acked = s.files.flatten
  count : s.files.length < 10 ^ 6
  stored : ∃ d, Stored aead s.enc config.maxFiles.toNat s.dir s.files d ∧
    ∀ w ∈ s.writer, w.config = config ∧ Running aead s.enc w s.dir s.files d

variable {config : WALConfig}

/-- What a `Write` adds to a file that held `qs`: its payload when it returned nil, and otherwise a torn record. -/
theorem holds_of_wrote {err : Option Failure} {data bytes before : Bytes} {qs : List Bytes} {g : File}
    (hwrote : WALWriter.Wrote aead enc data err bytes) (hdata : data.length + 32 < 2 ^ 32)
    (hbefore : Holds aead enc before qs []) (hg : g.data = before ++ bytes) :
    (err = none → Holds aead enc g.data (qs ++ [data]) []) ∧ (err ≠ none → FileHolds aead enc g qs) := by
  rcases hwrote with ⟨herr, hseals⟩ | ⟨herr, hbytes⟩
  · refine ⟨fun _ => ?_, fun hne => absurd herr hne⟩
    rw [hg]
    exact hbefore.concat ⟨_, _, hseals, hdata, enc.cached⟩
  · refine ⟨fun hnil => absurd hnil herr, fun _ => ⟨bytes, ?_, ?_⟩⟩
    · rcases hbytes with rfl | ⟨record, n, hseals, hn, rfl⟩
      · exact torn_nil
      · exact hseals.torn_take hdata hn
    · rw [hg]
      exact hbefore.append_rest bytes

/-- A `Write` keeps what is stored.  When it returns nil, its payload is in the newest file; otherwise it has left at
most a torn record. -/
theorem stored_write {w : WALWriter} {dir : Dir} {files : List (List Bytes)} {d : Nat} {io : Faults}
    {now later : Time} {rand : Except String (BytesN 12)} {data : Bytes} {o : Outcome}
    (hmax : 1 ≤ config.maxFiles) (hstored : Stored aead enc config.maxFiles.toNat dir files d)
    (hconfig : w.config = config) (hrun : Running aead enc w dir files d) (hdata : data.length + 32 < 2 ^ 32)
    (hfault : ∀ n err, io.write = some (n, err) → n < data.length + 36)
    (ho : w.write aead enc dir io now later rand data = o) (hcount : (filesAfter files w o).length < 10 ^ 6) :
    ∃ d', o.writer.config = config ∧
      (o.err = none → Stored aead enc config.maxFiles.toNat o.dir
        ((filesAfter files w o).modifyLast (· ++ [data])) d' ∧
        Running aead enc o.writer o.dir ((filesAfter files w o).modifyLast (· ++ [data])) d') ∧
      (o.err ≠ none → Stored aead enc config.maxFiles.toNat o.dir (filesAfter files w o) d') := by
  obtain ⟨olds, f, pss, ps, rfl, rfl, hactive, hholds⟩ := hrun
  have hmax' : 1 ≤ config.maxFiles.toNat := by omega
  have hlt := hstored.index_lt hactive hcount
  obtain ⟨bytes, hwrote, hconfig', hcases⟩ :=
    WALWriter.write_cases hactive (by rw [hconfig]; exact hmax) hfault ho hlt
  rcases hcases with ⟨hsame, g, hname, hgdata, hdir, hactive', _⟩ | ⟨hne, j, g, hgdata, hj, hdir, hactive'⟩
  · -- the newest file has grown
    obtain ⟨hok, hfail⟩ := holds_of_wrote hwrote hdata hholds hgdata
    rw [filesAfter, if_pos hsame, List.modifyLast_concat, hdir]
    refine ⟨d, hconfig'.trans hconfig, fun herr => ?_, fun herr => ?_⟩
    · exact ⟨hstored.replace_last hmax' hname ⟨[], torn_nil, hok herr⟩,
        olds, g, pss, ps ++ [data], rfl, rfl, hactive' (.inl herr), hok herr⟩
    · exact hstored.replace_last hmax' hname (hfail herr)
  · -- there is a new file
    obtain ⟨hok, hfail⟩ := holds_of_wrote hwrote hdata (holds_nil []) hgdata
    rw [filesAfter, if_neg hne, List.modifyLast_concat, hdir]
    rw [hconfig] at hj
    have hj' : j ≤ (olds ++ [f]).length + 1 - config.maxFiles.toNat := by
      rw [List.length_append, List.length_singleton]; exact hj
    refine ⟨d + j, hconfig'.trans hconfig, fun herr => ?_, fun herr => ?_⟩
    · refine ⟨hstored.roll hj' hmax' hactive'.numbered ⟨[], torn_nil, hok herr⟩, _, g, _, [] ++ [data], rfl, rfl, ?_,
        hok herr⟩
      rw [Nat.add_right_comm]
      exact hactive'
    · exact hstored.roll hj' hmax' hactive'.numbered (hfail herr)

theorem length_modifyLast_concat (files : List (List Bytes)) (data : Bytes) :
    (files.modifyLast (· ++ [data])).length = files.length := by
  rcases List.eq_nil_or_concat files with rfl | ⟨pss, ps, rfl⟩
  · rfl
  · rw [List.concat_eq_append, List.modifyLast_concat, List.length_append, List.length_append]; rfl

theorem flatten_filesAfter (files : List (List Bytes)) (w : WALWriter) (o : Outcome) :
    (filesAfter files w o).flatten = files.flatten := by
  unfold filesAfter
  split
  · rfl
  · simp

/-- The payload of a `Write` comes last. -/
theorem flatten_modifyLast_concat {files : List (List Bytes)} (h : files ≠ []) (data : Bytes) :
    (files.modifyLast (· ++ [data])).flatten = files.flatten ++ [data] := by
  rcases List.eq_nil_or_concat files with rfl | ⟨pss, ps, rfl⟩
  · exact absurd rfl h
  · rw [List.concat_eq_append, List.modifyLast_concat]
    simp

theorem inv_start (e : WALEncryptor) : Inv aead config (start e) where
  acked := rfl
  count := by simp [start]
  stored := ⟨0, ⟨Nat.zero_le _, Dir.numbered_nil 1, List.Forall₂.nil⟩, fun w hw => by cases hw⟩

/-- A new writer starts a new file. -/
theorem step_restart (hmax : 1 ≤ config.maxFiles) {s : History} {d : Nat}
    (hstored : Stored aead s.enc config.maxFiles.toNat s.dir s.files d) (hcount : s.files.length < 10 ^ 6)
    (now : Time) :
    ∃ w g, s.step aead config (.restart now) =
        { s with writer := some w, dir := s.dir ++ [g], files := s.files ++ [[]] } ∧ w.config = config ∧
      Stored aead s.enc config.maxFiles.toNat (s.dir ++ [g]) (s.files ++ [[]]) d ∧
      Running aead s.enc w (s.dir ++ [g]) (s.files ++ [[]]) d := by
  have hlen := hstored.length_dir
  have hd := hstored.deleted
  have hempty : s.dir = [] → d + 1 = 1 := by
    intro hnil
    rw [hnil, List.length_nil] at hlen
    omega
  obtain ⟨w, g, hnew, hgdata, -, hactive, hconfig⟩ :=
    newWALWriterWithConfig_eq hstored.numbered (by omega) hempty config now
  have hlookup : s.dir.lookup w.currentName = none := by
    rw [hactive.name, (Dir.numbered_concat.1 hactive.numbered).2]
    exact hstored.numbered.lookup_next
  have hholds : Holds aead s.enc g.data [] [] := by rw [hgdata]; exact holds_nil []
  refine ⟨w, g, by simp only [step, hnew, if_pos hlookup], hconfig, ?_, s.dir, g, s.files, [], rfl, rfl,
    hactive, hholds⟩
  exact hstored.roll (j := 0) (Nat.zero_le _) (by omega) hactive.numbered ⟨[], torn_nil, hholds⟩

theorem inv_restart (hmax : 1 ≤ config.maxFiles) {s : History} (h : s.Inv aead config) (now : Time)
    (hadm : s.Admissible aead config (.restart now)) : (s.step aead config (.restart now)).Inv aead config := by
  obtain ⟨d, hstored, _⟩ := h.stored
  obtain ⟨w, g, hstep, hconfig, hstored', hrun⟩ := step_restart hmax hstored h.count now
  rw [Admissible, hstep] at hadm
  rw [hstep]
  refine ⟨by simp [h.acked], hadm.1, d, hstored', fun w' hw' => ?_⟩
  obtain rfl := Option.some.inj hw'
  exact ⟨hconfig, hrun⟩

theorem inv_write (hmax : 1 ≤ config.maxFiles) {s : History} (h : s.Inv aead config) {now later : Time}
    {rand : Except String (BytesN 12)} {data : Bytes} (hadm : s.Admissible aead config (.write now later rand data)) :
    (s.step aead config (.write now later rand data)).Inv aead config := by
  obtain ⟨hlen, hdata⟩ := hadm
  obtain ⟨d, hstored, hrun⟩ := h.stored
  simp only [step] at hlen ⊢
  cases hw : s.writer with
  | none => exact h
  | some w =>
    obtain ⟨hconfig, hrun⟩ := hrun w hw
    rw [hw] at hlen
    dsimp only at hlen ⊢
    cases ho : w.write aead s.enc s.dir .none now later rand data with
    | mk w' dir' err =>
      rw [ho] at hlen
      have hcount : (filesAfter s.files w ⟨w', dir', err⟩).length < 10 ^ 6 := by
        cases err with
        | none => exact length_modifyLast_concat _ data ▸ hlen
        | some err => exact hlen
      obtain ⟨d', hconfig', hok, hfail⟩ := stored_write hmax hstored hconfig hrun (by omega)
        (fun n err hio => by cases hio) ho hcount
      have hne : filesAfter s.files w ⟨w', dir', err⟩ ≠ [] := by
        obtain ⟨_, _, pss, ps, _, hfiles, _⟩ := hrun
        rw [filesAfter, hfiles]
        split <;> simp
      cases err with
      | none =>
        obtain ⟨hstored', hrun'⟩ := hok rfl
        refine ⟨?_, hlen, d', hstored', fun w'' hw'' => ?_⟩
        · show s.acked ++ [data] = _
          rw [flatten_modifyLast_concat hne, flatten_filesAfter, h.acked]
        · obtain rfl := Option.some.inj hw''
          exact ⟨hconfig', hrun'⟩
      | some err =>
        -- the data could not be encrypted
        obtain ⟨olds, f, pss, ps, hdir, _, hactive, _⟩ := id hrun
        have hlt := (hdir ▸ hstored).index_lt hactive hcount
        rcases WALWriter.write_none_cases hactive (by rw [hconfig]; exact hmax) (hdir ▸ ho) hlt with
          ⟨herr, _⟩ | ⟨_, hw', hdir'⟩
        · cases herr
        · obtain rfl : w' = w := hw'
          obtain rfl : dir' = s.dir := hdir'.trans hdir.symm
          rw [filesAfter, if_pos rfl]
          refine ⟨h.acked, h.count, d, hstored, fun w'' hw'' => ?_⟩
          obtain rfl := Option.some.inj hw''
          exact ⟨hconfig, hrun⟩

theorem inv_crash (hmax : 1 ≤ config.maxFiles) {s : History} (h : s.Inv aead config) {io : Faults} {written : Nat}
    {now later : Time} {rand : Except String (BytesN 12)} {data : Bytes}
    (hadm : s.Admissible aead config (.crash io written now later rand data)) :
    (s.step aead config (.crash io written now later rand data)).Inv aead config := by
  obtain ⟨hlen, hdata, hwritten⟩ := hadm
  obtain ⟨d, hstored, hrun⟩ := h.stored
  simp only [step] at hlen ⊢
  cases hw : s.writer with
  | none => exact h
  | some w =>
    obtain ⟨hconfig, hrun⟩ := hrun w hw
    rw [hw] at hlen
    dsimp only at hlen ⊢
    have hfault : ∀ n err, some (written, "crash") = some (n, err) → n < data.length + 36 := by
      rintro n err heq
      obtain ⟨rfl, -⟩ := Prod.mk.inj (Option.some.inj heq)
      exact hwritten
    obtain ⟨d', _, _, hfail⟩ := stored_write hmax hstored hconfig hrun (by omega) hfault rfl hlen
    have herr := WALWriter.write_err_ne_none aead s.enc w s.dir { io with write := some (written, "crash") } rfl now
      later rand data
    refine ⟨?_, hlen, d', hfail herr, fun w' hw' => by cases hw'⟩
    show s.acked = (filesAfter s.files w _).flatten
    rw [flatten_filesAfter, h.acked]

theorem inv_rotateKey {s : History} (h : s.Inv aead config) (now : Time) (rand : Except String (BytesN 32))
    (hfree : s.NextFree (.rotateKey now rand)) : (s.step aead config (.rotateKey now rand)).Inv aead config := by
  have hkeys : ∀ f ∈ s.dir, ∀ r ∈ fileFrames f.data, ∀ k, s.enc.keyCache (uint32 (r.drop 4)) = some k →
      (s.enc.rotateKey now rand).1.keyCache (uint32 (r.drop 4)) = some k := by
    intro f hf r hr k hk
    refine WALEncryptor.keyCache_rotateKey now (fun newKey hnew hnext => ?_) hk
    have hsame := hfree newKey hnew f hf r hr hnext
    rw [hnext, hsame] at hk
    exact (Option.some.inj hk).symm
  obtain ⟨d, hstored, hrun⟩ := h.stored
  refine ⟨h.acked, h.count, d, hstored.mono hkeys, fun w hw => ?_⟩
  obtain ⟨hconfig, olds, f, pss, ps, hdir, hfiles, hactive, hholds⟩ := hrun w hw
  have hf : f ∈ s.dir := hdir ▸ List.mem_append_right _ (List.mem_singleton.2 rfl)
  exact ⟨hconfig, olds, f, pss, ps, hdir, hfiles, hactive, hholds.mono torn_nil (hkeys f hf)⟩

theorem inv_step (hmax : 1 ≤ config.maxFiles) (s : History) (e : Event) (h : s.Inv aead config)
    (hadm : s.Admissible aead config e ∧ s.NextFree e) : (s.step aead config e).Inv aead config := by
  cases e with
  | restart now => exact inv_restart hmax h now hadm.1
  | write now later rand data => exact inv_write hmax h hadm.1
  | crash io written now later rand data => exact inv_crash hmax h hadm.1
  | rotateKey now rand => exact inv_rotateKey h now rand hadm.2

theorem Inv.recovers {s : History} (h : s.Inv aead config) : s.Recovers aead config := by
  obtain ⟨d, hstored, _⟩ := h.stored
  have hd := hstored.deleted
  refine ⟨(s.files.drop d).flatten, hstored.readAll h.count, ?_, ?_, fun hfew => ?_⟩
  · refine ⟨(s.files.take d).flatten, ?_⟩
    rw [h.acked, ← List.flatten_append, List.take_append_drop]
  · refine ⟨((s.files.drop d).take (s.files.length - config.maxFiles.toNat - d)).flatten, ?_⟩
    have hsplit : s.files.length - config.maxFiles.toNat = d + (s.files.length - config.maxFiles.toNat - d) := by
      omega
    rw [hsplit, ← List.drop_drop, Nat.add_sub_cancel_left, ← List.flatten_append, List.take_append_drop]
  · obtain rfl : d = 0 := by omega
    rw [h.acked, List.drop_zero]

/-- After every history from an empty directory whose rotations all find no record under the next version, `ReadAll`
returns exactly a suffix of the acknowledged payloads, with at least those in the newest `maxFiles` files. -/
theorem recovers_of_nextFree (hmax : 1 ≤ config.maxFiles) (e : WALEncryptor) {es : List Event}
    (hes : Admits (step aead config) (fun s ev => s.Admissible aead config ev ∧ s.NextFree ev) (start e) es) :
    (exec (step aead config) (start e) es).Recovers aead config :=
  (Run.invariant (inv_step hmax) (inv_start e) hes).recovers

/-! ### Two histories -/

instance (aead : Aead) (config : WALConfig) : ∀ (s : History) (e : Event), Decidable (s.Admissible aead config e)
  | _, .write _ _ _ _ => inferInstanceAs (Decidable (_ ∧ _ < _))
  | _, .crash .. => inferInstanceAs (Decidable (_ ∧ _ < _ ∧ _ < _))
  | _, .restart _ | _, .rotateKey _ _ => inferInstanceAs (Decidable (_ ∧ True))

instance : ∀ (s : History) (e : Event), Decidable (s.NextFree e)
  | s, .rotateKey _ rand =>
    inferInstanceAs (Decidable (∀ newKey ∈ rand.toOption, ∀ f ∈ s.dir, ∀ r ∈ fileFrames f.data,
      uint32 (r.drop 4) = s.enc.keyVersion + 1 → s.enc.keyCache (s.enc.keyVersion + 1) = some newKey.1))
  | _, .write _ _ _ _ | _, .crash .. | _, .restart _ => .isTrue trivial

/-- Room for one record of one byte in a file; no roll by time. -/
def smallFiles : WALConfig := { maxFileSize := 60, rollingInterval := 1000, maxFiles := 2 }

/-- Two writes with a rotation between them, a crash in the middle of the third, which has rolled, and one more write
after the restart.  There are four files then. -/
def sampleHistory : List Event :=
  [.restart 0, .write 1 1 KeyRun.randomNonce [97], .rotateKey 2 (KeyRun.randomKey 2),
   .write 3 3 KeyRun.randomNonce [98], .crash .none 20 4 4 KeyRun.randomNonce [99], .restart 5,
   .write 6 6 KeyRun.randomNonce [100]]

theorem recovers_sampleHistory :
    (exec (step AesGcm.aead smallFiles)
      (start KeyRun.secretEncryptor) sampleHistory).Recovers AesGcm.aead smallFiles :=
  recovers_of_nextFree (by decide) KeyRun.secretEncryptor (by decide +kernel)

/-- Everything goes to one file. -/
def oneFile : WALConfig := { maxFileSize := 1000, rollingInterval := 1000, maxFiles := 1 }

def otherKey : BytesN 32 := ⟨List.replicate 32 2, List.length_replicate⟩

/-- The log after one write, under version 1. -/
def written : History :=
  exec (step AesGcm.aead oneFile) (start KeyRun.secretEncryptor) [.restart 0, .write 1 1 KeyRun.randomNonce [97]]

/-- The write, and so many rotations that the version comes round to 1 again. -/
def wrapHistory : List Event :=
  [.restart 0, .write 1 1 KeyRun.randomNonce [97]] ++ List.replicate (2 ^ 32) (.rotateKey 2 (.ok otherKey))

theorem exec_rotations (s : History) (now : Time) (key : BytesN 32) (n : Nat) :
    exec (step aead config) s (List.replicate n (.rotateKey now (.ok key))) =
      { s with enc := s.enc.rotateTimes now key n } := by
  induction n with
  | zero => rfl
  | succ n ih => rw [List.replicate_succ', Run.exec_append, ih]; rfl

theorem admits_rotations {s : History} (h : s.files.length < 10 ^ 6) (now : Time) (key : BytesN 32) (n : Nat) :
    Admits (step aead config) (Admissible aead config) s (List.replicate n (.rotateKey now (.ok key))) := by
  induction n with
  | zero => trivial
  | succ n ih =>
    rw [List.replicate_succ', Run.admits_append, exec_rotations]
    exact ⟨ih, ⟨h, trivial⟩, trivial⟩

/-- The record of the write. -/
def writtenRecord : Bytes :=
  formatRecord 1 (List.replicate 12 7 ++ AesGcm.sealMsg (List.replicate 32 0) (List.replicate 12 7) [97])

private theorem written_dir : written.dir = [⟨walFileName 1, writtenRecord, 1⟩] := by
  decide +kernel

private theorem seals_writtenRecord : Seals AesGcm.aead (List.replicate 32 0) 1 [97] writtenRecord :=
  ⟨by decide, ⟨List.replicate 12 7, List.length_replicate⟩, rfl⟩

private theorem decrypt_writtenRecord {enc : WALEncryptor} (hkey : enc.keyCache 1 = some otherKey.1) :
    enc.decrypt AesGcm.aead writtenRecord =
      .error (.error "failed to decrypt: cipher: message authentication failed") := by
  have hopen : AesGcm.aead.openMsg otherKey.1 (List.replicate 12 7)
      (AesGcm.sealMsg (List.replicate 32 0) (List.replicate 12 7) [97]) = none := by decide +kernel
  refine (WALEncryptor.decrypt_formatRecord hkey (by decide) ⟨List.replicate 12 7, List.length_replicate⟩ ?_).trans ?_
  · rw [AesGcm.length_sealMsg]; decide
  · rw [hopen]

/-- Under another key for its version the record ends the file. -/
private theorem readAll_written {enc : WALEncryptor} (hkey : enc.keyCache 1 = some otherKey.1) :
    readAll AesGcm.aead enc written.dir = .ok [] := by
  have hnum : Dir.Numbered [⟨walFileName 1, writtenRecord, 1⟩] 1 := rfl
  have hlen := seals_writtenRecord.toNat_uint32 (by decide) []
  have hloop := readLoop_undecryptable hlen (decrypt_writtenRecord hkey) writtenRecord.length
  have hfile : readFile AesGcm.aead enc [⟨walFileName 1, writtenRecord, 1⟩] (walFileName 1) = .ok [] := by
    rw [List.append_nil] at hloop
    rw [readFile, hnum.lookup_name (List.mem_singleton.2 rfl)]
    exact hloop
  rw [written_dir, readAll, hnum.getWALFiles_readDir (by decide), List.map_singleton, readFiles]
  simp only [File.toInfo, hfile]
  rfl

/-- After `2 ^ 32` rotations the one acknowledged payload is not read any more. -/
theorem not_recovers_wrapHistory :
    Admits (step AesGcm.aead oneFile) (Admissible AesGcm.aead oneFile) (start KeyRun.secretEncryptor) wrapHistory ∧
    ¬ (exec (step AesGcm.aead oneFile) (start KeyRun.secretEncryptor) wrapHistory).Recovers AesGcm.aead oneFile := by
  have hexec : exec (step AesGcm.aead oneFile) (start KeyRun.secretEncryptor) wrapHistory =
      { written with enc := written.enc.rotateTimes 2 otherKey (2 ^ 32) } := by
    rw [wrapHistory, Run.exec_append, exec_rotations, written]
  have hfiles : written.files = [[[97]]] := by decide +kernel
  have hacked : written.acked = [[97]] := by decide +kernel
  refine ⟨?_, ?_⟩
  · rw [wrapHistory, Run.admits_append]
    refine ⟨by decide +kernel, ?_⟩
    rw [← written]
    exact admits_rotations (by rw [hfiles]; decide) 2 otherKey _
  · rintro ⟨results, hread, _, _, hall⟩
    rw [hexec] at hread hall
    -- version 1 has the other key after the last rotation
    have hversion : written.enc.keyVersion + UInt32.ofNat (2 ^ 32) = 1 := by decide +kernel
    have hkey := written.enc.keyCache_rotateTimes 2 otherKey (i := 2 ^ 32) (by decide) (Nat.le_refl _)
    rw [hversion] at hkey
    have hnil := Except.ok.inj ((readAll_written hkey).symm.trans hread)
    have hresults := hall (by show (written.files.length : Int) ≤ 1; rw [hfiles]; decide)
    rw [← hnil] at hresults
    exact absurd (hresults.trans hacked) (by decide)

end History

end DistributedBloomFilter
