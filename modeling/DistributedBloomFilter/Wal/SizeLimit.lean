import DistributedBloomFilter.Wal.Numbering
import DistributedBloomFilter.Wal.Reader

/-!
# The sizes of the files

Writers on one directory, one after the other, whose `Write`s all succeed.  The size is compared before the roll, with
the size of the file that is left, and the interval is compared as well.  Whatever made it roll, the record goes to an
empty file then, and otherwise to one where there is room for it.  So `currentSize` is the size of the file, a file is
a sequence of whole records, and one that is larger than `maxFileSize` has a single record.  Only with a negative
`maxFileSize` there are also files that are too large without any record: the one a new writer opens is left empty by
the first `Write`.
-/

namespace DistributedBloomFilter

open Run (exec Admits)

/-! ### Files of whole records -/

/-- The bytes are whole records one after the other; if there are more bytes than `maxFileSize` it is one record, or
none if `maxFileSize` is negative. -/
def RecordsWithin (aead : Aead) (maxFileSize : Int) (bytes : Bytes) : Prop :=
  ∃ records : List Bytes, (∀ r ∈ records, ∃ key version p, Seals aead key version p r) ∧ bytes = records.flatten ∧
    (maxFileSize < bytes.length → records.length = 1 ∨ maxFileSize < 0 ∧ records = [])

section Records

variable {aead : Aead} {maxFileSize : Int} {key : Bytes} {version : UInt32} {p record : Bytes}

theorem recordsWithin_nil : RecordsWithin aead maxFileSize [] :=
  ⟨[], fun _ hr => absurd hr List.not_mem_nil, rfl, fun hlt => .inr ⟨hlt, rfl⟩⟩

theorem recordsWithin_singleton (h : Seals aead key version p record) : RecordsWithin aead maxFileSize record :=
  ⟨[record], fun r hr => ⟨key, version, p, List.mem_singleton.1 hr ▸ h⟩, by simp, fun _ => .inl rfl⟩

/-- A record for which there is room. -/
theorem RecordsWithin.append {bytes : Bytes} (hbytes : RecordsWithin aead maxFileSize bytes)
    (h : Seals aead key version p record) (hroom : ((bytes ++ record).length : Int) ≤ maxFileSize) :
    RecordsWithin aead maxFileSize (bytes ++ record) := by
  obtain ⟨records, hrecords, hflat, -⟩ := hbytes
  refine ⟨records ++ [record], fun r hr => ?_, by simp [hflat], fun hlt => absurd hroom (Int.not_le.2 hlt)⟩
  rcases List.mem_append.1 hr with hr | hr
  · exact hrecords r hr
  · exact ⟨key, version, p, List.mem_singleton.1 hr ▸ h⟩

end Records

/-! ### What a `Write` adds to `currentSize` -/

namespace WALWriter

variable {w : WALWriter} {olds : Dir} {f : File} {first : Nat} {io : Faults}

/-- A roll that succeeds has opened an empty file. -/
theorem currentSize_doRollFile (h : w.Active olds f first) {now : Time} {o : Outcome}
    (ho : w.doRollFile (olds ++ [f]) io now = o) (hok : o.err = none) : o.writer.currentSize = 0 := by
  subst ho
  have hopen : ¬ w.fileOpen = false := by rw [h.fileOpen]; decide
  unfold doRollFile at hok ⊢
  rw [if_neg hopen] at hok ⊢
  cases hclose : io.close with
  | some err =>
    rw [hclose] at hok
    cases hok
  | none =>
    rw [hclose] at hok
    dsimp only at hok ⊢
    cases hfile : io.openFile with
    | some err =>
      rw [openCurrentFile, hfile] at hok
      cases hok
    | none =>
      have hnext := openCurrentFile_next (w := { w with fileOpen := false, currentIndex := w.currentIndex + 1 })
        h.numbered h.next_index hfile now
      rw [hnext]

theorem currentSize_writeRecord {dir : Dir} {now : Time} {encrypted : Bytes} {o : Outcome}
    (ho : w.writeRecord dir io now encrypted = o) (hok : o.err = none) :
    o.writer.currentSize = w.currentSize + encrypted.length := by
  subst ho
  unfold writeRecord at hok ⊢
  split at hok
  · cases hok
  · rename_i hopen
    rw [if_neg hopen]
    split at hok
    · cases hok
    · rfl

/-- Only a writer whose file is open writes or opens another one. -/
theorem fileOpen_of_write {aead : Aead} {enc : WALEncryptor} {dir : Dir} {now later : Time}
    {rand : Except String (BytesN 12)} {data : Bytes} {o : Outcome}
    (ho : w.write aead enc dir io now later rand data = o)
    (h : o.err = none ∨ o.writer.currentName ≠ w.currentName) : w.fileOpen = true := by
  by_contra hclosed
  rw [Bool.not_eq_true] at hclosed
  obtain ⟨err, heq⟩ := write_closed hclosed aead enc dir io now later rand data
  obtain rfl := ho.symm.trans heq
  rcases h with hok | hne
  · cases hok
  · exact hne rfl

/-- The size counts on in the same file and starts again in a new one. -/
theorem currentSize_write {aead : Aead} {enc : WALEncryptor} (h : w.Active olds f first) {now later : Time}
    {rand : Except String (BytesN 12)} {data : Bytes} {o : Outcome}
    (ho : w.write aead enc (olds ++ [f]) io now later rand data = o) (hok : o.err = none) :
    o.writer.currentSize = (if w.Rolls now data then 0 else w.currentSize) + (data.length + 36 : Nat) := by
  rcases write_steps ho with ⟨err, -, rfl⟩ | ⟨encrypted, hseals, r, hr, hend⟩
  · cases hok
  obtain ⟨hrok, hend⟩ := hend.resolve_left fun ⟨herr, heq⟩ => herr (heq ▸ hok)
  rw [currentSize_writeRecord hend hok, hseals.length_eq]
  rcases hr with ⟨hno, rfl⟩ | ⟨hrolls, hr⟩
  · rw [if_neg hno]
  · rw [if_pos hrolls, currentSize_doRollFile h hr hrok]

/-- A `Write` that succeeds leaves its record in a file where there was room for it, or as the only one in a new
file. -/
theorem recordsWithin_write {aead : Aead} {enc : WALEncryptor} (h : w.Active olds f first)
    (hmax : 1 ≤ w.config.maxFiles) {now later : Time} {rand : Except String (BytesN 12)} {data : Bytes} {o : Outcome}
    (ho : w.write aead enc (olds ++ [f]) io now later rand data = o) (hok : o.err = none)
    (hlt : o.writer.currentName ≠ w.currentName → w.currentIndex + 1 < 10 ^ 6)
    (hcount : w.currentSize = f.data.length) (hwithin : RecordsWithin aead w.config.maxFileSize f.data) :
    o.writer.config = w.config ∧ ∃ rest g, o.dir = rest ++ [g] ∧ rest ⊆ olds ++ [f] ∧
      o.writer.currentSize = g.data.length ∧ RecordsWithin aead w.config.maxFileSize g.data := by
  have hfault : ∀ n err, io.write = some (n, err) → n < data.length + 36 := by
    intro n err hio
    exact absurd (ho ▸ hok) (write_err_ne_none aead enc w (olds ++ [f]) io hio now later rand data)
  have hsize := currentSize_write h ho hok
  obtain ⟨record, hwrote, hconfig, hcases⟩ := write_cases h hmax hfault ho hlt
  obtain ⟨-, hseals⟩ := hwrote.resolve_right fun herr => herr.1 hok
  rw [← hseals.length_eq] at hsize
  refine ⟨hconfig, ?_⟩
  rcases hcases with ⟨-, g, -, hdata, hdir, -, hnoroll⟩ | ⟨hne, j, g, hdata, -, hdir, -⟩
  · -- a record is not empty, so there was no roll
    have hno : ¬ w.Rolls now data := by
      intro hrolls
      have hlength := hseals.length_eq
      rw [hnoroll hrolls, List.length_nil] at hlength
      omega
    have hroom : ¬ w.currentSize + (data.length + 36 : Nat) > w.config.maxFileSize := fun hgt => hno (.inl hgt)
    rw [← hseals.length_eq, hcount] at hroom
    rw [if_neg hno, hcount] at hsize
    refine ⟨olds, g, hdir, List.subset_append_left .., ?_, ?_⟩
    · rw [hsize, hdata, List.length_append, Int.natCast_add]
    · rw [hdata]
      refine hwithin.append hseals ?_
      rw [List.length_append, Int.natCast_add]
      exact Int.not_lt.1 hroom
  · have hrolls : w.Rolls now data := by
      by_contra hno
      exact hne (ho ▸ currentName_write_of_not_rolls hno ..)
    rw [if_pos hrolls, Int.zero_add] at hsize
    exact ⟨_, g, hdir, List.drop_subset .., by rw [hsize, hdata], by rw [hdata]; exact recordsWithin_singleton hseals⟩

end WALWriter

namespace WriterRun

/-- The writers all have this `maxFileSize` and keep one file at least, and every `Write` succeeds. -/
def Succeeds (aead : Aead) (maxFileSize : Int) (s : WriterRun) : Event → Prop
  | .newWriter config _ _ => config.maxFileSize = maxFileSize ∧ 1 ≤ config.maxFiles
  | .write enc io now later rand data =>
    ∀ w ∈ s.writer, (w.write aead enc s.dir io now later rand data).err = none
  | .close _ => True

/-- `currentSize` is the size of the file that is written to, and the files are whole records within the limit. -/
structure SizeLimited (aead : Aead) (maxFileSize : Int) (s : WriterRun) : Prop where
  size : ∀ w ∈ s.writer, w.fileOpen = true →
    ∃ f, s.dir.lookup w.currentName = some f ∧ w.currentSize = f.data.length
  files : ∀ f ∈ s.dir, RecordsWithin aead maxFileSize f.data

/-! ### The invariant -/

variable {aead : Aead} {maxFileSize : Int} {s : WriterRun} {d : Nat}

/-- The numbers are in order, and the newest file is the one whose size is counted. -/
structure SizeInv (aead : Aead) (maxFileSize : Int) (s : WriterRun) : Prop where
  numbers : ∃ d, s.Inv d
  config : ∀ w ∈ s.writer, w.config.maxFileSize = maxFileSize
  size : ∀ w ∈ s.writer, w.fileOpen = true → ∀ f ∈ s.dir.getLast?, w.currentSize = f.data.length
  files : ∀ f ∈ s.dir, RecordsWithin aead maxFileSize f.data

theorem sizeInv_start (aead : Aead) (maxFileSize : Int) : SizeInv aead maxFileSize start where
  numbers := ⟨0, inv_start⟩
  config := fun w hw => by cases hw
  size := fun w hw => by cases hw
  files := fun f hf => by cases hf

theorem SizeInv.sizeLimited (h : s.SizeInv aead maxFileSize) : s.SizeLimited aead maxFileSize where
  size := fun w hw hopen => by
    obtain ⟨d, hinv⟩ := h.numbers
    obtain ⟨olds, f, hdir, hactive⟩ := hinv.active w hw hopen
    have hmem : f ∈ s.dir := by
      rw [hdir]
      exact List.mem_append_right _ (List.mem_singleton.2 rfl)
    have hlast : f ∈ s.dir.getLast? := by rw [hdir, List.getLast?_concat, Option.mem_def]
    exact ⟨f, hactive.name ▸ hinv.numbered.lookup_name hmem, h.size w hw hopen f hlast⟩
  files := h.files

/-- The numbers that were given out are those up to how many there are. -/
theorem Inv.lt_of_mem_opened (h : s.Inv d) (hlen : s.opened.length < 10 ^ 6) : ∀ n ∈ s.opened, n < 10 ^ 6 := by
  intro n hn
  rw [h.opened, List.mem_range'_1] at hn
  rw [h.opened, List.length_range'] at hlen
  omega

theorem Inv.lt_of_mem_opened_write (h : s.Inv d) {enc : WALEncryptor} {io : Faults} {now later : Time}
    {rand : Except String (BytesN 12)} {data : Bytes}
    (hlen : (s.step aead (.write enc io now later rand data)).opened.length < 10 ^ 6) :
    ∀ n ∈ (s.step aead (.write enc io now later rand data)).opened, n < 10 ^ 6 := by
  have hold := h.lt_of_mem_opened ((opened_prefix_step aead s _).length_le.trans_lt hlen)
  simp only [step] at hlen ⊢
  cases hw : s.writer with
  | none => exact hold
  | some w =>
    rw [hw] at hlen
    dsimp only at hlen ⊢
    split
    · exact hold
    · rename_i hne
      rw [if_neg hne, List.length_append, List.length_singleton] at hlen
      intro n hn
      rcases List.mem_append.1 hn with hn | hn
      · exact hold n hn
      · -- the number that is given out counts the files
        have hopen : w.fileOpen = true := WALWriter.fileOpen_of_write rfl (.inr hne)
        obtain ⟨olds, f, hdir, hactive⟩ := h.active w hw hopen
        have hindex := hactive.next_index
        rw [← hdir] at hindex
        rw [h.opened, List.length_range'] at hlen
        rw [List.mem_singleton.1 hn, currentIndex_write rfl hne]
        omega

/-- The newest file after a step in which the others were kept or removed. -/
private theorem SizeInv.last (h : s.SizeInv aead maxFileSize) {rest : Dir} {g : File} {w : WALWriter}
    {opened : List Nat} (hinv : Inv ⟨rest ++ [g], some w, opened⟩ d) (hconfig : w.config.maxFileSize = maxFileSize)
    (hrest : rest ⊆ s.dir) (hcount : w.currentSize = g.data.length)
    (hwithin : RecordsWithin aead maxFileSize g.data) :
    SizeInv aead maxFileSize ⟨rest ++ [g], some w, opened⟩ := by
  refine ⟨⟨d, hinv⟩, fun w' hw' => ?_, fun w' hw' _ f hf => ?_, fun f hf => ?_⟩
  · obtain rfl := Option.some.inj hw'
    exact hconfig
  · obtain rfl := Option.some.inj hw'
    rw [List.getLast?_concat] at hf
    obtain rfl := Option.some.inj hf
    exact hcount
  · rcases List.mem_append.1 hf with hf | hf
    · exact h.files f (hrest hf)
    · rw [List.mem_singleton.1 hf]
      exact hwithin

theorem sizeInv_newWriter (h : s.SizeInv aead maxFileSize) (hlen : s.opened.length < 10 ^ 6) {config : WALConfig}
    (hsize : config.maxFileSize = maxFileSize) (hmax : 1 ≤ config.maxFiles) (io : Faults) (now : Time) :
    (s.step aead (.newWriter config io now)).SizeInv aead maxFileSize := by
  obtain ⟨d, hinv⟩ := h.numbers
  have hlt := hinv.lt_of_mem_opened hlen
  have hempty : s.dir = [] → d + 1 = 1 := fun hnil => by rw [hinv.nonempty hnil]
  have hinv' : (s.step aead (.newWriter config io now)).Inv d := inv_newWriter hinv hlt hmax io now
  simp only [step] at hinv' ⊢
  rcases newWALWriterWithConfig_cases hinv.numbered (hinv.length_lt hlt) hempty config io now with
    ⟨failure, hnew⟩ | ⟨w, g, hnew, hdata, hzero, -, hconfig⟩
  · rw [hnew]
    exact h
  · rw [hnew] at hinv' ⊢
    refine h.last hinv' (by rw [hconfig, hsize]) (List.Subset.refl _) ?_ ?_
    · rw [hzero, hdata]
      rfl
    · rw [hdata]
      exact recordsWithin_nil

theorem sizeInv_write (h : s.SizeInv aead maxFileSize) {enc : WALEncryptor} {io : Faults} {now later : Time}
    {rand : Except String (BytesN 12)} {data : Bytes}
    (hok : s.Succeeds aead maxFileSize (.write enc io now later rand data))
    (hlen : (s.step aead (.write enc io now later rand data)).opened.length < 10 ^ 6) :
    (s.step aead (.write enc io now later rand data)).SizeInv aead maxFileSize := by
  obtain ⟨d, hinv⟩ := h.numbers
  have hlt := hinv.lt_of_mem_opened_write hlen
  obtain ⟨d', hinv'⟩ := inv_write hinv hlt
  simp only [step] at hlt hinv' ⊢
  cases hw : s.writer with
  | none => exact h
  | some w =>
    rw [hw] at hlt hinv'
    dsimp only at hlt hinv' ⊢
    have hnil := hok w hw
    generalize ho : w.write aead enc s.dir io now later rand data = o at hnil hlt hinv' ⊢
    have hopen := WALWriter.fileOpen_of_write ho (.inl hnil)
    obtain ⟨olds, f, hdir, hactive⟩ := hinv.active w hw hopen
    have hnext : o.writer.currentName ≠ w.currentName → w.currentIndex + 1 < 10 ^ 6 := by
      intro hne
      rw [if_neg hne] at hlt
      rw [← currentIndex_write ho hne]
      exact hlt _ (List.mem_append_right _ (List.mem_singleton.2 rfl))
    have hmem : f ∈ s.dir ∧ f ∈ s.dir.getLast? := by simp [hdir]
    have hmax := h.config w hw
    subst hmax
    obtain ⟨hconfig, rest, g, hodir, hrest, hcount, hwithin⟩ := WALWriter.recordsWithin_write hactive
      (hinv.maxFiles w hw) (hdir ▸ ho) hnil hnext (h.size w hw hopen f hmem.2) (h.files f hmem.1)
    rw [← hdir] at hrest
    rw [hodir] at hinv' ⊢
    exact h.last hinv' (by rw [hconfig]) hrest hcount hwithin

theorem sizeInv_close (h : s.SizeInv aead maxFileSize) (io : Faults) :
    (s.step aead (.close io)).SizeInv aead maxFileSize := by
  obtain ⟨d, hinv⟩ := h.numbers
  have hinv' : (s.step aead (.close io)).Inv d := inv_close hinv io
  simp only [step] at hinv' ⊢
  cases hw : s.writer with
  | none => exact h
  | some w =>
    have hclosed := WALWriter.close_fst w io
    rw [hw] at hinv'
    refine ⟨⟨d, hinv'⟩, fun w' hw' => ?_, fun w' hw' hopen => ?_, h.files⟩
    · obtain rfl := Option.some.inj hw'
      rw [hclosed.2]
      exact h.config w hw
    · obtain rfl := Option.some.inj hw'
      exact absurd (hopen.symm.trans hclosed.1) (by decide)

theorem sizeInv_exec {es : List Event} (hes : Admits (step aead) (Succeeds aead maxFileSize) s es)
    (h : s.SizeInv aead maxFileSize) (hlen : (exec (step aead) s es).opened.length < 10 ^ 6) :
    (exec (step aead) s es).SizeInv aead maxFileSize := by
  induction es generalizing s with
  | nil => exact h
  | cons e es ih =>
    obtain ⟨he, hes⟩ := hes
    have hstep : (s.step aead e).opened.length < 10 ^ 6 :=
      (opened_prefix_exec aead (s.step aead e) es).length_le.trans_lt hlen
    refine ih hes ?_ hlen
    cases e with
    | newWriter config io now =>
      exact sizeInv_newWriter h ((opened_prefix_step aead s _).length_le.trans_lt hstep) he.1 he.2 io now
    | write enc io now later rand data => exact sizeInv_write h he hstep
    | close io => exact sizeInv_close h io

/-- With fewer than a million files ever made, the sizes are counted right, no record is split, and only a single
record makes a file larger than `maxFileSize`; if that is negative, so does an empty file. -/
theorem sizeLimited_exec (aead : Aead) (maxFileSize : Int) (es : List Event)
    (hes : Admits (step aead) (Succeeds aead maxFileSize) start es)
    (hlen : (exec (step aead) start es).opened.length < 10 ^ 6) :
    (exec (step aead) start es).SizeLimited aead maxFileSize :=
  (sizeInv_exec hes (sizeInv_start aead maxFileSize) hlen).sizeLimited

/-! ### Two runs -/

instance (aead : Aead) (maxFileSize : Int) (s : WriterRun) (e : Event) :
    Decidable (s.Succeeds aead maxFileSize e) :=
  match e with
  | .newWriter .. => inferInstanceAs (Decidable (_ ∧ _))
  | .write enc io now later rand data =>
    inferInstanceAs (Decidable (∀ w ∈ s.writer, (w.write aead enc s.dir io now later rand data).err = none))
  | .close _ => .isTrue trivial

/-- A writer for files of at most `maxFileSize` bytes, and a record for each payload. -/
def sizedRun (maxFileSize : Int) (payloads : List Bytes) : List Event :=
  .newWriter { maxFileSize := maxFileSize, rollingInterval := 1000, maxFiles := 10 } .none 0 ::
    payloads.map fun data => .write KeyRun.secretEncryptor .none 1 1 KeyRun.randomNonce data

/-- The second record is larger than a file may be. -/
theorem sizeLimited_exec_two :
    (exec (step AesGcm.aead) start (sizedRun 40 [[97], [98, 99, 100, 101, 102]])).SizeLimited AesGcm.aead 40 ∧
      (exec (step AesGcm.aead) start (sizedRun 40 [[97], [98, 99, 100, 101, 102]])).dir.map
        (fun f => f.data.length) = [37, 41] :=
  ⟨sizeLimited_exec AesGcm.aead 40 (sizedRun 40 [[97], [98, 99, 100, 101, 102]]) (by decide +kernel)
    (by decide +kernel), by decide +kernel⟩

/-- An empty file is no record, and the first one here stays empty. -/
theorem empty_over_negative_limit :
    Admits (step AesGcm.aead) (Succeeds AesGcm.aead (-1)) start (sizedRun (-1) [[97]]) ∧
    (exec (step AesGcm.aead) start (sizedRun (-1) [[97]])).opened.length < 10 ^ 6 ∧
    ∃ f ∈ (exec (step AesGcm.aead) start (sizedRun (-1) [[97]])).dir, -1 < (f.data.length : Int) ∧
      ¬ ∃ key version p, Seals AesGcm.aead key version p f.data := by
  refine ⟨by decide +kernel, by decide +kernel, ⟨walFileName 1, [], 0⟩, by decide +kernel, by decide, ?_⟩
  rintro ⟨key, version, p, hseals⟩
  exact absurd hseals.length_eq (by rw [List.length_nil]; omega)

end WriterRun

end DistributedBloomFilter
