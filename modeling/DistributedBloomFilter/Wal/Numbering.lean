import DistributedBloomFilter.Lib.DecimalOrder
import DistributedBloomFilter.Wal.Writer

/-!
# The numbers of the files

Writers on one directory, one after the other, with any faults.  A number is printed with at least six digits and read
back from at most six, so it comes back exactly below a million (`scanIndex_walFileName_iff`).  As long as no file has
a larger number, the files are listed in the order in which they were made, a new writer goes on after the newest one,
and the file that is written to is not removed.  The file with the number one million is read as number one hundred
thousand: it is taken for the oldest one and removed while it is written to.
-/

namespace DistributedBloomFilter

open Run (exec Admits)

theorem scanIndex_lt (name : String) : scanIndex name < 10 ^ 6 := by
  have hdigit : ∀ c ∈ ((name.toList.dropWhile Decimal.isSpace).take 6).takeWhile Char.isDigit, c.isDigit = true :=
    fun c hc => List.mem_takeWhile_imp hc
  have hlen : (((name.toList.dropWhile Decimal.isSpace).take 6).takeWhile Char.isDigit).length ≤ 6 :=
    (List.takeWhile_sublist _).length_le.trans (List.length_take_le ..)
  exact (Decimal.ofDigitChars_lt hdigit).trans_le (Nat.pow_le_pow_right (by decide) hlen)

/-- A number is read back from its name exactly below a million. -/
theorem scanIndex_walFileName_iff {n : Nat} : scanIndex (walFileName n) = n ↔ n < 10 ^ 6 :=
  ⟨fun h => h ▸ scanIndex_lt _, scanIndex_walFileName⟩

/-- A directory and the writer that works on it.  The numbers of the files that were opened for writing, in order, are
not data of the program. -/
structure WriterRun where
  dir : Dir
  writer : Option WALWriter
  opened : List Nat

namespace WriterRun

inductive Event where
  | newWriter (config : WALConfig) (io : Faults) (now : Time)
  | write (enc : WALEncryptor) (io : Faults) (now later : Time) (rand : Except String (BytesN 12)) (data : Bytes)
  | close (io : Faults)

def start : WriterRun := { dir := [], writer := none, opened := [] }

section Steps

variable (aead : Aead)

def step (s : WriterRun) : Event → WriterRun
  | .newWriter config io now =>
    match newWALWriterWithConfig s.dir config io now with
    | .error _ => s
    | .ok (w, dir) => { dir := dir, writer := some w, opened := s.opened ++ [w.currentIndex] }
  | .write enc io now later rand data =>
    match s.writer with
    | none => s
    | some w =>
      let o := w.write aead enc s.dir io now later rand data
      { dir := o.dir
        writer := some o.writer
        opened := if o.writer.currentName = w.currentName then s.opened else s.opened ++ [o.writer.currentIndex] }
  | .close io =>
    match s.writer with
    | none => s
    | some w => { s with writer := some (w.close io).1 }

end Steps

/-- A writer keeps one file at least. -/
def KeepsOne : Event → Prop
  | .newWriter config _ _ => 1 ≤ config.maxFiles
  | _ => True

/-- What the numbers are for. -/
structure Consistent (s : WriterRun) : Prop where
  roundTrip : ∀ n ∈ s.opened, scanIndex (walFileName n) = n
  /-- the files are listed as they were made -/
  inOrder : (getWALFiles s.dir.readDir).map WalFileInfo.name = s.dir.map File.name
  /-- a new writer goes on after the newest file -/
  continues : ∀ config now w dir, newWALWriterWithConfig s.dir config .none now = .ok (w, dir) →
    ∀ n ∈ s.opened.getLast?, w.currentIndex = n + 1
  /-- the file that is written to has not been removed -/
  current : ∀ w ∈ s.writer, w.fileOpen = true → s.dir.lookup w.currentName ≠ none

/-! ### The invariant -/

/-- Of the files numbered from 1 on, the first `d` have been removed; a writer whose file is open has the newest
one. -/
structure Inv (s : WriterRun) (d : Nat) : Prop where
  numbered : s.dir.Numbered (d + 1)
  opened : s.opened = List.range' 1 (d + s.dir.length)
  nonempty : s.dir = [] → d = 0
  maxFiles : ∀ w ∈ s.writer, 1 ≤ w.config.maxFiles
  active : ∀ w ∈ s.writer, w.fileOpen = true → ∃ olds f, s.dir = olds ++ [f] ∧ w.Active olds f (d + 1)

theorem inv_start : Inv start 0 where
  numbered := Dir.numbered_nil 1
  opened := rfl
  nonempty := fun _ => rfl
  maxFiles := fun w hw => by cases hw
  active := fun w hw => by cases hw

variable {aead : Aead} {s : WriterRun} {d : Nat}

theorem Inv.length_lt (h : s.Inv d) (hlt : ∀ n ∈ s.opened, n < 10 ^ 6) : d + 1 + s.dir.length ≤ 10 ^ 6 := by
  rw [h.opened] at hlt
  by_cases hzero : d + s.dir.length = 0
  · omega
  · have := hlt (d + s.dir.length) (List.mem_range'_1.2 (by omega))
    omega

/-- A new writer, if it comes about, opens the next file. -/
theorem newWALWriterWithConfig_cases {dir : Dir} {first : Nat} (hdir : dir.Numbered first)
    (hlt : first + dir.length ≤ 10 ^ 6) (hempty : dir = [] → first = 1) (config : WALConfig) (io : Faults)
    (now : Time) :
    (∃ failure, newWALWriterWithConfig dir config io now = .error failure) ∨
    ∃ w g, newWALWriterWithConfig dir config io now = .ok (w, dir ++ [g]) ∧ g.data = [] ∧ w.currentSize = 0 ∧
      w.Active dir g first ∧ w.config = config := by
  obtain ⟨w, g, hnew, hdata, hsize, hactive, hconfig⟩ := newWALWriterWithConfig_eq hdir hlt hempty config now
  unfold newWALWriterWithConfig WALWriter.openCurrentFile at hnew ⊢
  cases hmkdir : io.mkdirAll with
  | some err => exact .inl ⟨_, rfl⟩
  | none =>
    cases hread : io.readDir with
    | some err => exact .inl ⟨_, rfl⟩
    | none =>
      cases hopen : io.openFile with
      | some err => exact .inl ⟨_, rfl⟩
      | none => exact .inr ⟨w, g, hnew, hdata, hsize, hactive, hconfig⟩

/-- Writing a record changes no name. -/
theorem active_writeRecord {w : WALWriter} {olds : Dir} {f : File} {first : Nat} (h : w.Active olds f first)
    (io : Faults) (now : Time) (encrypted : Bytes) :
    ∃ g, (w.writeRecord (olds ++ [f]) io now encrypted).dir = olds ++ [g] ∧
      (w.writeRecord (olds ++ [f]) io now encrypted).writer.Active olds g first ∧
      (w.writeRecord (olds ++ [f]) io now encrypted).writer.config = w.config := by
  have hopen : ¬ w.fileOpen = false := by rw [h.fileOpen]; decide
  obtain ⟨holds, hname⟩ := Dir.numbered_concat.1 h.numbered
  have happend : ∀ bytes, Dir.append (olds ++ [f]) w.currentName bytes now =
      olds ++ [{ f with data := f.data ++ bytes, modTime := now }] :=
    fun bytes => h.name ▸ h.numbered.append_last bytes now
  have hactive : ∀ bytes size, ({ w with currentSize := size } : WALWriter).Active olds
      { f with data := f.data ++ bytes, modTime := now } first :=
    fun bytes size => ⟨h.fileOpen, h.name, h.index, Dir.numbered_concat.2 ⟨holds, hname⟩⟩
  unfold WALWriter.writeRecord
  rw [if_neg hopen]
  split
  · exact ⟨_, happend _, hactive _ w.currentSize, rfl⟩
  · exact ⟨_, happend _, hactive _ _, rfl⟩

theorem currentIndex_writeRecord (w : WALWriter) (dir : Dir) (io : Faults) (now : Time) (encrypted : Bytes) :
    (w.writeRecord dir io now encrypted).writer.currentIndex = w.currentIndex := by
  unfold WALWriter.writeRecord
  split
  · rfl
  · split <;> rfl

theorem currentIndex_openCurrentFile (w : WALWriter) (dir : Dir) (io : Faults) (now : Time) :
    (w.openCurrentFile dir io now).writer.currentIndex = w.currentIndex := by
  unfold WALWriter.openCurrentFile
  cases io.openFile with
  | some err => rfl
  | none =>
    dsimp only
    cases dir.lookup (walFileName w.currentIndex) <;> rfl

/-- A roll that opens a file has counted up. -/
theorem currentIndex_doRollFile {w : WALWriter} {dir : Dir} {io : Faults} {now : Time}
    (hne : (w.doRollFile dir io now).writer.currentName ≠ w.currentName) :
    (w.doRollFile dir io now).writer.currentIndex = w.currentIndex + 1 := by
  unfold WALWriter.doRollFile at hne ⊢
  by_cases hopen : w.fileOpen = false
  · rw [if_pos hopen] at hne
    exact absurd rfl hne
  · rw [if_neg hopen] at hne ⊢
    cases hclose : io.close with
    | some err =>
      rw [hclose] at hne
      exact absurd rfl hne
    | none =>
      have hindex :=
        currentIndex_openCurrentFile { w with fileOpen := false, currentIndex := w.currentIndex + 1 } dir io now
      dsimp only
      split <;> exact hindex

/-- A `Write` that opens a file has counted up. -/
theorem currentIndex_write {w : WALWriter} {dir : Dir} {enc : WALEncryptor} {io : Faults} {now later : Time}
    {rand : Except String (BytesN 12)} {data : Bytes} {o : Outcome}
    (ho : w.write aead enc dir io now later rand data = o) (hne : o.writer.currentName ≠ w.currentName) :
    o.writer.currentIndex = w.currentIndex + 1 := by
  rcases WALWriter.write_steps ho with ⟨err, -, rfl⟩ | ⟨encrypted, -, r, hr, hend⟩
  · exact absurd rfl hne
  rw [WALWriter.currentName_of_rolled hend] at hne
  have hindex : o.writer.currentIndex = r.writer.currentIndex := by
    rcases hend with ⟨-, rfl⟩ | ⟨-, rfl⟩
    · rfl
    · exact currentIndex_writeRecord ..
  rcases hr with ⟨-, rfl⟩ | ⟨-, rfl⟩
  · exact absurd rfl hne
  · rw [hindex, currentIndex_doRollFile hne]

/-- A `Write` to an open file leaves the numbers as they are, or the next file is opened and some of the oldest are
removed. -/
theorem write_names {w : WALWriter} {olds : Dir} {f : File} {first : Nat} (h : w.Active olds f first)
    (hmax : 1 ≤ w.config.maxFiles) {enc : WALEncryptor} {io : Faults} {now later : Time}
    {rand : Except String (BytesN 12)} {data : Bytes} {o : Outcome}
    (ho : w.write aead enc (olds ++ [f]) io now later rand data = o)
    (hlt : o.writer.currentName ≠ w.currentName → o.writer.currentIndex < 10 ^ 6) :
    o.writer.config = w.config ∧
      ((o.writer.currentName = w.currentName ∧ ∃ g, o.dir = olds ++ [g] ∧ g.name = f.name ∧
          (o.writer.fileOpen = true → o.writer.Active olds g first)) ∨
        (o.writer.currentName ≠ w.currentName ∧ ∃ j g, j ≤ (olds ++ [f]).length ∧
          o.dir = (olds ++ [f]).drop j ++ [g] ∧ o.writer.Active ((olds ++ [f]).drop j) g (first + j))) := by
  rcases WALWriter.write_steps ho with ⟨err, -, rfl⟩ | ⟨encrypted, -, r, hr, hend⟩
  · exact ⟨rfl, .inl ⟨rfl, f, rfl, rfl, fun _ => h⟩⟩
  have hname := WALWriter.currentName_of_rolled hend
  rcases hr with ⟨-, rfl⟩ | ⟨-, hr⟩
  · -- no roll
    obtain ⟨-, rfl⟩ := hend.resolve_left fun herr => herr.1 rfl
    obtain ⟨g, hdir, hactive, hconfig⟩ := active_writeRecord h io later encrypted
    have hg : g.name = f.name := hactive.name.symm.trans (hname.trans h.name)
    exact ⟨hconfig, .inl ⟨hname, g, hdir, hg, fun _ => hactive⟩⟩
  · have hbound : r.writer.currentName ≠ w.currentName → w.currentIndex + 1 < 10 ^ 6 := by
      intro hne
      rw [← hname] at hne
      have hlt' := hlt hne
      rwa [currentIndex_write ho hne] at hlt'
    rcases WALWriter.doRollFile_cases h hmax hr hbound with
      ⟨herr, -, hdir, hsame, hconfig, hclosed⟩ | ⟨j, g, -, hgname, hj, hdir, hactive, hconfig, -, -⟩
    · -- the roll stopped before it opened a file
      obtain ⟨-, rfl⟩ := hend.resolve_right fun hnone => herr hnone.1
      refine ⟨hconfig, .inl ⟨hsame, f, hdir, rfl, fun hopen => ?_⟩⟩
      exact absurd (hopen.symm.trans hclosed) (by decide)
    · have hne : o.writer.currentName ≠ w.currentName := by
        rw [hname, hactive.name, hgname]
        exact h.next_name_ne
      have hj' : j ≤ (olds ++ [f]).length := by
        rw [List.length_append, List.length_singleton]
        omega
      rcases hend with ⟨-, rfl⟩ | ⟨-, rfl⟩
      · exact ⟨hconfig, .inr ⟨hne, j, g, hj', hdir, hactive⟩⟩
      · obtain ⟨g', hdir', hactive', hconfig'⟩ := active_writeRecord hactive io later encrypted
        rw [← hdir] at hdir' hactive' hconfig'
        exact ⟨hconfig'.trans hconfig, .inr ⟨hne, j, g', hj', hdir', hactive'⟩⟩

/-- The current file is written to. -/
private theorem Inv.same (h : s.Inv d) {olds : Dir} {f g : File} {w : WALWriter} (hdir : s.dir = olds ++ [f])
    (hg : g.name = f.name) (hmax : 1 ≤ w.config.maxFiles) (hactive : w.fileOpen = true → w.Active olds g (d + 1)) :
    Inv ⟨olds ++ [g], some w, s.opened⟩ d := by
  have hnumbered := h.numbered
  have hopened := h.opened
  rw [hdir] at hnumbered hopened
  obtain ⟨holds, hf⟩ := Dir.numbered_concat.1 hnumbered
  refine ⟨Dir.numbered_concat.2 ⟨holds, hg.trans hf⟩, ?_, fun hnil => by simp at hnil, fun w' hw' => ?_,
    fun w' hw' hopen => ?_⟩
  · rw [hopened, List.length_append, List.length_append]
    rfl
  · obtain rfl := Option.some.inj hw'
    exact hmax
  · obtain rfl := Option.some.inj hw'
    exact ⟨olds, g, rfl, hactive hopen⟩

/-- The next file is opened, and the `j` oldest are removed. -/
private theorem Inv.next (h : s.Inv d) {j : Nat} (hj : j ≤ s.dir.length) {g : File} {w : WALWriter}
    (hmax : 1 ≤ w.config.maxFiles) (hactive : w.Active (s.dir.drop j) g (d + 1 + j)) :
    Inv ⟨s.dir.drop j ++ [g], some w, s.opened ++ [w.currentIndex]⟩ (d + j) := by
  have hnext : w.currentIndex = 1 + 1 * (d + s.dir.length) := by
    rw [hactive.index, List.length_drop]
    omega
  have hlen : d + j + (s.dir.drop j ++ [g]).length = d + s.dir.length + 1 := by
    rw [List.length_append, List.length_drop, List.length_singleton]
    omega
  rw [Nat.add_right_comm] at hactive
  refine ⟨hactive.numbered, ?_, fun hnil => by simp at hnil, fun w' hw' => ?_, fun w' hw' _ => ?_⟩
  · dsimp only
    rw [hlen, h.opened, List.range'_concat, hnext]
  · obtain rfl := Option.some.inj hw'
    exact hmax
  · obtain rfl := Option.some.inj hw'
    exact ⟨_, g, rfl, hactive⟩

theorem inv_newWriter (h : s.Inv d) (hlt : ∀ n ∈ s.opened, n < 10 ^ 6) {config : WALConfig}
    (hmax : 1 ≤ config.maxFiles) (io : Faults) (now : Time) : (s.step aead (.newWriter config io now)).Inv d := by
  have hempty : s.dir = [] → d + 1 = 1 := fun hnil => by rw [h.nonempty hnil]
  simp only [step]
  rcases newWALWriterWithConfig_cases h.numbered (h.length_lt hlt) hempty config io now with
    ⟨failure, hnew⟩ | ⟨w, g, hnew, -, -, hactive, hconfig⟩
  · rw [hnew]
    exact h
  · rw [hnew]
    exact h.next (Nat.zero_le _) (hconfig ▸ hmax) hactive

theorem inv_write (h : s.Inv d) {enc : WALEncryptor} {io : Faults} {now later : Time}
    {rand : Except String (BytesN 12)} {data : Bytes}
    (hlt : ∀ n ∈ (s.step aead (.write enc io now later rand data)).opened, n < 10 ^ 6) :
    ∃ d', (s.step aead (.write enc io now later rand data)).Inv d' := by
  simp only [step] at hlt ⊢
  cases hw : s.writer with
  | none => exact ⟨d, h⟩
  | some w =>
    rw [hw] at hlt
    dsimp only at hlt ⊢
    have hsame : (⟨s.dir, some w, s.opened⟩ : WriterRun) = s := by rw [← hw]
    cases hopen : w.fileOpen with
    | false =>
      obtain ⟨err, ho⟩ := WALWriter.write_closed hopen aead enc s.dir io now later rand data
      rw [ho, if_pos rfl, hsame]
      exact ⟨d, h⟩
    | true =>
      obtain ⟨olds, f, hdir, hactive⟩ := h.active w hw hopen
      generalize ho : w.write aead enc s.dir io now later rand data = o at hlt ⊢
      have hindex : o.writer.currentName ≠ w.currentName → o.writer.currentIndex < 10 ^ 6 := by
        intro hne
        rw [if_neg hne] at hlt
        exact hlt _ (List.mem_append_right _ (List.mem_singleton.2 rfl))
      obtain ⟨hconfig, hcases⟩ := write_names hactive (h.maxFiles w hw) (hdir ▸ ho) hindex
      have hmax : 1 ≤ o.writer.config.maxFiles := by
        rw [hconfig]
        exact h.maxFiles w hw
      rcases hcases with ⟨hname, g, hodir, hg, hact⟩ | ⟨hne, j, g, hj, hodir, hact⟩
      · rw [if_pos hname, hodir]
        exact ⟨d, h.same hdir hg hmax hact⟩
      · rw [← hdir] at hj hodir hact
        rw [if_neg hne, hodir]
        exact ⟨d + j, h.next hj hmax hact⟩

theorem inv_close (h : s.Inv d) (io : Faults) : (s.step aead (.close io)).Inv d := by
  simp only [step]
  cases hw : s.writer with
  | none => exact h
  | some w =>
    have hclosed := WALWriter.close_fst w io
    refine ⟨h.numbered, h.opened, h.nonempty, fun w' hw' => ?_, fun w' hw' hopen => ?_⟩
    · obtain rfl := Option.some.inj hw'
      rw [hclosed.2]
      exact h.maxFiles w hw
    · obtain rfl := Option.some.inj hw'
      exact absurd (hopen.symm.trans hclosed.1) (by decide)

/-- The files opened before an event are among those opened after it. -/
theorem opened_prefix_step (aead : Aead) (s : WriterRun) (e : Event) : s.opened <+: (s.step aead e).opened := by
  cases e with
  | newWriter config io now =>
    simp only [step]
    split
    · exact List.prefix_refl _
    · exact List.prefix_append ..
  | write enc io now later rand data =>
    simp only [step]
    split
    · exact List.prefix_refl _
    · dsimp only
      split
      · exact List.prefix_refl _
      · exact List.prefix_append ..
  | close io =>
    simp only [step]
    split <;> exact List.prefix_refl _

theorem opened_prefix_exec (aead : Aead) (s : WriterRun) (es : List Event) :
    s.opened <+: (exec (step aead) s es).opened := by
  induction es generalizing s with
  | nil => exact List.prefix_refl _
  | cons e es ih => exact (opened_prefix_step aead s e).trans (ih (s.step aead e))

theorem inv_exec {es : List Event} (hes : ∀ e ∈ es, KeepsOne e) (h : s.Inv d)
    (hlt : ∀ n ∈ (exec (step aead) s es).opened, n < 10 ^ 6) : ∃ d', (exec (step aead) s es).Inv d' := by
  induction es generalizing s d with
  | nil => exact ⟨d, h⟩
  | cons e es ih =>
    obtain ⟨he, hes⟩ := List.forall_mem_cons.1 hes
    have hstep : ∀ n ∈ (s.step aead e).opened, n < 10 ^ 6 :=
      fun n hn => hlt n ((opened_prefix_exec aead (s.step aead e) es).subset hn)
    have hinv : ∃ d', (s.step aead e).Inv d' := by
      cases e with
      | newWriter config io now =>
        exact ⟨d, inv_newWriter h (fun n hn => hstep n ((opened_prefix_step aead s _).subset hn)) he io now⟩
      | write enc io now later rand data => exact inv_write h hstep
      | close io => exact ⟨d, inv_close h io⟩
    obtain ⟨d', hinv⟩ := hinv
    exact ih hes hinv hlt

/-! ### What the numbers are for -/

theorem consistent_of_inv (h : s.Inv d) (hlt : ∀ n ∈ s.opened, n < 10 ^ 6) : s.Consistent := by
  have hlen := h.length_lt hlt
  refine ⟨fun n hn => scanIndex_walFileName (hlt n hn), ?_, fun config now w dir hnew n hn => ?_,
    fun w hw hopen => ?_⟩
  · rw [h.numbered.getWALFiles_readDir hlen, List.map_map]
    rfl
  · have hempty : s.dir = [] → d + 1 = 1 := fun hnil => by rw [h.nonempty hnil]
    obtain ⟨w', g, hnew', -, -, hactive, -⟩ := newWALWriterWithConfig_eq h.numbered hlen hempty config now
    obtain ⟨rfl, -⟩ := Prod.mk.inj (Except.ok.inj (hnew.symm.trans hnew'))
    rw [h.opened, Option.mem_def, List.getLast?_range'] at hn
    split at hn
    · cases hn
    · have hlast := Option.some.inj hn
      rw [hactive.index]
      omega
  · obtain ⟨olds, f, hdir, hactive⟩ := h.active w hw hopen
    intro hnone
    have hmem : f ∈ s.dir := by
      rw [hdir]
      exact List.mem_append_right _ (List.mem_singleton.2 rfl)
    have hne := List.find?_eq_none.1 hnone f hmem
    exact hne (by simp [hactive.name])

/-- The numbers serve their purpose exactly as long as they are below a million. -/
theorem consistent_iff {es : List Event} (hes : ∀ e ∈ es, KeepsOne e) :
    (exec (step aead) start es).Consistent ↔ ∀ n ∈ (exec (step aead) start es).opened, n < 10 ^ 6 := by
  constructor
  · intro h n hn
    exact scanIndex_walFileName_iff.1 (h.roundTrip n hn)
  · intro hlt
    obtain ⟨d, hinv⟩ := inv_exec hes inv_start hlt
    exact consistent_of_inv hinv hlt

/-! ### A million files -/

/-- A new file whenever time has passed, and only the newest file is kept. -/
def oneFile : WALConfig := { maxFileSize := 1000, rollingInterval := 0, maxFiles := 1 }

/-- The write number `k`, counted from 0, at the time `k + 1`. -/
def timedWrite (k : Nat) : Event :=
  .write KeyRun.secretEncryptor .none (k + 1 : Nat) (k + 1 : Nat) KeyRun.randomNonce [97]

/-- A writer and `n` records. -/
def longRun (n : Nat) : List Event := .newWriter oneFile .none 0 :: (List.range n).map timedWrite

theorem keepsOne_longRun (n : Nat) : ∀ e ∈ longRun n, KeepsOne e := by
  intro e he
  rcases List.mem_cons.1 he with rfl | he
  · exact Int.le_refl 1
  · obtain ⟨k, -, rfl⟩ := List.mem_map.1 he
    trivial

theorem consistent_longRun_two :
    (∀ e ∈ longRun 2, KeepsOne e) ∧ (exec (step AesGcm.aead) start (longRun 2)).opened = [1, 2, 3] ∧
      (exec (step AesGcm.aead) start (longRun 2)).Consistent :=
  ⟨keepsOne_longRun 2, by decide +kernel, (consistent_iff (keepsOne_longRun 2)).2 (by decide +kernel)⟩

/-- After `k` records the only file is the one that is written to. -/
structure Alone (s : WriterRun) (k : Nat) (w : WALWriter) (f : File) : Prop where
  dir : s.dir = [f]
  writer : s.writer = some w
  active : w.Active [] f (k + 1)
  config : w.config = oneFile
  time : w.currentTime = k

theorem Alone.rolls {k : Nat} {w : WALWriter} {f : File} (h : s.Alone k w f) (data : Bytes) :
    w.Rolls (k + 1 : Nat) data := by
  right
  rw [h.time, h.config]
  show ((k + 1 : Nat) : Int) - k > 0
  omega

theorem Alone.name_eq {k : Nat} {w : WALWriter} {f : File} (h : s.Alone k w f) : f.name = walFileName (k + 1) :=
  (Dir.numbered_concat.1 h.active.numbered).2

theorem Alone.name_ne {k n : Nat} {w : WALWriter} {f : File} (h : s.Alone k w f) (hn : k + 1 ≠ n) :
    f.name ≠ walFileName n := by
  rw [h.name_eq]
  exact fun heq => hn (walFileName_injective heq)

/-- The sample is encrypted. -/
private theorem encrypt_sample :
    ∃ encrypted, KeyRun.secretEncryptor.encrypt AesGcm.aead KeyRun.randomNonce [97] = .ok encrypted :=
  ⟨_, rfl⟩

theorem alone_step {k : Nat} {w : WALWriter} {f : File} (h : s.Alone k w f) (hk : k + 2 < 10 ^ 6) :
    ∃ w' f', (s.step AesGcm.aead (timedWrite k)).Alone (k + 1) w' f' := by
  have hmax : 1 ≤ w.config.maxFiles := by rw [h.config]; decide
  have hindex : w.currentIndex = k + 1 := h.active.index
  generalize ho : w.write AesGcm.aead KeyRun.secretEncryptor ([] ++ [f]) .none (k + 1 : Nat) (k + 1 : Nat)
    KeyRun.randomNonce [97] = o
  have hok : o.err = none := by
    rcases WALWriter.write_none_cases h.active hmax ho (fun _ => by omega) with ⟨hnil, -⟩ | ⟨⟨err, herr⟩, -⟩
    · exact hnil
    · obtain ⟨encrypted, henc⟩ := encrypt_sample
      rw [henc] at herr
      cases herr
  obtain ⟨hne, htime, hlen⟩ := WALWriter.write_rolls h.active hmax (by omega) ho hok (h.rolls [97])
  obtain ⟨bytes, -, hconfig, hcases⟩ := WALWriter.write_cases h.active hmax (fun n err hfault => by cases hfault) ho
    (fun _ => by omega)
  obtain ⟨-, j, g, -, hj, hdir, hactive⟩ := hcases.resolve_left fun hsame => hne hsame.1
  -- the new file is the only one that is kept
  have hdrop : ([] ++ [f]).drop j = [] := by
    rw [hdir, h.config, List.length_append, List.length_singleton] at hlen
    exact List.length_eq_zero_iff.1 (Nat.le_zero.1 (Nat.le_of_succ_le_succ hlen))
  have hone : j = 1 := by
    rw [h.config] at hj
    have hpos : 1 ≤ j := List.drop_eq_nil_iff.1 hdrop
    exact Nat.le_antisymm hj hpos
  rw [hdrop] at hdir hactive
  refine ⟨o.writer, g, ?_, ?_, hone ▸ hactive, hconfig.trans h.config, htime⟩
  · simp only [timedWrite, step, h.writer, h.dir]
    exact (congrArg Outcome.dir ho).trans hdir
  · simp only [timedWrite, step, h.writer, h.dir]
    exact congrArg (fun o : Outcome => some o.writer) ho

private theorem longRun_succ (k : Nat) : longRun (k + 1) = longRun k ++ [timedWrite k] := by
  simp [longRun, List.range_succ]

theorem alone_exec {k : Nat} (hk : k + 1 < 10 ^ 6) :
    ∃ w f, (exec (step AesGcm.aead) start (longRun k)).Alone k w f := by
  induction k with
  | zero =>
    refine ⟨⟨oneFile, walFileName 1, true, 0, 0, 1⟩, ⟨walFileName 1, [], 0⟩, rfl, rfl, ⟨rfl, rfl, rfl, rfl⟩, rfl, rfl⟩
  | succ k ih =>
    obtain ⟨w, f, h⟩ := ih (by omega)
    rw [longRun_succ, Run.exec_append]
    exact alone_step h (by omega)

/-- The two newest files change places in the list. -/
private theorem getWALFiles_million {f g : File} (hf : f.name = walFileName 999999)
    (hg : g.name = walFileName 1000000) :
    getWALFiles (Dir.readDir [f, g]) = [g.toInfo, f.toInfo] := by
  have hscanf : f.toInfo.index = 999999 := by
    rw [show f.toInfo.index = scanIndex f.name from rfl, hf]
    decide +kernel
  have hscang : g.toInfo.index = 100000 := by
    rw [show g.toInfo.index = scanIndex g.name from rfl, hg]
    decide +kernel
  have hnames : ∀ x ∈ [f, g], ∃ n, x.name = walFileName n := by
    simp only [List.mem_cons, List.not_mem_nil, or_false, forall_eq_or_imp, forall_eq]
    exact ⟨⟨_, hf⟩, _, hg⟩
  refine ExchangeSort.sort_eq_of_perm WalFileInfo.index ((Dir.perm_filterMap_readDir hnames).trans (.swap ..)) ?_
  simp [hscanf, hscang]

private theorem cleanupLoop_two (a b : WalFileInfo) (dir : Dir) :
    WALWriter.cleanupLoop 1 [a, b] none dir = (dir.remove a.name, none) := by
  simp [WALWriter.cleanupLoop]

/-- The file number one million is removed by the roll that makes it. -/
theorem doRollFile_million {k : Nat} (hk : k = 999998) {w : WALWriter} {f : File} (h : s.Alone k w f) (now : Time) :
    w.doRollFile ([] ++ [f]) .none now =
      ⟨⟨oneFile, walFileName 1000000, true, 0, now, 1000000⟩, [f], none⟩ := by
  have hopen : ¬ w.fileOpen = false := by rw [h.active.fileOpen]; decide
  have hindex : w.currentIndex + 1 = 1000000 := by have := h.active.index; simp at this; omega
  have hname : f.name = walFileName 999999 := by rw [h.name_eq, hk]
  have hio : Faults.none.openFile = none := rfl
  have hnext := WALWriter.openCurrentFile_next (w := { w with fileOpen := false, currentIndex := w.currentIndex + 1 })
    h.active.numbered h.active.next_index hio now
  have hlist := getWALFiles_million (g := ⟨walFileName 1000000, [], now⟩) hname rfl
  have hremove : Dir.remove [f, ⟨walFileName 1000000, [], now⟩] (walFileName 1000000) = [f] := by
    simp [Dir.remove, h.name_ne (n := 1000000) (by omega)]
  rw [hindex] at hnext
  unfold WALWriter.doRollFile
  rw [if_neg hopen, hindex]
  simp only [Faults.none] at hnext ⊢
  rw [hnext]
  simp only [WALWriter.cleanupOldFiles, Dir.create, List.nil_append, List.singleton_append, h.config, hlist, oneFile,
    cleanupLoop_two]
  exact congrArg (fun dir => (⟨_, dir, none⟩ : Outcome)) hremove

/-- The record goes to a file that is not there any more. -/
theorem removed_step {k : Nat} (hk : k = 999998) {w : WALWriter} {f : File} (h : s.Alone k w f) :
    ∃ w', (s.step AesGcm.aead (timedWrite k)).writer = some w' ∧ w'.fileOpen = true ∧ w'.currentIndex = 1000000 ∧
      w'.currentName = walFileName 1000000 ∧ (s.step AesGcm.aead (timedWrite k)).dir.lookup w'.currentName = none ∧
      1000000 ∈ (s.step AesGcm.aead (timedWrite k)).opened := by
  obtain ⟨encrypted, henc⟩ := encrypt_sample
  have hroll := doRollFile_million hk h (k + 1 : Nat)
  have hrolls : w.NeedRoll (k + 1 : Nat) encrypted :=
    (WALWriter.needRoll_iff_rolls (Seals.of_encrypt henc) _).2 (h.rolls [97])
  have hne : f.name ≠ walFileName 1000000 := h.name_ne (by omega)
  have hcurrent : w.currentName ≠ walFileName 1000000 := by
    rw [h.active.name]
    exact hne
  have hwrite : w.write AesGcm.aead KeyRun.secretEncryptor ([] ++ [f]) .none (k + 1 : Nat) (k + 1 : Nat)
      KeyRun.randomNonce [97] =
        ⟨⟨oneFile, walFileName 1000000, true, 0 + encrypted.length, (k + 1 : Nat), 1000000⟩, [f], none⟩ := by
    have happend : Dir.append [f] (walFileName 1000000) encrypted (k + 1 : Nat) = [f] := by simp [Dir.append, hne]
    rw [WALWriter.write, henc]
    dsimp only
    rw [if_pos hrolls, hroll]
    simp only [WALWriter.writeRecord, Faults.none, happend, reduceCtorEq, if_false]
  simp only [timedWrite, step, h.writer, h.dir]
  rw [List.nil_append] at hwrite
  rw [hwrite]
  refine ⟨_, rfl, rfl, rfl, rfl, ?_, ?_⟩
  · exact List.find?_eq_none.2 (by simp [hne])
  · dsimp only
    rw [if_neg hcurrent.symm]
    exact List.mem_append_right _ (List.mem_singleton.2 rfl)

theorem removed_exec {k : Nat} (hk : k = 999998) :
    ∃ w, (exec (step AesGcm.aead) start (longRun (k + 1))).writer = some w ∧ w.fileOpen = true ∧
      w.currentIndex = 1000000 ∧ w.currentName = walFileName 1000000 ∧
      (exec (step AesGcm.aead) start (longRun (k + 1))).dir.lookup w.currentName = none ∧
      1000000 ∈ (exec (step AesGcm.aead) start (longRun (k + 1))).opened := by
  obtain ⟨w, f, h⟩ := alone_exec (k := k) (by omega)
  rw [longRun_succ, Run.exec_append]
  exact removed_step hk h

/-- With the number one million a writer goes on with a file that is not in the directory any more, and that would be
counted as number one hundred thousand. -/
theorem current_removed_million :
    (∀ e ∈ longRun (999998 + 1), KeepsOne e) ∧ scanIndex (walFileName 1000000) = 100000 ∧
    ∃ w, (exec (step AesGcm.aead) start (longRun (999998 + 1))).writer = some w ∧ w.fileOpen = true ∧
      w.currentIndex = 1000000 ∧ w.currentName = walFileName 1000000 ∧
      (exec (step AesGcm.aead) start (longRun (999998 + 1))).dir.lookup w.currentName = none ∧
      1000000 ∈ (exec (step AesGcm.aead) start (longRun (999998 + 1))).opened :=
  ⟨keepsOne_longRun _, by decide +kernel, removed_exec rfl⟩

end WriterRun

end DistributedBloomFilter
