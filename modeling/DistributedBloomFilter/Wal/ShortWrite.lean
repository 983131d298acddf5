import DistributedBloomFilter.Wal.History

/-!
# Writes that fail half way

A `Write` whose record did not go to the file in full returns an error, but the writer stays as it is and the next
`Write` goes on after the bytes that were left there.  The reader takes those bytes for the beginning of a record and
reads nothing behind them.  So the payloads of a run are all returned as long as every `Write` that comes after such a
failure rolls to a new file first, or writes nothing at all (`Fresh`).
-/

namespace DistributedBloomFilter

open Run (exec Admits)

/-- A log whose writer goes on after a `Write` that failed.  `leftover` says that the current file ends in bytes of
such a `Write`. -/
structure FaultyHistory extends History where
  leftover : Bool

namespace FaultyHistory

inductive Event where
  /-- a new writer on the same directory -/
  | restart (now : Time)
  /-- a `Write`, with what the file system answers -/
  | write (io : Faults) (now later : Time) (rand : Except String (BytesN 12)) (data : Bytes)

def start (e : WALEncryptor) : FaultyHistory := { History.start e with leftover := false }

/-- The bytes of a file, or none if there is no such file. -/
def contents (dir : Dir) (name : String) : Bytes := ((dir.lookup name).map File.data).getD []

/-- The files by their payloads after a `Write`. -/
def filesAfter (files : List (List Bytes)) (w : WALWriter) (o : Outcome) (data : Bytes) : List (List Bytes) :=
  if o.err = none then (History.filesAfter files w o).modifyLast (· ++ [data]) else History.filesAfter files w o

/-- What was left over stays in its file, and a `Write` that fails leaves over what it has added to its file. -/
def leftoverAfter (leftover : Bool) (dir : Dir) (w : WALWriter) (o : Outcome) : Bool :=
  decide ((o.writer.currentName = w.currentName ∧ leftover = true) ∨
    (o.err ≠ none ∧ contents dir o.writer.currentName ≠ contents o.dir o.writer.currentName))

section Steps

variable (aead : Aead) (config : WALConfig)

def step (s : FaultyHistory) : Event → FaultyHistory
  | .restart now => { s.toHistory.step aead config (.restart now) with leftover := false }
  | .write io now later rand data =>
    match s.writer with
    | none => s
    | some w =>
      let o := w.write aead s.enc s.dir io now later rand data
      { enc := s.enc
        dir := o.dir
        writer := some o.writer
        acked := if o.err = none then s.acked ++ [data] else s.acked
        files := filesAfter s.files w o data
        leftover := leftoverAfter s.leftover s.dir w o }

/-- A write that fails leaves less than the whole record, which is 36 bytes longer than the payload. -/
def Strict : Event → Prop
  | .restart _ => True
  | .write io _ _ _ data => ∀ fault ∈ io.write, fault.1 < data.length + 36

/-- There are fewer than a million files, the length of the record fits its field, and nothing goes behind the bytes
of a `Write` that failed. -/
def Fresh (s : FaultyHistory) : Event → Prop
  | .restart _ => s.files.length + 1 < 10 ^ 6
  | .write io now later rand data => s.files.length + 1 < 10 ^ 6 ∧ data.length + 32 < 2 ^ 32 ∧
      (s.leftover = true → ∀ w ∈ s.writer,
        w.Rolls now data ∨ (w.write aead s.enc s.dir io now later rand data).dir = s.dir)

end Steps

/-! ### The invariant -/

/-- The writer has the newest file open; after the records there is at most a torn one, and nothing at all if nothing
was left over. -/
def Appending (aead : Aead) (enc : WALEncryptor) (w : WALWriter) (dir : Dir) (files : List (List Bytes)) (d : Nat)
    (leftover : Bool) : Prop :=
  ∃ olds f pss ps rest, dir = olds ++ [f] ∧ files = pss ++ [ps] ∧ w.Active olds f (d + 1) ∧
    Torn rest ∧ Holds aead enc f.data ps rest ∧ (leftover = false → rest = [])

structure Inv (aead : Aead) (config : WALConfig) (s : FaultyHistory) : Prop where
  acked : s.acked = s.files.flatten
  count : s.files.length < 10 ^ 6
  stored : ∃ d, History.Stored aead s.enc config.maxFiles.toNat s.dir s.files d ∧
    ∀ w ∈ s.writer, w.config = config ∧ (w.fileOpen = true → Appending aead s.enc w s.dir s.files d s.leftover)

variable {aead : Aead} {enc : WALEncryptor} {config : WALConfig}

theorem inv_start (e : WALEncryptor) : Inv aead config (start e) where
  acked := rfl
  count := by simp [start, History.start]
  stored := ⟨0, ⟨Nat.zero_le _, Dir.numbered_nil 1, List.Forall₂.nil⟩, fun w hw => by cases hw⟩

theorem inv_restart (hmax : 1 ≤ config.maxFiles) {s : FaultyHistory} (h : s.Inv aead config) (now : Time)
    (hfresh : s.Fresh aead (.restart now)) : (s.step aead config (.restart now)).Inv aead config := by
  obtain ⟨d, hstored, _⟩ := h.stored
  obtain ⟨w, g, hstep, hconfig, hstored', olds, f, pss, ps, hdir, hfiles, hactive, hholds⟩ :=
    History.step_restart hmax hstored h.count now
  rw [step, hstep]
  refine ⟨by simp [h.acked], ?_, d, hstored', fun w' hw' => ?_⟩
  · rw [List.length_append, List.length_singleton]; exact hfresh
  · obtain rfl := Option.some.inj hw'
    exact ⟨hconfig, fun _ => ⟨olds, f, pss, ps, [], hdir, hfiles, hactive, torn_nil, hholds, fun _ => rfl⟩⟩

/-- What a `Write` makes of the end of a file, if it does not write behind a torn record. -/
private theorem holds_after_write {err : Option Failure} {data bytes before rest : Bytes} {qs : List Bytes}
    (hwrote : WALWriter.Wrote aead enc data err bytes) (hdata : data.length + 32 < 2 ^ 32)
    (hbefore : Holds aead enc before qs rest) (htorn : Torn rest) (hclean : rest = [] ∨ bytes = []) :
    ∃ rest', Torn rest' ∧ Holds aead enc (before ++ bytes) (if err = none then qs ++ [data] else qs) rest' ∧
      (rest' = [] ∨ err ≠ none ∧ rest' = rest ++ bytes) := by
  rcases hwrote with ⟨rfl, hseals⟩ | ⟨herr, hbytes⟩
  · have hne : bytes ≠ [] := by
      rintro rfl
      have := hseals.length_eq
      rw [List.length_nil] at this
      omega
    obtain rfl := hclean.resolve_right hne
    refine ⟨[], torn_nil, ?_, .inl rfl⟩
    rw [if_pos rfl]
    exact hbefore.concat ⟨_, _, hseals, hdata, enc.cached⟩
  · rw [if_neg herr]
    rcases hclean with rfl | rfl
    · refine ⟨bytes, ?_, hbefore.append_rest bytes, .inr ⟨herr, rfl⟩⟩
      rcases hbytes with rfl | ⟨record, n, hseals, hn, rfl⟩
      · exact torn_nil
      · exact hseals.torn_take hdata hn
    · exact ⟨rest, htorn, by rwa [List.append_nil], .inr ⟨herr, (List.append_nil rest).symm⟩⟩

theorem filesAfter_same {pss : List (List Bytes)} {ps : List Bytes} {w : WALWriter} {o : Outcome}
    (hsame : o.writer.currentName = w.currentName) (data : Bytes) :
    filesAfter (pss ++ [ps]) w o data = pss ++ [if o.err = none then ps ++ [data] else ps] := by
  rw [filesAfter, History.filesAfter, if_pos hsame, List.modifyLast_concat]
  split <;> rfl

theorem filesAfter_new {files : List (List Bytes)} {w : WALWriter} {o : Outcome}
    (hnew : o.writer.currentName ≠ w.currentName) (data : Bytes) :
    filesAfter files w o data = files ++ [if o.err = none then [] ++ [data] else []] := by
  rw [filesAfter, History.filesAfter, if_neg hnew, List.modifyLast_concat]
  split <;> rfl

private theorem flatten_filesAfter {files : List (List Bytes)} (hne : files ≠ []) (w : WALWriter) (o : Outcome)
    (data : Bytes) :
    (filesAfter files w o data).flatten = if o.err = none then files.flatten ++ [data] else files.flatten := by
  rcases List.eq_nil_or_concat files with rfl | ⟨pss, ps, rfl⟩
  · exact absurd rfl hne
  rw [List.concat_eq_append]
  by_cases hsame : o.writer.currentName = w.currentName
  · rw [filesAfter_same hsame]
    split <;> simp
  · rw [filesAfter_new hsame]
    split <;> simp

private theorem length_filesAfter_le (files : List (List Bytes)) (w : WALWriter) (o : Outcome) (data : Bytes) :
    (filesAfter files w o data).length ≤ files.length + 1 := by
  by_cases hsame : o.writer.currentName = w.currentName
  · rcases List.eq_nil_or_concat files with rfl | ⟨pss, ps, rfl⟩
    · rw [filesAfter, History.filesAfter, if_pos hsame]
      split <;> exact Nat.zero_le _
    · rw [List.concat_eq_append, filesAfter_same hsame, List.length_append, List.length_append]
      exact Nat.le_succ _
  · rw [filesAfter_new hsame, List.length_append, List.length_singleton]

private theorem contents_last {olds : Dir} {g : File} {first : Nat} (h : Dir.Numbered (olds ++ [g]) first) :
    contents (olds ++ [g]) g.name = g.data := by
  rw [contents, h.lookup_name (List.mem_append_right _ (List.mem_singleton.2 rfl))]
  rfl

/-- Before a new file was made after the newest one, there was no file of its name. -/
private theorem contents_new {dir : Dir} {g : File} {first j : Nat} (h : dir.Numbered first) (hj : j ≤ dir.length)
    (hnew : Dir.Numbered (dir.drop j ++ [g]) (first + j)) : contents dir g.name = [] := by
  have hnumber : first + j + (dir.drop j).length = first + dir.length := by
    rw [List.length_drop]
    omega
  rw [contents, (Dir.numbered_concat.1 hnew).2, hnumber, h.lookup_next]
  rfl

/-- With nothing left over, a `Write` that failed has added nothing. -/
private theorem no_leftover {leftover : Bool} {dir : Dir} {w : WALWriter} {o : Outcome}
    (h : leftoverAfter leftover dir w o = false) :
    (o.writer.currentName = w.currentName → leftover = false) ∧
      (o.err ≠ none → contents dir o.writer.currentName = contents o.dir o.writer.currentName) := by
  rw [leftoverAfter, decide_eq_false_iff_not, not_or] at h
  exact ⟨fun hsame => Bool.eq_false_iff.2 fun ht => h.1 ⟨hsame, ht⟩, fun herr => not_not.1 fun hne => h.2 ⟨herr, hne⟩⟩

/-- A `Write` of a writer whose file is open. -/
private theorem appending_write {w : WALWriter} {dir : Dir} {files : List (List Bytes)} {d : Nat} {leftover : Bool}
    {io : Faults} {now later : Time} {rand : Except String (BytesN 12)} {data : Bytes} {o : Outcome}
    (hmax : 1 ≤ config.maxFiles) (hstored : History.Stored aead enc config.maxFiles.toNat dir files d)
    (hconfig : w.config = config) (hrun : Appending aead enc w dir files d leftover)
    (hcount : files.length + 1 < 10 ^ 6) (hdata : data.length + 32 < 2 ^ 32)
    (hroll : leftover = true → w.Rolls now data ∨ o.dir = dir)
    (hfault : ∀ n err, io.write = some (n, err) → n < data.length + 36)
    (ho : w.write aead enc dir io now later rand data = o) :
    ∃ d', History.Stored aead enc config.maxFiles.toNat o.dir (filesAfter files w o data) d' ∧
      o.writer.config = config ∧ (o.writer.fileOpen = true →
        Appending aead enc o.writer o.dir (filesAfter files w o data) d' (leftoverAfter leftover dir w o)) := by
  obtain ⟨olds, f, pss, ps, rest, rfl, rfl, hactive, htorn, hholds, hrest⟩ := hrun
  have hmax' : 1 ≤ config.maxFiles.toNat := by omega
  have hbound : w.currentIndex + 1 < 10 ^ 6 := by
    have hlen := hstored.length_dir
    have hindex := hactive.index
    rw [List.length_append, List.length_singleton] at hlen
    omega
  obtain ⟨bytes, hwrote, hconfig', hcases⟩ :=
    WALWriter.write_cases hactive (by rw [hconfig]; exact hmax) hfault ho (fun _ => hbound)
  rcases hcases with ⟨hsame, g, hname, hgdata, hdir, hactive', hnoroll⟩ | ⟨hnew, j, g, hgdata, hj, hdir, hactive'⟩
  · -- the newest file, perhaps grown
    have hclean : rest = [] ∨ bytes = [] := by
      cases hleft : leftover with
      | false => exact .inl (hrest hleft)
      | true =>
        rcases hroll hleft with hrolls | hsame'
        · exact .inr (hnoroll hrolls)
        · -- the newest file has the bytes it had
          have hlast := List.append_inj' (hdir.symm.trans hsame') rfl
          obtain rfl := List.singleton_inj.1 hlast.2
          exact .inr (List.append_right_eq_self.1 hgdata.symm)
    obtain ⟨rest', htorn', hholds', hrest'⟩ := holds_after_write hwrote hdata hholds htorn hclean
    rw [← hgdata] at hholds'
    rw [filesAfter_same hsame, hdir]
    refine ⟨d, hstored.replace_last hmax' hname ⟨rest', htorn', hholds'⟩, hconfig'.trans hconfig, fun hopen => ?_⟩
    have hact := hactive' (.inr hopen)
    refine ⟨olds, g, pss, _, rest', rfl, rfl, hact, htorn', hholds', fun hleft => ?_⟩
    obtain ⟨hbefore, hadded⟩ := no_leftover hleft
    rcases hrest' with rfl | ⟨herr, rfl⟩
    · rfl
    · have hcontents := hadded herr
      rw [hact.name, hdir, contents_last hact.numbered, hname, contents_last hactive.numbered, hgdata] at hcontents
      rw [hrest (hbefore hsame), List.nil_append]
      exact List.append_right_eq_self.1 hcontents.symm
  · -- a new file
    obtain ⟨rest', htorn', hholds', hrest'⟩ := holds_after_write hwrote hdata (holds_nil []) torn_nil (.inl rfl)
    rw [List.nil_append, ← hgdata] at hholds'
    rw [filesAfter_new hnew, hdir]
    rw [hconfig] at hj
    have hj' : j ≤ (olds ++ [f]).length + 1 - config.maxFiles.toNat := by
      rw [List.length_append, List.length_singleton]; exact hj
    refine ⟨d + j, hstored.roll hj' hmax' hactive'.numbered ⟨rest', htorn', hholds'⟩, hconfig'.trans hconfig, fun _ =>
      ⟨(olds ++ [f]).drop j, g, _, _, rest', rfl, rfl, ?_, htorn', hholds', fun hleft => ?_⟩⟩
    · rw [Nat.add_right_comm]; exact hactive'
    · rcases hrest' with rfl | ⟨herr, rfl⟩
      · rfl
      · have hcontents := (no_leftover hleft).2 herr
        have hempty : contents (olds ++ [f]) g.name = [] :=
          contents_new hactive.numbered (by omega) hactive'.numbered
        rw [hactive'.name, hempty, hdir, contents_last hactive'.numbered, hgdata] at hcontents
        exact hcontents.symm

theorem inv_write (hmax : 1 ≤ config.maxFiles) {s : FaultyHistory} (h : s.Inv aead config) {io : Faults}
    {now later : Time} {rand : Except String (BytesN 12)} {data : Bytes}
    (hstrict : Strict (.write io now later rand data)) (hfresh : s.Fresh aead (.write io now later rand data)) :
    (s.step aead config (.write io now later rand data)).Inv aead config := by
  obtain ⟨hcount, hdata, hroll⟩ := hfresh
  obtain ⟨d, hstored, hrun⟩ := h.stored
  simp only [step]
  cases hw : s.writer with
  | none => exact h
  | some w =>
    obtain ⟨hconfig, happending⟩ := hrun w hw
    dsimp only
    cases hopen : w.fileOpen with
    | false =>
      -- the file was closed by a roll that failed
      obtain ⟨err, ho⟩ := WALWriter.write_closed hopen aead s.enc s.dir io now later rand data
      rw [ho]
      have hfiles : filesAfter s.files w ⟨w, s.dir, some err⟩ data = s.files := by
        rw [filesAfter, if_neg (by simp), History.filesAfter, if_pos rfl]
      rw [hfiles, if_neg (by simp)]
      refine ⟨h.acked, h.count, d, hstored, fun w' hw' => ?_⟩
      obtain rfl := Option.some.inj hw'
      exact ⟨hconfig, fun hopen' => absurd (hopen'.symm.trans hopen) (by decide)⟩
    | true =>
      have hrun' := happending hopen
      have hne : s.files ≠ [] := by
        obtain ⟨_, _, pss, ps, _, _, hfiles, _⟩ := hrun'
        rw [hfiles]; simp
      generalize ho : w.write aead s.enc s.dir io now later rand data = o
      obtain ⟨d', hstored', hconfig', hopen'⟩ := appending_write hmax hstored hconfig hrun' hcount hdata
        (fun hleft => ho ▸ hroll hleft w hw) (fun n err hio => hstrict (n, err) hio) ho
      refine ⟨?_, ?_, d', hstored', fun w' hw' => ?_⟩
      · rw [flatten_filesAfter hne, h.acked]
      · exact Nat.lt_of_le_of_lt (length_filesAfter_le s.files w o data) hcount
      · obtain rfl := Option.some.inj hw'
        exact ⟨hconfig', hopen'⟩

theorem inv_step (hmax : 1 ≤ config.maxFiles) (s : FaultyHistory) (ev : Event) (h : s.Inv aead config)
    (hev : Strict ev ∧ s.Fresh aead ev) : (s.step aead config ev).Inv aead config := by
  cases ev with
  | restart now => exact inv_restart hmax h now hev.2
  | write io now later rand data => exact inv_write hmax h hev.1 hev.2

instance : ∀ ev : Event, Decidable (Strict ev)
  | .restart _ => .isTrue trivial
  | .write io _ _ _ data => inferInstanceAs (Decidable (∀ fault ∈ io.write, fault.1 < data.length + 36))

instance (aead : Aead) : ∀ (s : FaultyHistory) (ev : Event), Decidable (s.Fresh aead ev)
  | s, .restart _ => inferInstanceAs (Decidable (s.files.length + 1 < 10 ^ 6))
  | s, .write io now later rand data => inferInstanceAs (Decidable (s.files.length + 1 < 10 ^ 6 ∧
      data.length + 32 < 2 ^ 32 ∧ (s.leftover = true → ∀ w ∈ s.writer,
        w.Rolls now data ∨ (w.write aead s.enc s.dir io now later rand data).dir = s.dir)))

end FaultyHistory

end DistributedBloomFilter
