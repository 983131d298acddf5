import DistributedBloomFilter.Wal.Encryptor
import DistributedBloomFilter.Wal.Files

/-!
# The writer of the log

`WALWriter` of `internal/wal/encryptor.go`: opening a file, rolling to the next one by size or by time, deleting the
oldest files and writing a record.  What the file system answers to the calls of one operation is an argument
(`Faults`), so that an operation can also stop at any of them.  `write_cases` says everything a `Write` can do to a
numbered directory.
-/

namespace DistributedBloomFilter

structure WALConfig where
  maxFileSize : Int
  rollingInterval : Int
  maxFiles : Int
deriving DecidableEq, Repr

/-- The file `currentFile` is the one called `currentName`; `fileOpen` says that it has not been closed. -/
structure WALWriter where
  config : WALConfig
  currentName : String
  fileOpen : Bool
  currentSize : Int
  currentTime : Time
  currentIndex : Nat
deriving DecidableEq, Repr

/-- The calls of one operation that fail, with their errors: a removal after a number of others, a write after a
number of bytes. -/
structure Faults where
  mkdirAll : Option String
  readDir : Option String
  openFile : Option String
  close : Option String
  remove : Option (Nat × String)
  write : Option (Nat × String)

/-- Every call succeeds. -/
def Faults.none : Faults :=
  { mkdirAll := .none, readDir := .none, openFile := .none, close := .none, remove := .none, write := .none }

/-- The writer and the directory after a call, and the error it returned. -/
structure Outcome where
  writer : WALWriter
  dir : Dir
  err : Option Failure
deriving DecidableEq, Repr

namespace WALWriter

def openCurrentFile (w : WALWriter) (dir : Dir) (io : Faults) (now : Time) : Outcome :=
  let filename := walFileName w.currentIndex
  match io.openFile with
  | some err => ⟨w, dir, some (.error err)⟩
  | none =>
    match dir.lookup filename with
    | some f =>
      ⟨{ w with
          fileOpen := true, currentName := filename, currentSize := f.data.length, currentTime := f.modTime },
        dir, none⟩
    | none =>
      ⟨{ w with fileOpen := true, currentName := filename, currentSize := 0, currentTime := now },
        dir.create filename now, none⟩

/-- The loop of `cleanupOldFiles`; with a negative `maxFiles` it runs out of files. -/
def cleanupLoop (maxFiles : Int) : List WalFileInfo → Option (Nat × String) → Dir → Dir × Option Failure
  | [], _, dir => (dir, if 0 > maxFiles then some (.panic "index out of range") else none)
  | oldest :: files, fault, dir =>
    if (oldest :: files).length > maxFiles then
      match fault with
      | some (0, err) => (dir, some (.error err))
      | some (n + 1, err) => cleanupLoop maxFiles files (some (n, err)) (dir.remove oldest.name)
      | none => cleanupLoop maxFiles files none (dir.remove oldest.name)
    else (dir, none)

def cleanupOldFiles (w : WALWriter) (dir : Dir) (io : Faults) : Dir × Option Failure :=
  match io.readDir with
  | some err => (dir, some (.error err))
  | none => cleanupLoop w.config.maxFiles (getWALFiles dir.readDir) io.remove dir

def doRollFile (w : WALWriter) (dir : Dir) (io : Faults) (now : Time) : Outcome :=
  if w.fileOpen = false then ⟨w, dir, some (.error ("close " ++ w.currentName ++ ": file already closed"))⟩
  else
    match io.close with
    | some err => ⟨{ w with fileOpen := false }, dir, some (.error err)⟩
    | none =>
      let o := openCurrentFile { w with fileOpen := false, currentIndex := w.currentIndex + 1 } dir io now
      match o.err with
      | some _ => o
      | none =>
        let c := o.writer.cleanupOldFiles o.dir io
        ⟨o.writer, c.1, c.2⟩

/-- The end of `Write`, after a roll if there was one. -/
def writeRecord (w : WALWriter) (dir : Dir) (io : Faults) (now : Time) (encrypted : Bytes) : Outcome :=
  if w.fileOpen = false then ⟨w, dir, some (.error ("write " ++ w.currentName ++ ": file already closed"))⟩
  else
    match io.write with
    | some (n, err) => ⟨w, dir.append w.currentName (encrypted.take n) now, some (.error err)⟩
    | none =>
      ⟨{ w with currentSize := w.currentSize + encrypted.length }, dir.append w.currentName encrypted now, none⟩

/-- By size or by time. -/
def NeedRoll (w : WALWriter) (now : Time) (encrypted : Bytes) : Prop :=
  w.currentSize + encrypted.length > w.config.maxFileSize ∨ now - w.currentTime > w.config.rollingInterval

instance (w : WALWriter) (now : Time) (encrypted : Bytes) : Decidable (w.NeedRoll now encrypted) :=
  inferInstanceAs (Decidable (_ ∨ _))

/-- `NeedRoll` for the record of a payload, which is 36 bytes longer than the payload. -/
def Rolls (w : WALWriter) (now : Time) (data : Bytes) : Prop :=
  w.currentSize + (data.length + 36 : Nat) > w.config.maxFileSize ∨ now - w.currentTime > w.config.rollingInterval

instance (w : WALWriter) (now : Time) (data : Bytes) : Decidable (w.Rolls now data) :=
  inferInstanceAs (Decidable (_ ∨ _))

/-- `Write`, with the clock when it checks the interval and when it touches the files. -/
def write (w : WALWriter) (aead : Aead) (enc : WALEncryptor) (dir : Dir) (io : Faults) (now later : Time)
    (rand : Except String (BytesN 12)) (data : Bytes) : Outcome :=
  match enc.encrypt aead rand data with
  | .error err => ⟨w, dir, some (.error err)⟩
  | .ok encrypted =>
    let o := if w.NeedRoll now encrypted then w.doRollFile dir io later else ⟨w, dir, none⟩
    match o.err with
    | some _ => o
    | none => o.writer.writeRecord o.dir io later encrypted

def close (w : WALWriter) (io : Faults) : WALWriter × Option Failure :=
  if w.fileOpen = false then (w, some (.error ("close " ++ w.currentName ++ ": file already closed")))
  else ({ w with fileOpen := false }, io.close.map .error)

end WALWriter

/-- `NewWALWriterWithConfig`; the number of the first file it opens is one more than the last one there. -/
def newWALWriterWithConfig (dir : Dir) (config : WALConfig) (io : Faults) (now : Time) :
    Except Failure (WALWriter × Dir) :=
  match io.mkdirAll with
  | some err => .error (.error ("failed to create directory: " ++ err))
  | none =>
    match io.readDir with
    | some err => .error (.error err)
    | none =>
      let currentIndex := match (getWALFiles dir.readDir).getLast? with
        | some last => last.index + 1
        | none => 1
      let w : WALWriter :=
        { config := config, currentName := "", fileOpen := false, currentSize := 0, currentTime := zeroTime,
          currentIndex := currentIndex }
      let o := w.openCurrentFile dir io now
      match o.err with
      | some err => .error err
      | none => .ok (o.writer, o.dir)

/-- The configuration `NewWALWriter` gives: `DefaultMaxFileSize`, `DefaultRollingInterval` and `DefaultMaxFiles`. -/
def defaultWALConfig : WALConfig :=
  { maxFileSize := 100 * 1024 * 1024, rollingInterval := 5 * 60 * 1000000000, maxFiles := 10 }

/-! ### What the operations do to a numbered directory -/

namespace WALWriter

/-- The writer has the newest file `f` open; the files are numbered from `first` on. -/
structure Active (w : WALWriter) (olds : Dir) (f : File) (first : Nat) : Prop where
  fileOpen : w.fileOpen = true
  name : w.currentName = f.name
  index : w.currentIndex = first + olds.length
  numbered : Dir.Numbered (olds ++ [f]) first

variable {w : WALWriter} {dir olds : Dir} {f : File} {first : Nat} {io : Faults}

theorem Active.next_name_ne (h : w.Active olds f first) : walFileName (w.currentIndex + 1) ≠ w.currentName := by
  rw [h.name, (Dir.numbered_concat.1 h.numbered).2, h.index]
  exact fun heq => absurd (walFileName_injective heq) (by omega)

theorem Active.next_index (h : w.Active olds f first) : w.currentIndex + 1 = first + (olds ++ [f]).length := by
  rw [h.index, List.length_append, List.length_singleton]
  omega

/-- The next number is not taken, so a new file is made. -/
theorem openCurrentFile_next (hdir : dir.Numbered first) (hindex : w.currentIndex = first + dir.length)
    (hopen : io.openFile = none) (now : Time) :
    w.openCurrentFile dir io now =
      ⟨{ w with
          fileOpen := true, currentName := walFileName w.currentIndex, currentSize := 0, currentTime := now },
        dir.create (walFileName w.currentIndex) now, none⟩ := by
  have hlookup : dir.lookup (walFileName w.currentIndex) = none := by rw [hindex]; exact hdir.lookup_next
  simp only [openCurrentFile, hopen, hlookup]

/-- The oldest files go, at most as many as there are more than `maxFiles`; without a fault no more than `maxFiles`
are left. -/
theorem cleanupLoop_spec {maxFiles : Int} (hmax : 1 ≤ maxFiles) (hdir : dir.Numbered first)
    (fault : Option (Nat × String)) :
    ∃ j, (cleanupLoop maxFiles (dir.map File.toInfo) fault dir).1 = dir.drop j ∧
      j ≤ dir.length - maxFiles.toNat ∧
      (fault = none → (cleanupLoop maxFiles (dir.map File.toInfo) fault dir).2 = none ∧
        (dir.drop j).length ≤ maxFiles.toNat) := by
  induction dir generalizing first fault with
  | nil => exact ⟨0, rfl, Nat.zero_le _, fun _ => ⟨if_neg (by omega), Nat.zero_le _⟩⟩
  | cons g dir ih =>
    have hremove : Dir.remove (g :: dir) g.toInfo.name = dir := hdir.remove_head
    unfold cleanupLoop
    rw [List.map_cons]
    dsimp only
    rw [hremove]
    split
    · rename_i hmore
      simp only [List.length_cons, List.length_map] at hmore
      -- the file is removed and the loop goes on with the rest, unless the removal fails
      have hnext : ∀ fault', ∃ j, (cleanupLoop maxFiles (dir.map File.toInfo) fault' dir).1 = (g :: dir).drop j ∧
          j ≤ (g :: dir).length - maxFiles.toNat ∧
          (fault' = none → (cleanupLoop maxFiles (dir.map File.toInfo) fault' dir).2 = none ∧
            ((g :: dir).drop j).length ≤ maxFiles.toNat) := by
        intro fault'
        obtain ⟨j, hdrop, hj, hok⟩ := ih (Dir.numbered_cons.1 hdir).2 fault'
        exact ⟨j + 1, hdrop, by rw [List.length_cons]; omega, hok⟩
      split
      · exact ⟨0, rfl, Nat.zero_le _, fun h => by cases h⟩
      · obtain ⟨j, hdrop, hj, _⟩ := hnext (some (_, _))
        exact ⟨j, hdrop, hj, fun h => by cases h⟩
      · exact hnext none
    · rename_i hfew
      simp only [List.length_cons, List.length_map] at hfew
      exact ⟨0, rfl, Nat.zero_le _, fun _ => ⟨rfl, by rw [List.drop_zero, List.length_cons]; omega⟩⟩

theorem cleanupOldFiles_spec (hmax : 1 ≤ w.config.maxFiles) (hdir : dir.Numbered first)
    (hlt : first + dir.length ≤ 10 ^ 6) (io : Faults) :
    ∃ j, (w.cleanupOldFiles dir io).1 = dir.drop j ∧ j ≤ dir.length - w.config.maxFiles.toNat ∧
      (io = .none → (w.cleanupOldFiles dir io).2 = none ∧ (dir.drop j).length ≤ w.config.maxFiles.toNat) := by
  unfold cleanupOldFiles
  cases hread : io.readDir with
  | some err =>
    refine ⟨0, rfl, Nat.zero_le _, fun h => ?_⟩
    rw [h] at hread
    cases hread
  | none =>
    rw [hdir.getWALFiles_readDir hlt]
    obtain ⟨j, hdrop, hj, hok⟩ := cleanupLoop_spec hmax hdir io.remove
    exact ⟨j, hdrop, hj, fun h => hok (by rw [h]; rfl)⟩

/-- A writer that has just made the next file is active in what the cleanup leaves. -/
private theorem cleanupOldFiles_created (h : w.Active olds f first) (hmax : 1 ≤ w.config.maxFiles)
    (hbound : w.currentIndex + 1 < 10 ^ 6) (now : Time) (io : Faults) {w' : WALWriter}
    (hw' : w' = ⟨w.config, walFileName (w.currentIndex + 1), true, 0, now, w.currentIndex + 1⟩) {g : File}
    (hg : g = ⟨walFileName (w.currentIndex + 1), [], now⟩) :
    ∃ j, (w'.cleanupOldFiles (olds ++ [f] ++ [g]) io).1 = (olds ++ [f]).drop j ++ [g] ∧
      j ≤ olds.length + 2 - w.config.maxFiles.toNat ∧ w'.Active ((olds ++ [f]).drop j) g (first + j) ∧
      (io = .none → (w'.cleanupOldFiles (olds ++ [f] ++ [g]) io).2 = none ∧
        ((olds ++ [f]).drop j ++ [g]).length ≤ w.config.maxFiles.toNat) := by
  subst hw' hg
  have hindex := h.next_index
  have hnumbered : Dir.Numbered (olds ++ [f] ++ [⟨walFileName (w.currentIndex + 1), [], now⟩]) first :=
    Dir.numbered_concat.2 ⟨h.numbered, by rw [hindex]⟩
  have hlen : (olds ++ [f] ++ [(⟨walFileName (w.currentIndex + 1), [], now⟩ : File)]).length = olds.length + 2 := by
    simp
  obtain ⟨j, hdrop, hj, hok⟩ := cleanupOldFiles_spec (w := ⟨w.config, walFileName (w.currentIndex + 1), true, 0,
    now, w.currentIndex + 1⟩) hmax hnumbered (by rw [hlen]; have := h.index; omega) io
  rw [hlen] at hj
  dsimp only at hj
  have hj' : j ≤ (olds ++ [f]).length := by
    rw [List.length_append, List.length_singleton]; omega
  have hdir : (olds ++ [f] ++ [(⟨walFileName (w.currentIndex + 1), [], now⟩ : File)]).drop j =
      (olds ++ [f]).drop j ++ [⟨walFileName (w.currentIndex + 1), [], now⟩] := List.drop_append_of_le_length hj'
  rw [hdir] at hok
  refine ⟨j, hdrop.trans hdir, hj, ⟨rfl, rfl, ?_, ?_⟩, hok⟩
  · show w.currentIndex + 1 = first + j + ((olds ++ [f]).drop j).length
    rw [List.length_drop]; omega
  · rw [← hdir]
    exact hnumbered.drop j

/-- A roll stops before it opens a file, or opens the next one and deletes some of the oldest. -/
theorem doRollFile_cases (h : w.Active olds f first) (hmax : 1 ≤ w.config.maxFiles) {now : Time} {o : Outcome}
    (ho : w.doRollFile (olds ++ [f]) io now = o)
    (hlt : o.writer.currentName ≠ w.currentName → w.currentIndex + 1 < 10 ^ 6) :
    (o.err ≠ none ∧ io ≠ .none ∧ o.dir = olds ++ [f] ∧ o.writer.currentName = w.currentName ∧
      o.writer.config = w.config ∧ o.writer.fileOpen = false) ∨
    ∃ j g, g.data = [] ∧ g.name = walFileName (w.currentIndex + 1) ∧
      j ≤ olds.length + 2 - w.config.maxFiles.toNat ∧ o.dir = (olds ++ [f]).drop j ++ [g] ∧
      o.writer.Active ((olds ++ [f]).drop j) g (first + j) ∧ o.writer.config = w.config ∧
      o.writer.currentTime = now ∧ (io = .none → o.err = none ∧ o.dir.length ≤ w.config.maxFiles.toNat) := by
  subst ho
  have hopen : ¬ w.fileOpen = false := by rw [h.fileOpen]; decide
  unfold doRollFile at hlt ⊢
  rw [if_neg hopen] at hlt ⊢
  cases hclose : io.close with
  | some err =>
    left
    refine ⟨by simp, fun hio => ?_, rfl, rfl, rfl, rfl⟩
    rw [hio] at hclose
    cases hclose
  | none =>
    rw [hclose] at hlt
    dsimp only at hlt ⊢
    cases hfile : io.openFile with
    | some err =>
      left
      rw [openCurrentFile, hfile]
      refine ⟨by simp, fun hio => ?_, rfl, rfl, rfl, rfl⟩
      rw [hio] at hfile
      cases hfile
    | none =>
      right
      -- the file that is made
      have hnext := openCurrentFile_next (w := { w with fileOpen := false, currentIndex := w.currentIndex + 1 })
        h.numbered h.next_index hfile now
      rw [hnext] at hlt ⊢
      dsimp only at hlt ⊢
      have hbound := hlt h.next_name_ne
      obtain ⟨j, hdrop, hj, hactive, hok⟩ := cleanupOldFiles_created h hmax hbound now io rfl rfl
      refine ⟨j, _, rfl, rfl, hj, hdrop, hactive, rfl, rfl, fun hio => ⟨(hok hio).1, ?_⟩⟩
      exact (congrArg List.length hdrop).le.trans (hok hio).2

/-- What a `Write` of `data` that returned `err` has left of the record: all of it, or else nothing or a strict
prefix. -/
def Wrote (aead : Aead) (enc : WALEncryptor) (data : Bytes) (err : Option Failure) (bytes : Bytes) : Prop :=
  (err = none ∧ Seals aead enc.currentKey enc.keyVersion data bytes) ∨
  (err ≠ none ∧ (bytes = [] ∨
    ∃ record n, Seals aead enc.currentKey enc.keyVersion data record ∧ n < record.length ∧ bytes = record.take n))

theorem currentName_writeRecord (w : WALWriter) (dir : Dir) (io : Faults) (now : Time) (encrypted : Bytes) :
    (w.writeRecord dir io now encrypted).writer.currentName = w.currentName := by
  unfold writeRecord
  split
  · rfl
  · split <;> rfl

theorem needRoll_iff_rolls {aead : Aead} {key : Bytes} {version : UInt32} {data encrypted : Bytes}
    (hseals : Seals aead key version data encrypted) (now : Time) :
    w.NeedRoll now encrypted ↔ w.Rolls now data := by
  rw [NeedRoll, hseals.length_eq, Rolls]

/-- A `Write` fails to encrypt; or it has a record, rolls if need be, and then writes the record unless the roll
failed. -/
theorem write_steps {aead : Aead} {enc : WALEncryptor} {now later : Time} {rand : Except String (BytesN 12)}
    {data : Bytes} {o : Outcome} (ho : w.write aead enc dir io now later rand data = o) :
    (∃ err, enc.encrypt aead rand data = .error err ∧ o = ⟨w, dir, some (.error err)⟩) ∨
    ∃ encrypted, Seals aead enc.currentKey enc.keyVersion data encrypted ∧
      ∃ r, (¬ w.Rolls now data ∧ r = ⟨w, dir, none⟩ ∨ w.Rolls now data ∧ w.doRollFile dir io later = r) ∧
        (r.err ≠ none ∧ o = r ∨ r.err = none ∧ r.writer.writeRecord r.dir io later encrypted = o) := by
  unfold write at ho
  cases henc : enc.encrypt aead rand data with
  | error err =>
    rw [henc] at ho
    exact .inl ⟨err, rfl, ho.symm⟩
  | ok encrypted =>
    rw [henc] at ho
    dsimp only at ho
    have hseals := Seals.of_encrypt henc
    refine .inr ⟨encrypted, hseals,
      if w.NeedRoll now encrypted then w.doRollFile dir io later else ⟨w, dir, none⟩, ?_, ?_⟩
    · split
      · rename_i hneed
        exact .inr ⟨(needRoll_iff_rolls hseals now).1 hneed, rfl⟩
      · rename_i hneed
        exact .inl ⟨fun h => hneed ((needRoll_iff_rolls hseals now).2 h), rfl⟩
    · split at ho
      · rename_i herr
        exact .inl ⟨by rw [herr]; simp, ho.symm⟩
      · rename_i herr
        exact .inr ⟨herr, ho⟩

/-- The name of the current file is settled by the roll. -/
theorem currentName_of_rolled {r o : Outcome} {now : Time} {encrypted : Bytes}
    (h : r.err ≠ none ∧ o = r ∨ r.err = none ∧ r.writer.writeRecord r.dir io now encrypted = o) :
    o.writer.currentName = r.writer.currentName := by
  rcases h with ⟨_, rfl⟩ | ⟨_, rfl⟩
  · rfl
  · exact currentName_writeRecord ..

/-- The record, or the part of it that is written, goes to the end of the newest file. -/
theorem writeRecord_cases {aead : Aead} {enc : WALEncryptor} {data encrypted : Bytes} (h : w.Active olds f first)
    (hseals : Seals aead enc.currentKey enc.keyVersion data encrypted)
    (hfault : ∀ n err, io.write = some (n, err) → n < data.length + 36) {now : Time} {o : Outcome}
    (ho : w.writeRecord (olds ++ [f]) io now encrypted = o) :
    ∃ bytes g, Wrote aead enc data o.err bytes ∧ g.name = f.name ∧ g.data = f.data ++ bytes ∧
      o.dir = olds ++ [g] ∧ o.writer.Active olds g first ∧ o.writer.config = w.config := by
  have hopen : ¬ w.fileOpen = false := by rw [h.fileOpen]; decide
  obtain ⟨holds, hname⟩ := Dir.numbered_concat.1 h.numbered
  have hnum : ∀ bytes, Dir.Numbered (olds ++ [{ f with data := bytes, modTime := now }]) first :=
    fun bytes => Dir.numbered_concat.2 ⟨holds, hname⟩
  have happend : ∀ bytes, Dir.append (olds ++ [f]) w.currentName bytes now =
      olds ++ [{ f with data := f.data ++ bytes, modTime := now }] :=
    fun bytes => h.name ▸ h.numbered.append_last bytes now
  subst ho
  unfold writeRecord
  rw [if_neg hopen]
  cases hwrite : io.write with
  | none =>
    exact ⟨encrypted, { f with data := f.data ++ encrypted, modTime := now }, .inl ⟨rfl, hseals⟩, rfl, rfl,
      happend encrypted, ⟨h.fileOpen, h.name, h.index, hnum _⟩, rfl⟩
  | some fault =>
    obtain ⟨n, err⟩ := fault
    have hn : n < encrypted.length := by rw [hseals.length_eq]; exact hfault n err hwrite
    exact ⟨encrypted.take n, { f with data := f.data ++ encrypted.take n, modTime := now },
      .inr ⟨by simp, .inr ⟨encrypted, n, hseals, hn, rfl⟩⟩, rfl, rfl, happend _,
      ⟨h.fileOpen, h.name, h.index, hnum _⟩, rfl⟩

/-- Everything a `Write` can do: what it writes goes to the newest file, or to a new one after some of the oldest
were deleted. -/
theorem write_cases {aead : Aead} {enc : WALEncryptor} (h : w.Active olds f first) (hmax : 1 ≤ w.config.maxFiles)
    {now later : Time} {rand : Except String (BytesN 12)} {data : Bytes}
    (hfault : ∀ n err, io.write = some (n, err) → n < data.length + 36) {o : Outcome}
    (ho : w.write aead enc (olds ++ [f]) io now later rand data = o)
    (hlt : o.writer.currentName ≠ w.currentName → w.currentIndex + 1 < 10 ^ 6) :
    ∃ bytes, Wrote aead enc data o.err bytes ∧ o.writer.config = w.config ∧
      ((o.writer.currentName = w.currentName ∧ ∃ g, g.name = f.name ∧ g.data = f.data ++ bytes ∧
          o.dir = olds ++ [g] ∧ (o.err = none ∨ o.writer.fileOpen = true → o.writer.Active olds g first) ∧
          (w.Rolls now data → bytes = [])) ∨
        (o.writer.currentName ≠ w.currentName ∧ ∃ j g, g.data = bytes ∧
          j ≤ olds.length + 2 - w.config.maxFiles.toNat ∧ o.dir = (olds ++ [f]).drop j ++ [g] ∧
          o.writer.Active ((olds ++ [f]).drop j) g (first + j))) := by
  rcases write_steps ho with ⟨err, _, rfl⟩ | ⟨encrypted, hseals, r, hr, hend⟩
  · exact ⟨[], .inr ⟨by simp, .inl rfl⟩, rfl, .inl ⟨rfl, f, rfl, by simp, rfl, fun _ => h, fun _ => rfl⟩⟩
  have hcurrent := currentName_of_rolled hend
  rcases hr with ⟨hno, rfl⟩ | ⟨_, hr⟩
  · -- no roll
    rcases hend with ⟨herr, _⟩ | ⟨_, hend⟩
    · exact absurd rfl herr
    · obtain ⟨bytes, g, hwrote, hname, hdata, hdir, hactive, hconfig⟩ := writeRecord_cases h hseals hfault hend
      exact ⟨bytes, hwrote, hconfig,
        .inl ⟨hcurrent, g, hname, hdata, hdir, fun _ => hactive, fun hrolls => absurd hrolls hno⟩⟩
  · rw [hcurrent] at hlt ⊢
    rcases doRollFile_cases h hmax hr hlt with
      ⟨herr, _, hdir, hsame, hconfig, hclosed⟩ | ⟨j, g, hdata, hname, hj, hdir, hactive, hconfig, _, _⟩
    · -- the roll stopped before it opened a file
      obtain ⟨_, rfl⟩ := hend.resolve_right fun hnone => herr hnone.1
      refine ⟨[], .inr ⟨herr, .inl rfl⟩, hconfig, .inl ⟨hsame, f, rfl, by simp, hdir, ?_, fun _ => rfl⟩⟩
      rintro (hnil | hopen)
      · exact absurd hnil herr
      · exact absurd (hopen.symm.trans hclosed) (by decide)
    · have hne : r.writer.currentName ≠ w.currentName := by
        rw [hactive.name, hname]
        exact h.next_name_ne
      rcases hend with ⟨herr, rfl⟩ | ⟨_, hend⟩
      · exact ⟨[], .inr ⟨herr, .inl rfl⟩, hconfig, .inr ⟨hne, j, g, hdata, hj, hdir, hactive⟩⟩
      · rw [hdir] at hend
        obtain ⟨bytes, g', hwrote, _, hdata', hdir', hactive', hconfig'⟩ :=
          writeRecord_cases hactive hseals hfault hend
        rw [hdata, List.nil_append] at hdata'
        exact ⟨bytes, hwrote, hconfig'.trans hconfig, .inr ⟨hne, j, g', hdata', hj, hdir', hactive'⟩⟩

/-- A `Write` whose record is not written in full does not return nil. -/
theorem write_err_ne_none (aead : Aead) (enc : WALEncryptor) (w : WALWriter) (dir : Dir) (io : Faults)
    {fault : Nat × String} (hio : io.write = some fault) (now later : Time) (rand : Except String (BytesN 12))
    (data : Bytes) :
    (w.write aead enc dir io now later rand data).err ≠ none := by
  generalize ho : w.write aead enc dir io now later rand data = o
  rcases write_steps ho with ⟨err, _, rfl⟩ | ⟨encrypted, _, r, _, ⟨hroll, rfl⟩ | ⟨_, rfl⟩⟩
  · simp
  · exact hroll
  · rw [writeRecord, hio]
    split <;> simp

/-- A writer whose file is closed writes nothing any more. -/
theorem write_closed (hclosed : w.fileOpen = false) (aead : Aead) (enc : WALEncryptor) (dir : Dir) (io : Faults)
    (now later : Time) (rand : Except String (BytesN 12)) (data : Bytes) :
    ∃ err, w.write aead enc dir io now later rand data = ⟨w, dir, some err⟩ := by
  generalize ho : w.write aead enc dir io now later rand data = o
  rcases write_steps ho with ⟨err, _, rfl⟩ | ⟨encrypted, _, r, hr, hend⟩
  · exact ⟨_, rfl⟩
  rcases hr with ⟨_, rfl⟩ | ⟨_, rfl⟩
  · rcases hend with ⟨herr, _⟩ | ⟨_, rfl⟩
    · exact absurd rfl herr
    · exact ⟨_, if_pos hclosed⟩
  · rw [doRollFile, if_pos hclosed] at hend
    rcases hend with ⟨_, rfl⟩ | ⟨hnone, _⟩
    · exact ⟨_, rfl⟩
    · cases hnone

theorem length_dir_writeRecord (w : WALWriter) (dir : Dir) (io : Faults) (now : Time) (encrypted : Bytes) :
    (w.writeRecord dir io now encrypted).dir.length = dir.length := by
  unfold writeRecord
  split
  · rfl
  · split <;> exact List.length_map _

/-- Without a fault a `Write` returns nil and leaves no more than `maxFiles` files if there were no more before, or
its data could not be encrypted and nothing has changed. -/
theorem write_none_cases {aead : Aead} {enc : WALEncryptor} (h : w.Active olds f first)
    (hmax : 1 ≤ w.config.maxFiles) {now later : Time} {rand : Except String (BytesN 12)} {data : Bytes} {o : Outcome}
    (ho : w.write aead enc (olds ++ [f]) .none now later rand data = o)
    (hlt : o.writer.currentName ≠ w.currentName → w.currentIndex + 1 < 10 ^ 6) :
    (o.err = none ∧ o.dir.length ≤ max (olds ++ [f]).length w.config.maxFiles.toNat) ∨
      ((∃ err, enc.encrypt aead rand data = .error err) ∧ o.writer = w ∧ o.dir = olds ++ [f]) := by
  rcases write_steps ho with ⟨err, henc, rfl⟩ | ⟨encrypted, _, r, hr, hend⟩
  · exact .inr ⟨⟨err, henc⟩, rfl, rfl⟩
  left
  have hcurrent := currentName_of_rolled hend
  have hrolled : r.err = none ∧ r.writer.fileOpen = true ∧
      r.dir.length ≤ max (olds ++ [f]).length w.config.maxFiles.toNat := by
    rcases hr with ⟨_, rfl⟩ | ⟨_, hr⟩
    · exact ⟨rfl, h.fileOpen, Nat.le_max_left ..⟩
    · rw [hcurrent] at hlt
      rcases doRollFile_cases h hmax hr hlt with ⟨_, hio, _⟩ | ⟨j, g, _, _, _, _, hactive, _, _, hok⟩
      · exact absurd rfl hio
      · exact ⟨(hok rfl).1, hactive.fileOpen, (hok rfl).2.trans (Nat.le_max_right ..)⟩
  obtain ⟨_, rfl⟩ := hend.resolve_left fun herr => herr.1 hrolled.1
  refine ⟨?_, by rw [length_dir_writeRecord]; exact hrolled.2.2⟩
  rw [writeRecord, if_neg (by rw [hrolled.2.1]; decide)]
  rfl

/-- A record that needs no roll stays in the file. -/
theorem currentName_write_of_not_rolls {aead : Aead} {enc : WALEncryptor} {now : Time} {data : Bytes}
    (h : ¬ w.Rolls now data) (dir : Dir) (io : Faults) (later : Time) (rand : Except String (BytesN 12)) :
    (w.write aead enc dir io now later rand data).writer.currentName = w.currentName := by
  generalize ho : w.write aead enc dir io now later rand data = o
  rcases write_steps ho with ⟨err, _, rfl⟩ | ⟨encrypted, _, r, hr, hend⟩
  · rfl
  · rw [currentName_of_rolled hend]
    rcases hr with ⟨_, rfl⟩ | ⟨hrolls, _⟩
    · rfl
    · exact absurd hrolls h

theorem currentTime_writeRecord (w : WALWriter) (dir : Dir) (io : Faults) (now : Time) (encrypted : Bytes) :
    (w.writeRecord dir io now encrypted).writer.currentTime = w.currentTime := by
  unfold writeRecord
  split
  · rfl
  · split <;> rfl

/-- A record that needs a roll goes to a new file, and no more than `maxFiles` files are left. -/
theorem write_rolls {aead : Aead} {enc : WALEncryptor} (h : w.Active olds f first) (hmax : 1 ≤ w.config.maxFiles)
    (hbound : w.currentIndex + 1 < 10 ^ 6) {now later : Time} {rand : Except String (BytesN 12)} {data : Bytes}
    {o : Outcome} (ho : w.write aead enc (olds ++ [f]) .none now later rand data = o) (hok : o.err = none)
    (hrolls : w.Rolls now data) :
    o.writer.currentName ≠ w.currentName ∧ o.writer.currentTime = later ∧
      o.dir.length ≤ w.config.maxFiles.toNat := by
  rcases write_steps ho with ⟨err, _, rfl⟩ | ⟨encrypted, _, r, hr, hend⟩
  · cases hok
  have hcurrent := currentName_of_rolled hend
  obtain ⟨_, hr⟩ := hr.resolve_left fun hno => hno.1 hrolls
  rcases doRollFile_cases h hmax hr (fun _ => hbound) with
    ⟨_, hio, _⟩ | ⟨j, g, _, hname, _, _, hactive, _, htime, hnone⟩
  · exact absurd rfl hio
  obtain ⟨hnil, hlen⟩ := hnone rfl
  obtain ⟨_, rfl⟩ := hend.resolve_left fun herr => herr.1 hnil
  refine ⟨?_, (currentTime_writeRecord ..).trans htime, by rw [length_dir_writeRecord]; exact hlen⟩
  rw [hcurrent, hactive.name, hname]
  exact h.next_name_ne

/-- The file is closed, whatever `Close` returned. -/
theorem close_fst (w : WALWriter) (io : Faults) :
    (w.close io).1.fileOpen = false ∧ (w.close io).1.config = w.config := by
  unfold close
  split
  · rename_i hopen
    exact ⟨hopen, rfl⟩
  · exact ⟨rfl, rfl⟩

end WALWriter

/-- A new writer opens a new file with the next number. -/
theorem newWALWriterWithConfig_eq {dir : Dir} {first : Nat} (hdir : dir.Numbered first)
    (hlt : first + dir.length ≤ 10 ^ 6) (hempty : dir = [] → first = 1) (config : WALConfig) (now : Time) :
    ∃ w g, newWALWriterWithConfig dir config .none now = .ok (w, dir ++ [g]) ∧ g.data = [] ∧
      w.currentSize = 0 ∧ w.Active dir g first ∧ w.config = config := by
  have hindex : (match ((dir.map File.toInfo).getLast?) with
      | some last => last.index + 1
      | none => 1) = first + dir.length := by
    rcases List.eq_nil_or_concat dir with rfl | ⟨olds, f, rfl⟩
    · rw [hempty rfl]; rfl
    · have hmap := hdir.map_index hlt
      rw [List.concat_eq_append] at hmap ⊢
      rw [List.map_append, List.map_append, List.length_append, List.length_singleton, List.range'_concat] at hmap
      have hlast := List.append_inj_right' hmap rfl
      simp only [List.map_singleton, List.cons.injEq, and_true] at hlast
      rw [List.map_append, List.map_singleton, List.getLast?_concat]
      dsimp only
      rw [hlast, List.length_append, List.length_singleton, Nat.one_mul, Nat.add_assoc]
  simp only [newWALWriterWithConfig, Faults.none, hdir.getWALFiles_readDir hlt, hindex]
  rw [WALWriter.openCurrentFile_next hdir rfl rfl]
  refine ⟨_, _, rfl, rfl, rfl, ⟨rfl, rfl, rfl, ?_⟩, rfl⟩
  exact Dir.numbered_concat.2 ⟨hdir, rfl⟩

end DistributedBloomFilter
