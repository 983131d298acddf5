import DistributedBloomFilter.Basic
import DistributedBloomFilter.Lib.Decimal
import DistributedBloomFilter.Lib.ExchangeSort
import Mathlib.Data.List.Sort

/-!
# The directory of the write-ahead log

The files of the log are numbered in their names.  A name is printed with `%06d` and read back with `%06d`: the first
pads to at least six digits, the second reads at most six characters, so that the number comes back below a million
(`scanIndex_walFileName`).  `getWALFiles` sorts by the number; where the numbers count up without gaps, its result is
the directory in the order in which the files were made.
-/

namespace DistributedBloomFilter

def FileExtension : String := ".wal.enc"

/-! ### Names -/

/-- `fmt.Sprintf("%06d%s", index, FileExtension)`. -/
def walFileName (index : Nat) : String := String.ofList (Decimal.pad 6 index) ++ FileExtension

/-- `fmt.Sscanf(name, "%06d", &index)`: at most six digits after the blanks; without one the index stays `0`. -/
def scanIndex (name : String) : Nat :=
  Nat.ofDigitChars 10 (((name.toList.dropWhile Decimal.isSpace).take 6).takeWhile Char.isDigit) 0

theorem toList_walFileName (n : Nat) : (walFileName n).toList = Decimal.pad 6 n ++ FileExtension.toList := by
  rw [walFileName, String.toList_append, String.toList_ofList]

/-- Below a million the number of a file is read back from its name. -/
theorem scanIndex_walFileName {n : Nat} (hn : n < 10 ^ 6) : scanIndex (walFileName n) = n := by
  have hlen := Decimal.length_pad (by decide) hn
  have hdigit := Decimal.isDigit_pad 6 n
  have hval := Decimal.ofDigitChars_pad 6 n
  rw [scanIndex, toList_walFileName]
  generalize Decimal.pad 6 n = digits at hlen hdigit hval ⊢
  obtain ⟨c, rest, rfl⟩ := List.exists_of_length_succ digits hlen
  have hspace : Decimal.isSpace c = false := Decimal.isSpace_of_isDigit (hdigit c (List.mem_cons_self ..))
  rw [List.cons_append, List.dropWhile_cons_of_neg (by simp [hspace]), ← List.cons_append, ← hlen, List.take_left,
    List.takeWhile_eq_self_iff.2 hdigit, hval]

theorem walFileName_injective : Function.Injective walFileName := by
  intro a b h
  have hlist := congrArg String.toList h
  rw [toList_walFileName, toList_walFileName] at hlist
  rw [← Decimal.ofDigitChars_pad 6 a, List.append_cancel_right hlist, Decimal.ofDigitChars_pad]

/-! ### The directory -/

structure File where
  name : String
  data : Bytes
  modTime : Time
deriving DecidableEq, Repr

/-- The files of the base directory, in the order in which they were made. -/
abbrev Dir := List File

/-- An entry of a directory listing; `info` is `none` when the file has gone since. -/
structure DirEntry where
  name : String
  isDir : Bool
  info : Option (Time × Nat)
deriving DecidableEq, Repr

structure WalFileInfo where
  name : String
  index : Nat
  modTime : Time
  size : Nat
deriving DecidableEq, Repr

def File.toEntry (f : File) : DirEntry := { name := f.name, isDir := false, info := some (f.modTime, f.data.length) }

def File.toInfo (f : File) : WalFileInfo :=
  { name := f.name, index := scanIndex f.name, modTime := f.modTime, size := f.data.length }

/-- What `getWALFiles` makes of an entry. -/
def walFileInfo (entry : DirEntry) : Option WalFileInfo :=
  if entry.isDir then none
  else if FileExtension.toList <:+ entry.name.toList then
    entry.info.map fun info =>
      { name := entry.name, index := scanIndex entry.name, modTime := info.1, size := info.2 }
  else none

/-- `getWALFiles` of the writer and of the reader, which are the same, on the entries `os.ReadDir` returned. -/
def getWALFiles (entries : List DirEntry) : List WalFileInfo :=
  ExchangeSort.sort WalFileInfo.index (entries.filterMap walFileInfo)

namespace Dir

/-- `os.ReadDir` sorts by name. -/
def readDir (dir : Dir) : List DirEntry := (dir.insertionSort fun a b => ¬ b.name < a.name).map File.toEntry

def lookup (dir : Dir) (name : String) : Option File := dir.find? fun f => f.name = name

def create (dir : Dir) (name : String) (now : Time) : Dir := dir ++ [{ name := name, data := [], modTime := now }]

/-- A write at the end of a file; the data of a file without a name is lost. -/
def append (dir : Dir) (name : String) (bytes : Bytes) (now : Time) : Dir :=
  dir.map fun f => if f.name = name then { f with data := f.data ++ bytes, modTime := now } else f

def remove (dir : Dir) (name : String) : Dir := dir.filter fun f => f.name ≠ name

/-- The files are numbered from `first` on, without gaps. -/
def Numbered (dir : Dir) (first : Nat) : Prop :=
  dir.map File.name = (List.range' first dir.length).map walFileName

/-! ### A numbered directory -/

variable {dir : Dir} {first : Nat}

theorem numbered_nil (first : Nat) : Numbered [] first := rfl

theorem numbered_cons {f : File} :
    Numbered (f :: dir) first ↔ f.name = walFileName first ∧ Numbered dir (first + 1) := by
  unfold Numbered
  rw [List.length_cons, List.range'_succ, List.map_cons, List.map_cons, List.cons.injEq]

theorem numbered_concat {f : File} :
    Numbered (dir ++ [f]) first ↔ Numbered dir first ∧ f.name = walFileName (first + dir.length) := by
  induction dir generalizing first with
  | nil => simp [numbered_cons, numbered_nil]
  | cons g dir ih =>
    rw [List.cons_append, numbered_cons, ih, numbered_cons, List.length_cons, and_assoc, Nat.add_assoc,
      Nat.add_comm 1]

/-- Writing to a file does not change the names. -/
theorem Numbered.append (h : dir.Numbered first) (name : String) (bytes : Bytes) (now : Time) :
    (dir.append name bytes now).Numbered first := by
  have hname : ∀ f : File, (if f.name = name then { f with data := f.data ++ bytes, modTime := now } else f).name =
      f.name := by
    intro f
    split <;> rfl
  unfold Numbered at h ⊢
  rw [Dir.append, List.length_map, ← h, List.map_map]
  exact List.map_congr_left fun f _ => hname f

theorem Numbered.drop (h : dir.Numbered first) (n : Nat) : Numbered (dir.drop n) (first + n) := by
  induction n generalizing dir first with
  | zero => exact h
  | succ n ih =>
    cases dir with
    | nil => exact numbered_nil _
    | cons f dir =>
      have := ih (numbered_cons.1 h).2
      rwa [Nat.add_assoc, Nat.add_comm 1] at this

theorem Numbered.exists_name (h : dir.Numbered first) {f : File} (hf : f ∈ dir) :
    ∃ n, f.name = walFileName n ∧ first ≤ n ∧ n < first + dir.length := by
  have hmem : f.name ∈ dir.map File.name := List.mem_map_of_mem hf
  rw [h, List.mem_map] at hmem
  obtain ⟨n, hn, hname⟩ := hmem
  rw [List.mem_range'_1] at hn
  exact ⟨n, hname.symm, hn⟩

theorem Numbered.name_ne (h : dir.Numbered first) {n : Nat} (hn : n < first ∨ first + dir.length ≤ n) {f : File}
    (hf : f ∈ dir) : f.name ≠ walFileName n := by
  obtain ⟨i, hname, hi⟩ := h.exists_name hf
  rw [hname]
  intro heq
  have := walFileName_injective heq
  omega

theorem Numbered.lookup_next (h : dir.Numbered first) : dir.lookup (walFileName (first + dir.length)) = none := by
  refine List.find?_eq_none.2 fun f hf => ?_
  simpa using h.name_ne (.inr (Nat.le_refl _)) hf

theorem Numbered.remove_head {f : File} (h : Numbered (f :: dir) first) : Dir.remove (f :: dir) f.name = dir := by
  obtain ⟨hname, hdir⟩ := numbered_cons.1 h
  rw [Dir.remove, List.filter_cons_of_neg (by simp)]
  refine List.filter_eq_self.2 fun g hg => ?_
  rw [hname]
  simpa using hdir.name_ne (.inl (Nat.lt_succ_self _)) hg

/-- Writing to the newest file. -/
theorem Numbered.append_last {f : File} (h : Numbered (dir ++ [f]) first) (bytes : Bytes) (now : Time) :
    Dir.append (dir ++ [f]) f.name bytes now = dir ++ [{ f with data := f.data ++ bytes, modTime := now }] := by
  obtain ⟨hdir, hname⟩ := numbered_concat.1 h
  have hold : Dir.append dir f.name bytes now = dir := by
    refine (List.map_congr_left fun g hg => ?_).trans (List.map_id dir)
    rw [if_neg (hname ▸ hdir.name_ne (.inr (Nat.le_refl _)) hg), id]
  unfold Dir.append at hold ⊢
  rw [List.map_append, hold, List.map_singleton, if_pos rfl]

theorem walFileInfo_toEntry {f : File} {n : Nat} (h : f.name = walFileName n) :
    walFileInfo f.toEntry = some f.toInfo := by
  have hsuffix : FileExtension.toList <:+ f.toEntry.name.toList := by
    rw [show f.toEntry.name = walFileName n from h, toList_walFileName]
    exact List.suffix_append ..
  rw [walFileInfo, if_neg (by simp [File.toEntry]), if_pos hsuffix]
  rfl

theorem Numbered.map_index (h : dir.Numbered first) (hlt : first + dir.length ≤ 10 ^ 6) :
    (dir.map File.toInfo).map WalFileInfo.index = List.range' first dir.length := by
  have hscan : (dir.map File.toInfo).map WalFileInfo.index = (dir.map File.name).map scanIndex := by
    simp only [List.map_map, Function.comp_def, File.toInfo]
  have hrange : ∀ n ∈ List.range' first dir.length, scanIndex (walFileName n) = n := by
    intro n hn
    rw [List.mem_range'_1] at hn
    exact scanIndex_walFileName (by omega)
  rw [hscan, h, List.map_map, Function.comp_def, List.map_congr_left hrange, List.map_id']

/-- A directory of log files is listed as it is, but for the order. -/
theorem perm_filterMap_readDir (h : ∀ f ∈ dir, ∃ n, f.name = walFileName n) :
    (dir.readDir.filterMap walFileInfo).Perm (dir.map File.toInfo) := by
  have hperm : (dir.insertionSort fun a b => ¬ b.name < a.name).Perm dir := List.perm_insertionSort _ dir
  rw [readDir, List.filterMap_map]
  refine (hperm.filterMap _).trans (List.Perm.of_eq ?_)
  rw [← List.filterMap_eq_map]
  refine List.filterMap_congr fun f hf => ?_
  obtain ⟨n, hname⟩ := h f hf
  exact walFileInfo_toEntry hname

/-- The files of a numbered directory are listed in the order of their numbers. -/
theorem Numbered.getWALFiles_readDir (h : dir.Numbered first) (hlt : first + dir.length ≤ 10 ^ 6) :
    getWALFiles dir.readDir = dir.map File.toInfo := by
  refine ExchangeSort.sort_eq_of_perm WalFileInfo.index (perm_filterMap_readDir fun f hf => ?_) ?_
  · obtain ⟨n, hname, _⟩ := h.exists_name hf
    exact ⟨n, hname⟩
  · rw [← List.pairwise_map (f := WalFileInfo.index), h.map_index hlt]
    exact List.pairwise_lt_range' ..

end Dir

end DistributedBloomFilter
