import DistributedBloomFilter.Wal.Reader
import DistributedBloomFilter.Wal.Writer

/-!
# The lists of log files

The writer lists the files to number the next one and to remove the oldest ones, the reader to read them in order,
each with a `getWALFiles` of its own.  Both return the files that `os.ReadDir` listed, sorted by their numbers, and
where no two files have one number they agree, in whatever order the directory was read (`sorted_getWALFiles`).
-/

namespace DistributedBloomFilter

/-- Both functions, with the answer of `os.ReadDir`. -/
def listWALFiles : Except String (List DirEntry) → Except Failure (List WalFileInfo)
  | .error err => .error (.error err)
  | .ok entries => .ok (getWALFiles entries)

def WALWriter.getWALFiles (answer : Except String (List DirEntry)) : Except Failure (List WalFileInfo) :=
  listWALFiles answer

def WALReader.getWALFiles (answer : Except String (List DirEntry)) : Except Failure (List WalFileInfo) :=
  listWALFiles answer

/-- The log files among the entries, ordered by their numbers. -/
structure SortedListing (entries : List DirEntry) (files : List WalFileInfo) : Prop where
  perm : files.Perm (entries.filterMap walFileInfo)
  sorted : files.Pairwise fun f g => f.index ≤ g.index

/-- No two log files among the entries have one number. -/
def DistinctNumbers (entries : List DirEntry) : Prop :=
  ((entries.filterMap walFileInfo).map WalFileInfo.index).Nodup

instance (entries : List DirEntry) : Decidable (DistinctNumbers entries) :=
  inferInstanceAs (Decidable (List.Nodup _))

theorem sortedListing_getWALFiles (entries : List DirEntry) : SortedListing entries (getWALFiles entries) where
  perm := ExchangeSort.perm_sort WalFileInfo.index _
  sorted := ExchangeSort.pairwise_sort WalFileInfo.index _

theorem getWALFiles_of_perm {entries entries' : List DirEntry} (h : entries.Perm entries')
    (hnumbers : DistinctNumbers entries') : getWALFiles entries = getWALFiles entries' :=
  ExchangeSort.sort_eq_sort_of_perm WalFileInfo.index (h.filterMap walFileInfo) hnumbers

/-- The writer and the reader return sorted listings of whatever entries there are, and the same one of the same
entries in any two orders, if the numbers are different. -/
theorem sorted_getWALFiles (entries : List DirEntry) :
    (∃ files, WALWriter.getWALFiles (.ok entries) = .ok files ∧ SortedListing entries files) ∧
    (∃ files, WALReader.getWALFiles (.ok entries) = .ok files ∧ SortedListing entries files) ∧
    ∀ entries', entries'.Perm entries → DistinctNumbers entries →
      WALWriter.getWALFiles (.ok entries') = WALReader.getWALFiles (.ok entries) ∧
      WALWriter.getWALFiles (.ok entries) = WALReader.getWALFiles (.ok entries') := by
  refine ⟨⟨_, rfl, sortedListing_getWALFiles entries⟩, ⟨_, rfl, sortedListing_getWALFiles entries⟩, ?_⟩
  intro entries' hperm hnumbers
  have heq : listWALFiles (.ok entries') = listWALFiles (.ok entries) :=
    congrArg Except.ok (getWALFiles_of_perm hperm hnumbers)
  exact ⟨heq, heq.symm⟩

/-- Two files, listed in the order of their names and the other way round. -/
theorem sorted_getWALFiles_two :
    let first : DirEntry := ⟨walFileName 1, false, some (0, 36)⟩
    let second : DirEntry := ⟨walFileName 2, false, some (0, 40)⟩
    WALWriter.getWALFiles (.ok [second, first]) = WALReader.getWALFiles (.ok [first, second]) := by
  intro first second
  exact ((sorted_getWALFiles [first, second]).2.2 [second, first] (List.Perm.swap ..) (by decide +kernel)).1

end DistributedBloomFilter
