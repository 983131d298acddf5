import Mathlib.Data.List.Basic
import Mathlib.Logic.Function.Basic
import Mathlib.Tactic.Common

/-!
# Files behind names

Names are links to numbered files, and an open file is its number: it stays the same file when the name is moved or
taken away.  No file has two names, and new files get new numbers; both are part of a file system, so that every
operation keeps them.
-/

/-- The files that the names are links to, and what is in them. -/
structure FileSystem (ν α : Type) where
  links : ν → Option Nat
  data : Nat → List α
  next : Nat
  injective : ∀ {a b i}, links a = some i → links b = some i → a = b
  below : ∀ {a i}, links a = some i → i < next

namespace FileSystem

variable {ν α : Type}

/-- No files. -/
def empty : FileSystem ν α where
  links _ := none
  data _ := []
  next := 0
  injective h := by cases h
  below h := by cases h

/-! ### What is in a file -/

section Data

variable (fs : FileSystem ν α)

def read (name : ν) : Option (List α) := (fs.links name).map fs.data

def setData (i : Nat) (bytes : List α) : FileSystem ν α := { fs with data := Function.update fs.data i bytes }

/-- Writes to an open file at an offset that is not behind its end; what was there is replaced. -/
def writeAt (i offset : Nat) (bytes : List α) : FileSystem ν α :=
  fs.setData i ((fs.data i).take offset ++ bytes ++ (fs.data i).drop (offset + bytes.length))

/-- Writes at the end of an open file. -/
def append (i : Nat) (bytes : List α) : FileSystem ν α := fs.setData i (fs.data i ++ bytes)

/-- Takes all the chosen names away. -/
def removeWhere (chosen : ν → Bool) : FileSystem ν α where
  links name := if chosen name then none else fs.links name
  data := fs.data
  next := fs.next
  injective := by
    intro a b i ha hb
    split at ha
    · cases ha
    · split at hb
      · cases hb
      · exact fs.injective ha hb
  below := by
    intro a i ha
    split at ha
    · cases ha
    · exact fs.below ha

variable {fs} {name other : ν} {i : Nat}

theorem links_removeWhere {chosen : ν → Bool} :
    (fs.removeWhere chosen).links name = some i ↔ chosen name = false ∧ fs.links name = some i := by
  unfold removeWhere
  cases h : chosen name <;> simp [h]

theorem read_of_links (h : fs.links name = some i) : fs.read name = some (fs.data i) := by
  rw [read, h]
  rfl

/-- A change of a file is not seen under other names. -/
theorem read_setData_of_ne (h : fs.links name = some i) (hne : other ≠ name) (bytes : List α) :
    (fs.setData i bytes).read other = fs.read other := by
  unfold read setData
  cases hother : fs.links other with
  | none => rfl
  | some j =>
    have hj : j ≠ i := by
      rintro rfl
      exact hne (fs.injective hother h)
    simp only [Option.map_some, Function.update_of_ne hj]

theorem read_writeAt_of_ne (h : fs.links name = some i) (hne : other ≠ name) (offset : Nat) (bytes : List α) :
    (fs.writeAt i offset bytes).read other = fs.read other := read_setData_of_ne h hne _

/-- Bytes at the end of a file come after those that are there. -/
theorem data_writeAt_length (fs : FileSystem ν α) (i : Nat) (bytes : List α) :
    (fs.writeAt i (fs.data i).length bytes).data i = fs.data i ++ bytes := by
  unfold writeAt setData
  dsimp only
  rw [Function.update_self, List.take_length, List.drop_eq_nil_of_le (Nat.le_add_right ..), List.append_nil]

end Data

/-! ### Names -/

variable [DecidableEq ν]

section Names

variable (fs : FileSystem ν α)

/-- A new, empty file under a name. -/
def create (name : ν) : FileSystem ν α where
  links := Function.update fs.links name (some fs.next)
  data := Function.update fs.data fs.next []
  next := fs.next + 1
  injective := by
    intro a b i ha hb
    simp only [Function.update_apply] at ha hb
    split at ha <;> split at hb
    · rename_i ha' hb'
      rw [ha', hb']
    · obtain rfl := Option.some.inj ha
      exact absurd (fs.below hb) (Nat.lt_irrefl _)
    · obtain rfl := Option.some.inj hb
      exact absurd (fs.below ha) (Nat.lt_irrefl _)
    · exact fs.injective ha hb
  below := by
    intro a i ha
    rw [Function.update_apply] at ha
    split at ha
    · obtain rfl := Option.some.inj ha
      exact Nat.lt_succ_self _
    · exact Nat.lt_succ_of_lt (fs.below ha)

/-- Opens a file for writing: it is made if it is not there, and emptied if it is. -/
def openTrunc (name : ν) : FileSystem ν α × Nat :=
  match fs.links name with
  | none => (fs.create name, fs.next)
  | some i => (fs.setData i [], i)

/-- Opens a file for appending: it is made if it is not there. -/
def openAppend (name : ν) : FileSystem ν α × Nat :=
  match fs.links name with
  | none => (fs.create name, fs.next)
  | some i => (fs, i)

/-- Takes a name away; there need not be a file of that name. -/
def remove (name : ν) : FileSystem ν α where
  links := Function.update fs.links name none
  data := fs.data
  next := fs.next
  injective := by
    intro a b i ha hb
    simp only [Function.update_apply] at ha hb
    split at ha <;> split at hb
    · cases ha
    · cases ha
    · cases hb
    · exact fs.injective ha hb
  below := by
    intro a i ha
    rw [Function.update_apply] at ha
    split at ha
    · cases ha
    · exact fs.below ha

variable {fs} in
/-- A file whose name is taken away has no other. -/
theorem links_remove_ne {name : ν} {i : Nat} (h : fs.links name = some i) (other : ν) :
    (fs.remove name).links other ≠ some i := by
  intro hother
  simp only [remove, Function.update_apply] at hother
  split at hother
  · cases hother
  · rename_i hne
    exact hne (fs.injective hother h)

/-- Gives a name to a file that has none, in place of the file that had it. -/
def link (name : ν) (i : Nat) (hfree : ∀ other, fs.links other ≠ some i) (hi : i < fs.next) : FileSystem ν α where
  links := Function.update fs.links name (some i)
  data := fs.data
  next := fs.next
  injective := by
    intro a b j ha hb
    simp only [Function.update_apply] at ha hb
    split at ha <;> split at hb
    · rename_i ha' hb'
      rw [ha', hb']
    · obtain rfl := Option.some.inj ha
      exact absurd hb (hfree b)
    · obtain rfl := Option.some.inj hb
      exact absurd ha (hfree a)
    · exact fs.injective ha hb
  below := by
    intro a j ha
    rw [Function.update_apply] at ha
    split at ha
    · obtain rfl := Option.some.inj ha
      exact hi
    · exact fs.below ha

/-- Moves a file to another name; `none` if there is no such file. -/
def rename (oldName newName : ν) : Option (FileSystem ν α) :=
  match h : fs.links oldName with
  | none => none
  | some i => some ((fs.remove oldName).link newName i (links_remove_ne h) (fs.below h))

end Names

variable {fs : FileSystem ν α} {name other : ν}

/-- The file that is opened is empty and has the name. -/
theorem openTrunc_spec (fs : FileSystem ν α) (name : ν) :
    (fs.openTrunc name).1.links name = some (fs.openTrunc name).2 ∧
      (fs.openTrunc name).1.data (fs.openTrunc name).2 = [] := by
  unfold openTrunc
  split
  · exact ⟨Function.update_self .., Function.update_self ..⟩
  · rename_i h
    exact ⟨h, Function.update_self ..⟩

theorem read_openTrunc_of_ne (hne : other ≠ name) : (fs.openTrunc name).1.read other = fs.read other := by
  unfold openTrunc
  split
  · unfold read create
    dsimp only
    rw [Function.update_of_ne hne]
    cases hother : fs.links other with
    | none => rfl
    | some j => simp only [Option.map_some, Function.update_of_ne (Nat.ne_of_lt (fs.below hother))]
  · rename_i h
    exact read_setData_of_ne h hne []

theorem read_remove_of_ne (hne : other ≠ name) : (fs.remove name).read other = fs.read other := by
  unfold read remove
  dsimp only
  rw [Function.update_of_ne hne]

/-- The file that is opened has the name, and nothing else has changed. -/
theorem openAppend_spec (fs : FileSystem ν α) (name : ν) :
    (fs.openAppend name).1.links = Function.update fs.links name (some (fs.openAppend name).2) ∧
      (∀ i < fs.next, (fs.openAppend name).1.data i = fs.data i) ∧
      ((fs.links name = some (fs.openAppend name).2 ∧ (fs.openAppend name).1.next = fs.next) ∨
        (fs.links name = none ∧ (fs.openAppend name).2 = fs.next ∧ (fs.openAppend name).1.next = fs.next + 1 ∧
          (fs.openAppend name).1.data fs.next = [])) := by
  unfold openAppend
  split
  · rename_i h
    refine ⟨rfl, fun i hi => ?_, .inr ⟨h, rfl, rfl, ?_⟩⟩
    · exact Function.update_of_ne (Nat.ne_of_lt hi) ..
    · exact Function.update_self ..
  · rename_i h
    refine ⟨?_, fun i _ => rfl, .inl ⟨h, rfl⟩⟩
    rw [← h, Function.update_eq_self]

theorem read_openAppend (fs : FileSystem ν α) (name : ν) :
    (fs.openAppend name).1.read = Function.update fs.read name (some ((fs.read name).getD [])) := by
  unfold openAppend
  split
  · rename_i h
    funext other
    by_cases hother : other = name
    · subst hother
      simp [read, create, h]
    · rw [Function.update_of_ne hother]
      unfold read create
      dsimp only
      rw [Function.update_of_ne hother]
      cases hlink : fs.links other with
      | none => rfl
      | some j => simp only [Option.map_some, Function.update_of_ne (Nat.ne_of_lt (fs.below hlink))]
  · rename_i i h
    rw [read_of_links h, Option.getD_some, ← read_of_links h, Function.update_eq_self]

/-- What is appended to a file is seen under its name alone. -/
theorem read_append {i : Nat} (h : fs.links name = some i) (bytes : List α) :
    (fs.append i bytes).read = Function.update fs.read name (some (fs.data i ++ bytes)) := by
  funext other
  by_cases hother : other = name
  · subst hother
    rw [Function.update_self]
    have hlink : (fs.append i bytes).links other = some i := h
    rw [read_of_links hlink]
    exact congrArg some (Function.update_self ..)
  · rw [Function.update_of_ne hother]
    exact read_setData_of_ne h hother _

/-- A file that is there is moved. -/
theorem rename_spec {i : Nat} (h : fs.links name = some i) (other : ν) :
    ∃ fs', fs.rename name other = some fs' ∧
      fs'.links = Function.update (Function.update fs.links name none) other (some i) ∧ fs'.data = fs.data ∧
      fs'.next = fs.next := by
  unfold rename
  split
  · rename_i hnone
    rw [h] at hnone
    cases hnone
  · rename_i j hj
    obtain rfl := Option.some.inj (h.symm.trans hj)
    exact ⟨_, rfl, rfl, rfl, rfl⟩

theorem read_rename_eq {fs' : FileSystem ν α} (h : fs.rename name other = some fs') :
    fs'.read = Function.update (Function.update fs.read name none) other (fs.read name) := by
  unfold rename at h
  split at h
  · cases h
  · rename_i i hi
    obtain rfl := Option.some.inj h
    funext file
    unfold read link remove
    dsimp only
    simp only [Function.update_apply]
    by_cases hother : file = other
    · rw [if_pos hother, if_pos hother, hi]
    · rw [if_neg hother, if_neg hother]
      by_cases hname : file = name
      · rw [if_pos hname, if_pos hname]
        rfl
      · rw [if_neg hname, if_neg hname]

theorem rename_eq_none (h : fs.links name = none) (other : ν) : fs.rename name other = none := by
  unfold rename
  split
  · rfl
  · rename_i j hj
    rw [h] at hj
    cases hj

/-- The file is found under its new name. -/
theorem read_rename {fs' : FileSystem ν α} (h : fs.rename name other = some fs') : fs'.read other = fs.read name := by
  unfold rename at h
  split at h
  · cases h
  · rename_i i hi
    obtain rfl := Option.some.inj h
    unfold read link
    dsimp only
    rw [Function.update_self, hi]
    rfl

end FileSystem
