import DistributedBloomFilter.Wal.Encryptor
import DistributedBloomFilter.Wal.Files
import Mathlib.Data.List.Forall2

/-!
# The reader of the log

`WALReader` of `internal/wal/encryptor.go`.  A file is cut into records by their length fields; the reader stops at
the first one that is not complete or does not decrypt.  So a file that holds readable records, and after them at
most the beginning of one, is read as the payloads of the records (`readLoop_of_holds`).
-/

namespace DistributedBloomFilter

open BigEndian (uint32)

variable (aead : Aead)

/-- The loop of `readFile` on the rest of the file. -/
def readLoop (enc : WALEncryptor) : Nat → Bytes → Except Failure (List Bytes)
  | 0, _ => .ok []
  | fuel + 1, data =>
    if data.length < 4 then .ok []
    else
      let recordLen := 4 + (uint32 data).toNat
      if data.length < recordLen then .ok []
      else
        match enc.decrypt aead (data.take recordLen) with
        | .error (.error _) => .ok []
        | .error (.panic msg) => .error (.panic msg)
        | .ok plaintext =>
          match readLoop enc fuel (data.drop recordLen) with
          | .error err => .error err
          | .ok records => .ok (plaintext :: records)

/-- `readFile`; every round of its loop takes at least four bytes, so there are fewer rounds than bytes. -/
def readFile (enc : WALEncryptor) (dir : Dir) (filename : String) : Except Failure (List Bytes) :=
  match dir.lookup filename with
  | none => .error (.error ("open " ++ filename ++ ": no such file or directory"))
  | some f => readLoop aead enc f.data.length f.data

/-- The loop of `ReadAll` over the files. -/
def readFiles (enc : WALEncryptor) (dir : Dir) : List WalFileInfo → Except Failure (List Bytes)
  | [] => .ok []
  | file :: files =>
    match readFile aead enc dir file.name with
    | .error (.error err) => .error (.error ("failed to read file " ++ file.name ++ ": " ++ err))
    | .error (.panic msg) => .error (.panic msg)
    | .ok data =>
      match readFiles enc dir files with
      | .error err => .error err
      | .ok results => .ok (data ++ results)

def readAll (enc : WALEncryptor) (dir : Dir) : Except Failure (List Bytes) :=
  readFiles aead enc dir (getWALFiles dir.readDir)

/-! ### Files of readable records -/

/-- The record `r` holds the payload `p`, under a key the encryptor has. -/
def Readable (enc : WALEncryptor) (p r : Bytes) : Prop :=
  ∃ key version, Seals aead key version p r ∧ p.length + 32 < 2 ^ 32 ∧ enc.keyCache version = some key

/-- Bytes the reader takes for the beginning of a record. -/
def Torn (rest : Bytes) : Prop := rest.length < 4 + (uint32 rest).toNat

/-- The records of the payloads, and the bytes `rest` after them. -/
def Holds (enc : WALEncryptor) (data : Bytes) (payloads : List Bytes) (rest : Bytes) : Prop :=
  ∃ records, List.Forall₂ (Readable aead enc) payloads records ∧ data = records.flatten ++ rest

variable {aead} {enc : WALEncryptor}

theorem torn_nil : Torn [] := Nat.zero_lt_succ 3

/-- A strict prefix of a record is torn. -/
theorem Seals.torn_take {key : Bytes} {version : UInt32} {p r : Bytes} (h : Seals aead key version p r)
    (hp : p.length + 32 < 2 ^ 32) {n : Nat} (hn : n < r.length) : Torn (r.take n) := by
  unfold Torn
  rw [List.length_take_of_le (Nat.le_of_lt hn)]
  by_cases h4 : 4 ≤ n
  · have hfield := h.toNat_uint32 hp []
    rw [List.append_nil] at hfield
    rw [BigEndian.uint32_take r h4, hfield]
    exact hn
  · omega

theorem Readable.decrypt {p r : Bytes} (h : Readable aead enc p r) : enc.decrypt aead r = .ok p := by
  obtain ⟨key, version, hseals, hlen, hkey⟩ := h
  exact hseals.decrypt hlen hkey

/-- A readable record is cut off the front of the file. -/
theorem Readable.recordLen {p r : Bytes} (h : Readable aead enc p r) (rest : Bytes) :
    4 + (uint32 (r ++ rest)).toNat = r.length := by
  obtain ⟨key, version, hseals, hlen, _⟩ := h
  exact hseals.toNat_uint32 hlen rest

theorem readLoop_torn {rest : Bytes} (h : Torn rest) (fuel : Nat) : readLoop aead enc fuel rest = .ok [] := by
  cases fuel with
  | zero => rfl
  | succ fuel =>
    unfold readLoop
    split
    · rfl
    · exact if_pos h

/-- The reader stops at a record that does not decrypt. -/
theorem readLoop_undecryptable {r rest : Bytes} (hlen : 4 + (uint32 (r ++ rest)).toNat = r.length) {msg : String}
    (herr : enc.decrypt aead r = .error (.error msg)) (fuel : Nat) : readLoop aead enc fuel (r ++ rest) = .ok [] := by
  cases fuel with
  | zero => rfl
  | succ fuel =>
    unfold readLoop
    dsimp only
    rw [hlen, List.take_left, herr]
    split
    · rfl
    · split <;> rfl

theorem readLoop_of_holds {data : Bytes} {payloads : List Bytes} {rest : Bytes}
    (h : Holds aead enc data payloads rest) (hrest : Torn rest) {fuel : Nat} (hfuel : data.length ≤ fuel) :
    readLoop aead enc fuel data = .ok payloads := by
  obtain ⟨records, hrecords, rfl⟩ := h
  induction hrecords generalizing fuel with
  | nil => exact readLoop_torn hrest fuel
  | @cons p r payloads records hpr _ ih =>
    rw [List.flatten_cons, List.append_assoc] at hfuel ⊢
    have hlen := hpr.recordLen (records.flatten ++ rest)
    rw [List.length_append] at hfuel
    cases fuel with
    | zero => omega
    | succ fuel =>
      unfold readLoop
      dsimp only
      rw [hlen, List.take_left, List.drop_left, hpr.decrypt, List.length_append, if_neg (by omega),
        if_neg (by omega), ih (by omega)]

/-! ### The records of a file by their length fields -/

def frames : Nat → Bytes → List Bytes
  | 0, _ => []
  | fuel + 1, data =>
    if data.length < 4 then []
    else
      let recordLen := 4 + (uint32 data).toNat
      if data.length < recordLen then [] else data.take recordLen :: frames fuel (data.drop recordLen)

/-- The complete records of a file, whether they decrypt or not. -/
def fileFrames (data : Bytes) : List Bytes := frames data.length data

theorem length_of_mem_frames {fuel : Nat} {data r : Bytes} (h : r ∈ frames fuel data) :
    r.length = 4 + (uint32 r).toNat := by
  induction fuel generalizing data with
  | zero => cases h
  | succ fuel ih =>
    unfold frames at h
    dsimp only at h
    split_ifs at h with hshort hlen
    · cases h
    · cases h
    · rcases List.mem_cons.1 h with rfl | h
      · rw [BigEndian.uint32_take _ (Nat.le_add_right 4 _), List.length_take_of_le (by omega)]
      · exact ih h

/-- The records of a file that holds the payloads. -/
theorem frames_of_records {payloads records : List Bytes} (h : List.Forall₂ (Readable aead enc) payloads records)
    {rest : Bytes} (hrest : Torn rest) {fuel : Nat} (hfuel : (records.flatten ++ rest).length ≤ fuel) :
    frames fuel (records.flatten ++ rest) = records := by
  induction h generalizing fuel with
  | nil =>
    cases fuel with
    | zero => rfl
    | succ fuel =>
      unfold frames
      split
      · rfl
      · exact if_pos hrest
  | @cons p r payloads records hpr _ ih =>
    rw [List.flatten_cons, List.append_assoc] at hfuel ⊢
    have hlen := hpr.recordLen (records.flatten ++ rest)
    rw [List.length_append] at hfuel
    cases fuel with
    | zero => omega
    | succ fuel =>
      unfold frames
      dsimp only
      rw [hlen, List.take_left, List.drop_left, List.length_append, if_neg (by omega), if_neg (by omega),
        ih (by omega)]

/-! ### Writing to a file of readable records -/

theorem forall₂_concat {α β : Type} {R : α → β → Prop} {xs : List α} {ys : List β} {x : α} {y : β} :
    List.Forall₂ R (xs ++ [x]) (ys ++ [y]) ↔ List.Forall₂ R xs ys ∧ R x y := by
  rw [← List.forall₂_reverse_iff, List.reverse_concat', List.reverse_concat', List.forall₂_cons,
    List.forall₂_reverse_iff, and_comm]

theorem Readable.mono {enc' : WALEncryptor} {p r : Bytes} (hkeys : ∀ k, enc.keyCache (uint32 (r.drop 4)) = some k →
    enc'.keyCache (uint32 (r.drop 4)) = some k) (h : Readable aead enc p r) : Readable aead enc' p r := by
  obtain ⟨key, version, hseals, hlen, hkey⟩ := h
  rw [hseals.version] at hkeys
  exact ⟨key, version, hseals, hlen, hkeys key hkey⟩

/-- A change of keys that keeps those of the versions in a file leaves its records readable. -/
theorem Holds.mono {enc' : WALEncryptor} {data : Bytes} {payloads : List Bytes} {rest : Bytes} (htorn : Torn rest)
    (hkeys : ∀ r ∈ fileFrames data, ∀ k, enc.keyCache (uint32 (r.drop 4)) = some k →
      enc'.keyCache (uint32 (r.drop 4)) = some k) (h : Holds aead enc data payloads rest) :
    Holds aead enc' data payloads rest := by
  obtain ⟨records, hrecords, rfl⟩ := h
  have hframes : fileFrames (records.flatten ++ rest) = records := frames_of_records hrecords htorn (Nat.le_refl _)
  rw [hframes] at hkeys
  clear hframes
  refine ⟨records, ?_, rfl⟩
  induction hrecords with
  | nil => exact .nil
  | cons hpr _ ih =>
    exact .cons (hpr.mono (hkeys _ (List.mem_cons_self ..))) (ih fun r hr => hkeys r (List.mem_cons_of_mem _ hr))

/-- One more record at the end of a file without a torn one. -/
theorem Holds.concat {data : Bytes} {payloads : List Bytes} (h : Holds aead enc data payloads []) {p r : Bytes}
    (hr : Readable aead enc p r) : Holds aead enc (data ++ r) (payloads ++ [p]) [] := by
  obtain ⟨records, hrecords, hdata⟩ := h
  refine ⟨records ++ [r], forall₂_concat.2 ⟨hrecords, hr⟩, ?_⟩
  rw [hdata, List.flatten_append, List.append_nil, List.append_nil, List.flatten_singleton]

theorem Holds.append_rest {data : Bytes} {payloads : List Bytes} (h : Holds aead enc data payloads [])
    (rest : Bytes) :
    Holds aead enc (data ++ rest) payloads rest := by
  obtain ⟨records, hrecords, hdata⟩ := h
  exact ⟨records, hrecords, by rw [hdata, List.append_nil]⟩

theorem holds_nil (rest : Bytes) : Holds aead enc rest [] rest := ⟨[], List.Forall₂.nil, rfl⟩

/-! ### A numbered directory of such files -/

theorem Dir.Numbered.lookup_name {dir : Dir} {first : Nat} (h : dir.Numbered first) {f : File} (hf : f ∈ dir) :
    dir.lookup f.name = some f := by
  induction dir generalizing first with
  | nil => cases hf
  | cons g dir ih =>
    obtain ⟨hname, hdir⟩ := Dir.numbered_cons.1 h
    rcases List.mem_cons.1 hf with rfl | hf
    · exact List.find?_cons_of_pos (by simp)
    · have hne : g.name ≠ f.name := by
        rw [hname]; exact (hdir.name_ne (.inl (Nat.lt_succ_self _)) hf).symm
      rw [Dir.lookup, List.find?_cons_of_neg (by simpa using hne)]
      exact ih hdir hf

/-- Reading files that hold the payloads one after the other. -/
theorem readFiles_of_holds {dir : Dir} {first : Nat} (hdir : dir.Numbered first) {files : Dir}
    (hfiles : ∀ f ∈ files, f ∈ dir) {payloads : List (List Bytes)}
    (h : List.Forall₂ (fun f ps => ∃ rest, Torn rest ∧ Holds aead enc f.data ps rest) files payloads) :
    readFiles aead enc dir (files.map File.toInfo) = .ok payloads.flatten := by
  induction h with
  | nil => rfl
  | @cons f ps files payloads hf _ ih =>
    obtain ⟨rest, htorn, hholds⟩ := hf
    have hfile : readFile aead enc dir f.toInfo.name = .ok ps := by
      rw [readFile, show f.toInfo.name = f.name from rfl, hdir.lookup_name (hfiles f (List.mem_cons_self ..))]
      exact readLoop_of_holds hholds htorn (Nat.le_refl _)
    rw [List.map_cons, readFiles, hfile, ih fun g hg => hfiles g (List.mem_cons_of_mem _ hg)]
    rfl

/-- `ReadAll` returns the payloads in the order of the files. -/
theorem readAll_of_holds {dir : Dir} {first : Nat} (hdir : dir.Numbered first) (hlt : first + dir.length ≤ 10 ^ 6)
    {payloads : List (List Bytes)}
    (h : List.Forall₂ (fun f ps => ∃ rest, Torn rest ∧ Holds aead enc f.data ps rest) dir payloads) :
    readAll aead enc dir = .ok payloads.flatten := by
  rw [readAll, hdir.getWALFiles_readDir hlt]
  exact readFiles_of_holds hdir (fun _ hf => hf) h

end DistributedBloomFilter
