import DistributedBloomFilter.Wal.History

/-!
# Keys from a secret and restarts

`K8sSecretLoader` and `NewWALEncryptor` of `internal/wal/encryptor.go`, and a log that is written by one process after
another.  A process has the keys that it has loaded or made itself: those of earlier processes are gone with their
`keyCache`, and the secret holds one key with one number at a time.  Since the reader stops at the first record that
does not decrypt, and says nothing, a later process gets from every file the records before the first one under a key
it does not have (`readAll_of_start`).

A file of the secret that is not UTF-8 is read by its characters, with U+FFFD for what is not one.
-/

namespace DistributedBloomFilter

open BigEndian (uint32)
open Run (exec Admits)

/-! ### The secret -/

/-- The directory of a mounted secret: what reading `key` gives, and the text of `version` if it can be read. -/
structure Secret where
  key : Except String Bytes
  version : Option (List Char)

namespace Secret

/-- `fmt.Sscanf` of a `uint32` with the verb `%d`, for which a newline is an error; after an error the variable is as
it was. -/
def sscanUint32 (text : List Char) : Option UInt32 :=
  let token := (text.dropWhile Decimal.isSpace).takeWhile Char.isDigit
  if token = [] then none
  else
    let n := Nat.ofDigitChars 10 token 0
    if n < 2 ^ 32 then some (UInt32.ofNat n) else none

def loadKey (s : Secret) : Except String (Bytes × UInt32) :=
  match s.key with
  | .error err => .error ("failed to read key from secret: " ++ err)
  | .ok keyData =>
    let version := (sscanUint32 (s.version.getD ['1'])).getD 0
    let version := if version = 0 then 1 else version
    if keyData.length < 32 then .error "key must be at least 32 bytes"
    else .ok (keyData.take 32, version)

example : (⟨.ok (List.replicate 40 7), some " 12\n".toList⟩ : Secret).loadKey = .ok (List.replicate 32 7, 12) ∧
    (⟨.ok (List.replicate 40 7), some "\n12".toList⟩ : Secret).loadKey = .ok (List.replicate 32 7, 1) ∧
    (⟨.ok (List.replicate 40 7), some "4294967296".toList⟩ : Secret).loadKey = .ok (List.replicate 32 7, 1) := by
  decide +kernel

end Secret

/-! ### A log and its processes -/

/-- A record that was acknowledged, with the key and the version it is sealed under. -/
structure SealedEntry where
  payload : Bytes
  key : Bytes
  version : UInt32
deriving DecidableEq

/-- The secret, the directory, the running process, and for every file ever made the records that were
acknowledged. -/
structure KeyedLog where
  secret : Secret
  process : Option (WALEncryptor × WALWriter)
  dir : Dir
  files : List (List SealedEntry)

namespace KeyedLog

inductive Event where
  /-- the secret is replaced -/
  | publish (secret : Secret)
  /-- a process starts: `NewWALEncryptor`, with the random bytes it may need, and `NewWALWriterWithConfig` -/
  | start (now : Time) (rand : Except String (BytesN 32))
  | refreshKey (now later : Time)
  | rotateKey (now : Time) (rand : Except String (BytesN 32))
  | write (now later : Time) (rand : Except String (BytesN 12)) (data : Bytes)
  /-- the process ends in a `Write`, at the latest after `written` bytes of its record -/
  | crash (io : Faults) (written : Nat) (now later : Time) (rand : Except String (BytesN 12)) (data : Bytes)

/-- The files after a `Write`, before its own record is put down. -/
def filesAfter (files : List (List SealedEntry)) (w : WALWriter) (o : Outcome) : List (List SealedEntry) :=
  if o.writer.currentName = w.currentName then files else files ++ [[]]

section Steps

variable (aead : Aead) (config : WALConfig) (usesSecret : Bool)

/-- What `NewWALEncryptor` loads, if it is given the path of the secret. -/
def loaded (s : KeyedLog) : Option (Except String (Bytes × UInt32)) :=
  if usesSecret then some s.secret.loadKey else none

def step (s : KeyedLog) : Event → KeyedLog
  | .publish secret => { s with secret := secret }
  | .start now rand =>
    match newWALEncryptor (s.loaded usesSecret) rand now, newWALWriterWithConfig s.dir config .none now with
    | .ok enc, .ok (w, dir) =>
      { s with
        process := some (enc, w)
        dir := dir
        files := if s.dir.lookup w.currentName = none then s.files ++ [[]] else s.files }
    | _, _ => { s with process := none }
  | .refreshKey now later =>
    { s with process := s.process.map fun p => ((p.1.refreshKey now later s.secret.loadKey).1, p.2) }
  | .rotateKey now rand => { s with process := s.process.map fun p => ((p.1.rotateKey now rand).1, p.2) }
  | .write now later rand data =>
    match s.process with
    | none => s
    | some (enc, w) =>
      let o := w.write aead enc s.dir .none now later rand data
      { s with
        process := some (enc, o.writer)
        dir := o.dir
        files := match o.err with
          | some _ => filesAfter s.files w o
          | none => (filesAfter s.files w o).modifyLast (· ++ [⟨data, enc.currentKey, enc.keyVersion⟩]) }
  | .crash io written now later rand data =>
    match s.process with
    | none => s
    | some (enc, w) =>
      let o := w.write aead enc s.dir { io with write := some (written, "crash") } now later rand data
      { s with process := none, dir := o.dir, files := filesAfter s.files w o }

/-- Payloads are shorter than `2 ^ 32 - 64` bytes, a crash leaves less than the whole record, and fewer than a million
files are made. -/
def Admissible (s : KeyedLog) (e : Event) : Prop :=
  (s.step aead config usesSecret e).files.length < 10 ^ 6 ∧
  match e with
  | .write _ _ _ data => data.length < 2 ^ 32 - 64
  | .crash _ written _ _ _ data => data.length < 2 ^ 32 - 64 ∧ written < data.length + 36
  | _ => True

end Steps

/-- Nothing has been written, and no process runs. -/
def init (secret : Secret) : KeyedLog := { secret := secret, process := none, dir := [], files := [] }

/-! ### What is in the files -/

section Stored

variable (aead : Aead)

def Sealed (e : SealedEntry) (r : Bytes) : Prop :=
  Seals aead e.key e.version e.payload r ∧ e.payload.length + 32 < 2 ^ 32

/-- The records of the entries, and the bytes `rest` after them. -/
def HoldsEntries (data : Bytes) (entries : List SealedEntry) (rest : Bytes) : Prop :=
  ∃ records, List.Forall₂ (Sealed aead) entries records ∧ data = records.flatten ++ rest

def FileHolds (f : File) (entries : List SealedEntry) : Prop :=
  ∃ rest, Torn rest ∧ HoldsEntries aead f.data entries rest

/-- Of all the files ever made, the first `d` have been deleted, and the others hold their entries. -/
structure Stored (maxFiles : Nat) (dir : Dir) (files : List (List SealedEntry)) (d : Nat) : Prop where
  deleted : d ≤ files.length - maxFiles
  numbered : dir.Numbered (d + 1)
  holds : List.Forall₂ (FileHolds aead) dir (files.drop d)

/-- The writer has the newest file open, and there is no torn record in it. -/
def Running (w : WALWriter) (dir : Dir) (files : List (List SealedEntry)) (d : Nat) : Prop :=
  ∃ olds f ess es, dir = olds ++ [f] ∧ files = ess ++ [es] ∧ w.Active olds f (d + 1) ∧ HoldsEntries aead f.data es []

structure Inv (config : WALConfig) (s : KeyedLog) : Prop where
  count : s.files.length < 10 ^ 6
  stored : ∃ d, Stored aead config.maxFiles.toNat s.dir s.files d ∧
    ∀ p ∈ s.process, p.2.config = config ∧ Running aead p.2 s.dir s.files d

end Stored

variable {aead : Aead}

theorem holdsEntries_nil (rest : Bytes) : HoldsEntries aead rest [] rest := ⟨[], List.Forall₂.nil, rfl⟩

theorem HoldsEntries.concat {data : Bytes} {es : List SealedEntry} (h : HoldsEntries aead data es [])
    {e : SealedEntry} {r : Bytes} (hr : Sealed aead e r) : HoldsEntries aead (data ++ r) (es ++ [e]) [] := by
  obtain ⟨records, hrecords, hdata⟩ := h
  refine ⟨records ++ [r], forall₂_concat.2 ⟨hrecords, hr⟩, ?_⟩
  rw [hdata, List.flatten_append, List.append_nil, List.append_nil, List.flatten_singleton]

theorem HoldsEntries.append_rest {data : Bytes} {es : List SealedEntry} (h : HoldsEntries aead data es [])
    (rest : Bytes) : HoldsEntries aead (data ++ rest) es rest := by
  obtain ⟨records, hrecords, hdata⟩ := h
  exact ⟨records, hrecords, by rw [hdata, List.append_nil]⟩

namespace Stored

variable {maxFiles d : Nat} {dir olds : Dir} {f g : File} {files ess : List (List SealedEntry)}
  {es : List SealedEntry}

theorem length_dir (h : Stored aead maxFiles dir files d) : dir.length = files.length - d := by
  rw [h.holds.length_eq, List.length_drop]

private theorem drop_last (hmax : 1 ≤ maxFiles) (hd : d ≤ (ess ++ [es]).length - maxFiles) (es' : List SealedEntry) :
    (ess ++ [es']).drop d = ess.drop d ++ [es'] := by
  rw [List.length_append, List.length_singleton] at hd
  exact List.drop_append_of_le_length (by omega)

/-- The newest file is written to. -/
theorem replace_last (hmax : 1 ≤ maxFiles) (h : Stored aead maxFiles (olds ++ [f]) (ess ++ [es]) d)
    (hname : g.name = f.name) {es' : List SealedEntry} (hg : FileHolds aead g es') :
    Stored aead maxFiles (olds ++ [g]) (ess ++ [es']) d := by
  obtain ⟨holds, hf⟩ := Dir.numbered_concat.1 h.numbered
  have hfiles := h.holds
  rw [drop_last hmax h.deleted] at hfiles
  refine ⟨?_, Dir.numbered_concat.2 ⟨holds, hname.trans hf⟩, ?_⟩
  · have := h.deleted
    rwa [List.length_append, List.length_singleton] at this ⊢
  · rw [drop_last hmax h.deleted]
    exact forall₂_concat.2 ⟨(forall₂_concat.1 hfiles).1, hg⟩

/-- A new file is made, and `j` more of the oldest are deleted. -/
theorem roll (h : Stored aead maxFiles dir files d) {j : Nat} (hj : j ≤ dir.length + 1 - maxFiles)
    (hmax : 1 ≤ maxFiles) (hnum : Dir.Numbered (dir.drop j ++ [g]) (d + 1 + j)) (hg : FileHolds aead g es) :
    Stored aead maxFiles (dir.drop j ++ [g]) (files ++ [es]) (d + j) := by
  have hlen := h.length_dir
  have hd := h.deleted
  refine ⟨?_, by rwa [Nat.add_right_comm] at hnum, ?_⟩
  · rw [List.length_append, List.length_singleton]; omega
  · rw [List.drop_append_of_le_length (by omega), ← List.drop_drop]
    exact forall₂_concat.2 ⟨List.forall₂_drop j h.holds, hg⟩

/-- The number of a file that a `Write` opens is the number of files made so far. -/
theorem index_lt {w : WALWriter} {o : Outcome} (h : Stored aead maxFiles (olds ++ [f]) files d)
    (hactive : w.Active olds f (d + 1)) (hcount : (filesAfter files w o).length < 10 ^ 6)
    (hne : o.writer.currentName ≠ w.currentName) : w.currentIndex + 1 < 10 ^ 6 := by
  have hlen := h.length_dir
  have hindex := hactive.index
  rw [filesAfter, if_neg hne] at hcount
  simp only [List.length_append, List.length_singleton] at hlen hcount
  omega

end Stored

/-! ### The invariant -/

variable {config : WALConfig}

/-- What a `Write` adds to a file: its entry when it returned nil, and otherwise a torn record. -/
theorem holds_of_wrote {enc : WALEncryptor} {err : Option Failure} {data bytes before : Bytes} {es : List SealedEntry}
    {g : File} (hwrote : WALWriter.Wrote aead enc data err bytes) (hdata : data.length + 32 < 2 ^ 32)
    (hbefore : HoldsEntries aead before es []) (hg : g.data = before ++ bytes) :
    (err = none → HoldsEntries aead g.data (es ++ [⟨data, enc.currentKey, enc.keyVersion⟩]) []) ∧
      (err ≠ none → FileHolds aead g es) := by
  rcases hwrote with ⟨herr, hseals⟩ | ⟨herr, hbytes⟩
  · refine ⟨fun _ => ?_, fun hne => absurd herr hne⟩
    rw [hg]
    exact hbefore.concat ⟨hseals, hdata⟩
  · refine ⟨fun hnil => absurd hnil herr, fun _ => ⟨bytes, ?_, ?_⟩⟩
    · rcases hbytes with rfl | ⟨record, n, hseals, hn, rfl⟩
      · exact torn_nil
      · exact hseals.torn_take hdata hn
    · rw [hg]
      exact hbefore.append_rest bytes

/-- A `Write` keeps what is stored. -/
theorem stored_write {enc : WALEncryptor} {w : WALWriter} {dir : Dir} {files : List (List SealedEntry)} {d : Nat}
    {io : Faults} {now later : Time} {rand : Except String (BytesN 12)} {data : Bytes} {o : Outcome}
    (hmax : 1 ≤ config.maxFiles) (hstored : Stored aead config.maxFiles.toNat dir files d)
    (hconfig : w.config = config) (hrun : Running aead w dir files d) (hdata : data.length + 32 < 2 ^ 32)
    (hfault : ∀ n err, io.write = some (n, err) → n < data.length + 36)
    (ho : w.write aead enc dir io now later rand data = o) (hcount : (filesAfter files w o).length < 10 ^ 6) :
    ∃ d', o.writer.config = config ∧
      (o.err = none → let files' := (filesAfter files w o).modifyLast (· ++ [⟨data, enc.currentKey, enc.keyVersion⟩])
        Stored aead config.maxFiles.toNat o.dir files' d' ∧ Running aead o.writer o.dir files' d') ∧
      (o.err ≠ none → Stored aead config.maxFiles.toNat o.dir (filesAfter files w o) d') := by
  obtain ⟨olds, f, ess, es, rfl, rfl, hactive, hholds⟩ := hrun
  have hmax' : 1 ≤ config.maxFiles.toNat := by omega
  have hlt := hstored.index_lt hactive hcount
  obtain ⟨bytes, hwrote, hconfig', hcases⟩ :=
    WALWriter.write_cases hactive (by rw [hconfig]; exact hmax) hfault ho hlt
  rcases hcases with ⟨hsame, g, hname, hgdata, hdir, hactive', _⟩ | ⟨hne, j, g, hgdata, hj, hdir, hactive'⟩
  · -- the newest file has grown
    obtain ⟨hok, hfail⟩ := holds_of_wrote hwrote hdata hholds hgdata
    rw [filesAfter, if_pos hsame, List.modifyLast_concat, hdir]
    refine ⟨d, hconfig'.trans hconfig, fun herr => ?_, fun herr => ?_⟩
    · exact ⟨hstored.replace_last hmax' hname ⟨[], torn_nil, hok herr⟩,
        olds, g, ess, _, rfl, rfl, hactive' (.inl herr), hok herr⟩
    · exact hstored.replace_last hmax' hname (hfail herr)
  · -- there is a new file
    obtain ⟨hok, hfail⟩ := holds_of_wrote hwrote hdata (holdsEntries_nil []) hgdata
    rw [filesAfter, if_neg hne, List.modifyLast_concat, hdir]
    rw [hconfig] at hj
    have hj' : j ≤ (olds ++ [f]).length + 1 - config.maxFiles.toNat := by
      rw [List.length_append, List.length_singleton]; exact hj
    refine ⟨d + j, hconfig'.trans hconfig, fun herr => ?_, fun herr => ?_⟩
    · refine ⟨hstored.roll hj' hmax' hactive'.numbered ⟨[], torn_nil, hok herr⟩, _, g, _, _, rfl, rfl, ?_, hok herr⟩
      rw [Nat.add_right_comm]
      exact hactive'
    · exact hstored.roll hj' hmax' hactive'.numbered (hfail herr)

theorem inv_init (secret : Secret) : Inv aead config (init secret) where
  count := by simp [init]
  stored := ⟨0, ⟨Nat.zero_le _, Dir.numbered_nil 1, List.Forall₂.nil⟩, fun w hw => by cases hw⟩

variable {usesSecret : Bool} {s : KeyedLog}

theorem inv_start (hmax : 1 ≤ config.maxFiles) (h : s.Inv aead config) {now : Time} {rand : Except String (BytesN 32)}
    (hadm : s.Admissible aead config usesSecret (.start now rand)) :
    (s.step aead config usesSecret (.start now rand)).Inv aead config := by
  obtain ⟨d, hstored, -⟩ := h.stored
  have hlen := hstored.length_dir
  have hd := hstored.deleted
  have hcount := h.count
  have hempty : s.dir = [] → d + 1 = 1 := by
    intro hnil
    rw [hnil, List.length_nil] at hlen
    omega
  obtain ⟨w, g, hnew, hgdata, -, hactive, hconfig⟩ :=
    newWALWriterWithConfig_eq hstored.numbered (by omega) hempty config now
  have hlookup : s.dir.lookup w.currentName = none := by
    rw [hactive.name, (Dir.numbered_concat.1 hactive.numbered).2]
    exact hstored.numbered.lookup_next
  have hholds : HoldsEntries aead g.data [] [] := by rw [hgdata]; exact holdsEntries_nil []
  cases hnewEnc : newWALEncryptor (s.loaded usesSecret) rand now with
  | error err =>
    unfold step
    dsimp only
    rw [hnewEnc]
    exact ⟨h.count, d, hstored, fun p hp => by cases hp⟩
  | ok enc =>
    have hstep : s.step aead config usesSecret (.start now rand) =
        { s with process := some (enc, w), dir := s.dir ++ [g], files := s.files ++ [[]] } := by
      unfold step
      dsimp only
      rw [hnewEnc, hnew]
      dsimp only
      rw [if_pos hlookup]
    unfold Admissible at hadm
    rw [hstep] at hadm ⊢
    refine ⟨hadm.1, d, ?_, fun p hp => ?_⟩
    · exact hstored.roll (j := 0) (Nat.zero_le _) (by omega) hactive.numbered ⟨[], torn_nil, hholds⟩
    · obtain rfl := Option.some.inj hp
      exact ⟨hconfig, s.dir, g, s.files, [], rfl, rfl, hactive, hholds⟩

private theorem length_modifyLast (files : List (List SealedEntry)) (e : SealedEntry) :
    (files.modifyLast (· ++ [e])).length = files.length := by
  rcases List.eq_nil_or_concat files with rfl | ⟨ess, es, rfl⟩
  · rfl
  · rw [List.concat_eq_append, List.modifyLast_concat, List.length_append, List.length_append]; rfl

theorem inv_write (hmax : 1 ≤ config.maxFiles) (h : s.Inv aead config) {now later : Time}
    {rand : Except String (BytesN 12)} {data : Bytes}
    (hadm : s.Admissible aead config usesSecret (.write now later rand data)) :
    (s.step aead config usesSecret (.write now later rand data)).Inv aead config := by
  obtain ⟨hlen, hdata⟩ := hadm
  obtain ⟨d, hstored, hrun⟩ := h.stored
  simp only [step] at hlen ⊢
  cases hp : s.process with
  | none => exact h
  | some p =>
    obtain ⟨enc, w⟩ := p
    obtain ⟨hconfig, hrun⟩ := hrun (enc, w) hp
    rw [hp] at hlen
    dsimp only at hlen ⊢
    cases ho : w.write aead enc s.dir .none now later rand data with
    | mk w' dir' err =>
      rw [ho] at hlen
      have hcount : (filesAfter s.files w ⟨w', dir', err⟩).length < 10 ^ 6 := by
        cases err with
        | none => exact length_modifyLast _ _ ▸ hlen
        | some err => exact hlen
      obtain ⟨d', hconfig', hok, hfail⟩ := stored_write hmax hstored hconfig hrun (by omega)
        (fun n err hio => by cases hio) ho hcount
      cases err with
      | none =>
        obtain ⟨hstored', hrun'⟩ := hok rfl
        refine ⟨hlen, d', hstored', fun p hp => ?_⟩
        obtain rfl := Option.some.inj hp
        exact ⟨hconfig', hrun'⟩
      | some err =>
        -- the data could not be encrypted
        obtain ⟨olds, f, ess, es, hdir, hfiles, hactive, hholds⟩ := id hrun
        have hlt := (hdir ▸ hstored).index_lt hactive hcount
        rcases WALWriter.write_none_cases hactive (by rw [hconfig]; exact hmax) (hdir ▸ ho) hlt with
          ⟨herr, _⟩ | ⟨_, hw', hdir'⟩
        · cases herr
        · obtain rfl : w' = w := hw'
          obtain rfl : dir' = s.dir := hdir'.trans hdir.symm
          rw [filesAfter, if_pos rfl]
          refine ⟨h.count, d, hstored, fun p hp => ?_⟩
          obtain rfl := Option.some.inj hp
          exact ⟨hconfig, hrun⟩

theorem inv_crash (hmax : 1 ≤ config.maxFiles) (h : s.Inv aead config) {io : Faults} {written : Nat}
    {now later : Time} {rand : Except String (BytesN 12)} {data : Bytes}
    (hadm : s.Admissible aead config usesSecret (.crash io written now later rand data)) :
    (s.step aead config usesSecret (.crash io written now later rand data)).Inv aead config := by
  obtain ⟨hlen, hdata, hwritten⟩ := hadm
  obtain ⟨d, hstored, hrun⟩ := h.stored
  simp only [step] at hlen ⊢
  cases hp : s.process with
  | none => exact h
  | some p =>
    obtain ⟨enc, w⟩ := p
    obtain ⟨hconfig, hrun⟩ := hrun (enc, w) hp
    rw [hp] at hlen
    dsimp only at hlen ⊢
    have hfault : ∀ n err, some (written, "crash") = some (n, err) → n < data.length + 36 := by
      rintro n err heq
      obtain ⟨rfl, -⟩ := Prod.mk.inj (Option.some.inj heq)
      exact hwritten
    obtain ⟨d', _, _, hfail⟩ := stored_write hmax hstored hconfig hrun (by omega) hfault rfl hlen
    have herr := WALWriter.write_err_ne_none aead enc w s.dir { io with write := some (written, "crash") } rfl now
      later rand data
    exact ⟨hlen, d', hfail herr, fun p hp => by cases hp⟩

/-- Other keys for the process leave the files and the writer as they are. -/
private theorem inv_mapKeys (h : s.Inv aead config) (f : WALEncryptor → WALEncryptor) :
    Inv aead config { s with process := s.process.map fun p => (f p.1, p.2) } := by
  obtain ⟨d, hstored, hrun⟩ := h.stored
  refine ⟨h.count, d, hstored, fun p hp => ?_⟩
  obtain ⟨q, hq, rfl⟩ := Option.map_eq_some_iff.1 hp
  exact hrun q hq

theorem inv_step (hmax : 1 ≤ config.maxFiles) (s : KeyedLog) (e : Event) (h : s.Inv aead config)
    (hadm : s.Admissible aead config usesSecret e) : (s.step aead config usesSecret e).Inv aead config := by
  cases e with
  | publish secret => exact ⟨h.count, h.stored⟩
  | start now rand => exact inv_start hmax h hadm
  | refreshKey now later => exact inv_mapKeys h fun enc => (enc.refreshKey now later s.secret.loadKey).1
  | rotateKey now rand => exact inv_mapKeys h fun enc => (enc.rotateKey now rand).1
  | write now later rand data => exact inv_write hmax h hadm
  | crash io written now later rand data => exact inv_crash hmax h hadm

/-! ### What a process can read -/

/-- The process has the key of the entry, under its version. -/
def Knows (enc : WALEncryptor) (e : SealedEntry) : Bool := enc.keyCache e.version = some e.key

variable (aead) in
/-- A key that another process had under the same version does not open the entry. -/
def Foreign (enc : WALEncryptor) (e : SealedEntry) : Prop :=
  ∀ key, enc.keyCache e.version = some key → key ≠ e.key →
    ∀ nonce : BytesN 12, aead.openMsg key nonce (aead.sealMsg e.key nonce e.payload) = none

variable {enc : WALEncryptor}

theorem decrypt_of_not_knows {e : SealedEntry} {r : Bytes} (h : Sealed aead e r) (hforeign : Foreign aead enc e)
    (hknows : Knows enc e = false) : ∃ msg, enc.decrypt aead r = .error (.error msg) := by
  obtain ⟨⟨-, nonce, rfl⟩, hlen⟩ := h
  have hversion : uint32 ((formatRecord e.version (nonce ++ aead.sealMsg e.key nonce e.payload)).drop 4) =
      e.version := by rw [drop_four_formatRecord, BigEndian.uint32_putUint32]
  have hlong : ¬ (formatRecord e.version (nonce ++ aead.sealMsg e.key nonce e.payload)).length < 8 := by
    rw [length_formatRecord]
    omega
  cases hkey : enc.keyCache e.version with
  | none =>
    refine ⟨"key version " ++ toString e.version.toNat ++ " not found", ?_⟩
    unfold WALEncryptor.decrypt WALEncryptor.getKeyByVersion
    rw [if_neg hlong, hversion, hkey]
  | some key =>
    cases hcipher : newCipher key with
    | some err =>
      refine ⟨"failed to create cipher: " ++ err, ?_⟩
      unfold WALEncryptor.decrypt WALEncryptor.getKeyByVersion
      rw [if_neg hlong, hversion, hkey]
      simp only [hcipher]
    | none =>
      have hne : key ≠ e.key := by
        rintro rfl
        simp [Knows, hkey] at hknows
      have hsealed : (aead.sealMsg e.key nonce e.payload).length + 16 < 2 ^ 32 := by
        rw [aead.length_sealMsg]
        omega
      rw [WALEncryptor.decrypt_formatRecord hkey hcipher nonce hsealed, hforeign key hkey hne nonce]
      exact ⟨_, rfl⟩

/-- From a file a process reads the entries before the first one whose key it does not have. -/
theorem readLoop_entries {data : Bytes} {entries : List SealedEntry} {rest : Bytes}
    (h : HoldsEntries aead data entries rest) (hrest : Torn rest) (hforeign : ∀ e ∈ entries, Foreign aead enc e)
    {fuel : Nat} (hfuel : data.length ≤ fuel) :
    readLoop aead enc fuel data = .ok ((entries.takeWhile (Knows enc)).map SealedEntry.payload) := by
  obtain ⟨records, hrecords, rfl⟩ := h
  induction hrecords generalizing fuel with
  | nil => exact readLoop_torn hrest fuel
  | @cons e r entries records her _ ih =>
    rw [List.flatten_cons, List.append_assoc] at hfuel ⊢
    have hlen := her.1.toNat_uint32 her.2 (records.flatten ++ rest)
    rw [List.length_append] at hfuel
    cases hknows : Knows enc e with
    | false =>
      obtain ⟨msg, herr⟩ := decrypt_of_not_knows her (hforeign e (List.mem_cons_self ..)) hknows
      rw [List.takeWhile_cons_of_neg (by simp [hknows])]
      exact readLoop_undecryptable hlen herr fuel
    | true =>
      have hdecrypt : enc.decrypt aead r = .ok e.payload := her.1.decrypt her.2 (by simpa [Knows] using hknows)
      rw [List.takeWhile_cons_of_pos hknows, List.map_cons]
      cases fuel with
      | zero => omega
      | succ fuel =>
        unfold readLoop
        dsimp only
        rw [hlen, List.take_left, List.drop_left, hdecrypt, List.length_append, if_neg (by omega),
          if_neg (by omega), ih (fun e he => hforeign e (List.mem_cons_of_mem _ he)) (by omega)]

/-- What `ReadAll` of a process gets from the files. -/
theorem readAll_stored {maxFiles d : Nat} {dir : Dir} {files : List (List SealedEntry)}
    (h : Stored aead maxFiles dir files d) (hcount : files.length < 10 ^ 6)
    (hforeign : ∀ e ∈ files.flatten, Foreign aead enc e) :
    readAll aead enc dir =
      .ok ((files.drop d).flatMap fun es => (es.takeWhile (Knows enc)).map SealedEntry.payload) := by
  have hlen := h.length_dir
  have hdeleted := h.deleted
  have hdir := h.numbered
  have hread : ∀ (fs : Dir) (ess : List (List SealedEntry)), (∀ f ∈ fs, f ∈ dir) → (∀ es ∈ ess, es ∈ files) →
      List.Forall₂ (FileHolds aead) fs ess → readFiles aead enc dir (fs.map File.toInfo) =
        .ok (ess.flatMap fun es => (es.takeWhile (Knows enc)).map SealedEntry.payload) := by
    intro fs ess hfs hess hholds
    induction hholds with
    | nil => rfl
    | @cons f es fs ess hf _ ih =>
      obtain ⟨rest, htorn, hentries⟩ := hf
      have hfile : readFile aead enc dir f.toInfo.name =
          .ok ((es.takeWhile (Knows enc)).map SealedEntry.payload) := by
        rw [readFile, show f.toInfo.name = f.name from rfl, hdir.lookup_name (hfs f (List.mem_cons_self ..))]
        refine readLoop_entries hentries htorn (fun e he => hforeign e ?_) (Nat.le_refl _)
        exact List.mem_flatten.2 ⟨es, hess es (List.mem_cons_self ..), he⟩
      rw [List.map_cons, readFiles, hfile, ih (fun g hg => hfs g (List.mem_cons_of_mem _ hg))
        fun es' hes' => hess es' (List.mem_cons_of_mem _ hes')]
      rfl
  unfold readAll
  rw [hdir.getWALFiles_readDir (by omega)]
  exact hread dir (files.drop d) (fun f hf => hf) (fun es hes => List.mem_of_mem_drop hes) h.holds

/-- A new encryptor has one key. -/
theorem knows_newWALEncryptor {loaded : Option (Except String (Bytes × UInt32))} {rand : Except String (BytesN 32)}
    {now : Time} (h : newWALEncryptor loaded rand now = .ok enc) (e : SealedEntry) :
    Knows enc e = decide (e.version = enc.keyVersion ∧ e.key = enc.currentKey) := by
  have hcache : ∀ version, enc.keyCache version = if version = enc.keyVersion then some enc.currentKey else none := by
    intro version
    unfold newWALEncryptor at h
    split at h
    · cases h
    · cases h
      dsimp only
      rw [Function.update_apply]
    · split at h
      · cases h
      · cases h
        dsimp only
        rw [Function.update_apply]
  unfold Knows
  rw [hcache]
  by_cases hversion : e.version = enc.keyVersion
  · simp [hversion, eq_comm]
  · simp [hversion]

/-- Processes write to a log one after the other, with keys from the secret as it is at the time, with keys they have
made themselves or with random ones, and end at any point.  Then a process starts.  Its `ReadAll` returns no error,
and of every file that is left the payloads before the first one that is not under the one key the new process has. -/
theorem readAll_of_start (hmax : 1 ≤ config.maxFiles) (secret : Secret) {es : List Event}
    (hes : Admits (step aead config usesSecret) (Admissible aead config usesSecret) (init secret) es) {now : Time}
    {rand : Except String (BytesN 32)}
    (hnew : newWALEncryptor ((exec (step aead config usesSecret) (init secret) es).loaded usesSecret) rand now =
      .ok enc)
    (hforeign : ∀ e ∈ (exec (step aead config usesSecret) (init secret) es).files.flatten, Foreign aead enc e) :
    ∃ d ≤ (exec (step aead config usesSecret) (init secret) es).files.length - config.maxFiles.toNat,
      readAll aead enc (exec (step aead config usesSecret) (init secret) es).dir =
        .ok (((exec (step aead config usesSecret) (init secret) es).files.drop d).flatMap fun entries =>
          (entries.takeWhile fun e => e.version = enc.keyVersion ∧
            e.key = enc.currentKey).map SealedEntry.payload) := by
  obtain ⟨hcount, d, hstored, -⟩ := Run.invariant (inv_step hmax) (inv_init secret) hes
  have hknows : (Knows enc) = fun e => decide (e.version = enc.keyVersion ∧ e.key = enc.currentKey) :=
    funext (knows_newWALEncryptor hnew)
  refine ⟨d, hstored.deleted, ?_⟩
  rw [readAll_stored hstored hcount hforeign, hknows]

instance (aead : Aead) (config : WALConfig) (usesSecret : Bool) :
    ∀ (s : KeyedLog) (e : Event), Decidable (s.Admissible aead config usesSecret e)
  | _, .write _ _ _ _ => inferInstanceAs (Decidable (_ ∧ _ < _))
  | _, .crash .. => inferInstanceAs (Decidable (_ ∧ _ < _ ∧ _ < _))
  | _, .publish _ | _, .start _ _ | _, .refreshKey _ _ | _, .rotateKey _ _ => inferInstanceAs (Decidable (_ ∧ True))

def firstSecret : Secret := ⟨.ok (List.replicate 32 1), none⟩

def secondSecret : Secret := ⟨.ok (List.replicate 32 2), some "2".toList⟩

/-- A process writes a record, finds another key in the secret after five minutes, writes a second record to the same
file and ends. -/
def rekeyedEvents : List Event :=
  [.start 0 (KeyRun.randomKey 0), .write 1 1 KeyRun.randomNonce [97], .publish secondSecret,
    .refreshKey KeyCacheDuration KeyCacheDuration, .write 2 2 KeyRun.randomNonce [98],
    .crash .none 20 4 4 KeyRun.randomNonce [99]]

/-- The next process reads neither of the records: the first one is under the old key, and the second one comes after
it. -/
theorem readAll_rekeyed :
    Admits (step AesGcm.aead History.oneFile true) (Admissible AesGcm.aead History.oneFile true) (init firstSecret)
      rekeyedEvents ∧
    ∃ enc, newWALEncryptor
      ((exec (step AesGcm.aead History.oneFile true) (init firstSecret) rekeyedEvents).loaded true)
        (KeyRun.randomKey 0) 5 = .ok enc ∧
      ∃ d ≤ (exec (step AesGcm.aead History.oneFile true) (init firstSecret) rekeyedEvents).files.length - 1,
        readAll AesGcm.aead enc (exec (step AesGcm.aead History.oneFile true) (init firstSecret) rekeyedEvents).dir =
          .ok (((exec (step AesGcm.aead History.oneFile true) (init firstSecret) rekeyedEvents).files.drop d).flatMap
            fun entries => (entries.takeWhile fun e => e.version = enc.keyVersion ∧ e.key = enc.currentKey).map
              SealedEntry.payload) := by
  have hadmits : Admits (step AesGcm.aead History.oneFile true) (Admissible AesGcm.aead History.oneFile true)
      (init firstSecret) rekeyedEvents := by decide +kernel
  have hloaded : (exec (step AesGcm.aead History.oneFile true) (init firstSecret) rekeyedEvents).loaded true =
      some (.ok (List.replicate 32 2, 2)) := by decide +kernel
  have hfiles : (exec (step AesGcm.aead History.oneFile true) (init firstSecret) rekeyedEvents).files =
      [[⟨[97], List.replicate 32 1, 1⟩, ⟨[98], List.replicate 32 2, 2⟩]] := by decide +kernel
  obtain ⟨enc, hnew, hcache⟩ : ∃ enc, newWALEncryptor
      ((exec (step AesGcm.aead History.oneFile true) (init firstSecret) rekeyedEvents).loaded true)
      (KeyRun.randomKey 0) 5 = .ok enc ∧
        enc.keyCache = Function.update (fun _ => none) 2 (some (.replicate 32 2)) := by
    rw [hloaded]
    exact ⟨_, rfl, rfl⟩
  refine ⟨hadmits, enc, hnew, readAll_of_start (by decide) firstSecret hadmits hnew ?_⟩
  unfold Foreign
  rw [hfiles, hcache]
  simp only [List.flatten_cons, List.flatten_nil, List.append_nil, List.forall_mem_cons]
  refine ⟨fun key hkey => ?_, fun key hkey hne => ?_, nofun⟩
  · cases hkey
  · cases hkey
    exact absurd rfl hne

end KeyedLog

end DistributedBloomFilter
