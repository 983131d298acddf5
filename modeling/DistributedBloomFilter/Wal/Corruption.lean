import DistributedBloomFilter.Wal.History

/-!
# Reading a corrupted log

The bytes of one file of a log are replaced by others, under the assumption that nothing decrypts but the records of
the log.  The reader gets the authentic records at the front of the file, stops there without an error, and goes on
with the next file.  So what it returns is a prefix of what was written when these are the first records of the file,
and all of them unless no later file has a record; and it returns at all only when the record behind them does not
make `Decrypt` slice out of range (`Overruns`).  When no payload was written twice, it is a prefix only then
(`readAll_corrupted_iff`).
-/

namespace DistributedBloomFilter

open BigEndian (uint32)
open Run (exec Admits)

section Reading

variable (aead : Aead) (enc : WALEncryptor)

/-- The plaintexts of the records up to the first one that does not decrypt. -/
def decryptFrames : List Bytes → Except Failure (List Bytes)
  | [] => .ok []
  | r :: rs =>
    match enc.decrypt aead r with
    | .error (.error _) => .ok []
    | .error (.panic msg) => .error (.panic msg)
    | .ok plaintext =>
      match decryptFrames rs with
      | .error err => .error err
      | .ok records => .ok (plaintext :: records)

/-- `readFile` cuts the file into records first, so to speak, and decrypts them then. -/
theorem readLoop_eq_decryptFrames (fuel : Nat) (data : Bytes) :
    readLoop aead enc fuel data = decryptFrames aead enc (frames fuel data) := by
  induction fuel generalizing data with
  | zero => rfl
  | succ fuel ih =>
    unfold readLoop frames
    dsimp only
    split_ifs with hshort hlen
    · rfl
    · rfl
    · rewrite [decryptFrames, ih]
      rcases enc.decrypt aead (data.take (4 + (uint32 data).toNat)) with (msg | msg) | plaintext
      · rfl
      · rfl
      · rfl

/-- The record is complete but too short to hold a nonce, and the encryptor has a key for its version: the slices of
`Decrypt` are out of range. -/
def Overruns (r : Bytes) : Prop :=
  8 ≤ r.length ∧ r.length < 20 ∧ ∃ key ∈ enc.keyCache (uint32 (r.drop 4)), newCipher key = none

instance (r : Bytes) : Decidable (Overruns enc r) :=
  inferInstanceAs (Decidable (_ ∧ _ ∧ ∃ key ∈ enc.keyCache (uint32 (r.drop 4)), newCipher key = none))

end Reading

variable {aead : Aead} {enc : WALEncryptor}

/-- For a complete record the length field says nothing new. -/
theorem outOfRange_iff_overruns {r : Bytes} (hr : r.length = 4 + (uint32 r).toNat) :
    enc.OutOfRange r ↔ Overruns enc r := by
  have hkey : enc.usableKey r ≠ none ↔ ∃ key ∈ enc.keyCache (uint32 (r.drop 4)), newCipher key = none := by
    simp [WALEncryptor.usableKey, Option.filter_eq_none_iff]
  unfold WALEncryptor.OutOfRange Overruns
  rw [hkey]
  constructor
  · rintro ⟨hlen, -, hnonce, hkey⟩
    exact ⟨hlen, by omega, hkey⟩
  · rintro ⟨hlen, hlt, hkey⟩
    exact ⟨hlen, by omega, by omega, hkey⟩

theorem decrypt_panic_iff {r : Bytes} (hr : r.length = 4 + (uint32 r).toNat) :
    (∃ msg, enc.decrypt aead r = .error (.panic msg)) ↔ Overruns enc r :=
  (WALEncryptor.decrypt_panic_iff_outOfRange aead).trans (outOfRange_iff_overruns hr)

/-! ### What is read from the corrupted file -/

/-- A record that does not decrypt ends the file, or the reader panics. -/
private theorem decryptFrames_cons_of_fails {r : Bytes} (hr : r.length = 4 + (uint32 r).toNat)
    (hfails : ∀ p, enc.decrypt aead r ≠ .ok p) (rs : List Bytes) :
    (Overruns enc r ∧ ∃ msg, decryptFrames aead enc (r :: rs) = .error (.panic msg)) ∨
      (¬ Overruns enc r ∧ decryptFrames aead enc (r :: rs) = .ok []) := by
  have hpanic := @decrypt_panic_iff aead enc r hr
  unfold decryptFrames
  cases hdec : enc.decrypt aead r with
  | ok p => exact absurd hdec (hfails p)
  | error failure =>
    rw [hdec] at hpanic
    cases failure with
    | error msg =>
      refine .inr ⟨fun ho => ?_, rfl⟩
      obtain ⟨_, hm⟩ := hpanic.2 ho
      cases hm
    | panic msg => exact .inl ⟨hpanic.1 ⟨msg, rfl⟩, msg, rfl⟩

/-- When nothing decrypts but the records of `old`, those at the front are read, and then the file is over, or the
reader panics. -/
theorem decryptFrames_authentic {old new : List Bytes} (hold : ∀ r ∈ old, ∃ p, Readable aead enc p r)
    (hnew : ∀ r ∈ new, r.length = 4 + (uint32 r).toNat)
    (hauth : ∀ r ∈ new, ∀ p, enc.decrypt aead r = .ok p → r ∈ old) :
    ∃ qs, List.Forall₂ (Readable aead enc) qs (new.takeWhile old.contains) ∧
      (((∃ r ∈ new[(new.takeWhile old.contains).length]?, Overruns enc r) ∧
          ∃ msg, decryptFrames aead enc new = .error (.panic msg)) ∨
        ((¬ ∃ r ∈ new[(new.takeWhile old.contains).length]?, Overruns enc r) ∧
          decryptFrames aead enc new = .ok qs)) := by
  induction new with
  | nil => exact ⟨[], .nil, .inr ⟨by simp, rfl⟩⟩
  | cons r new ih =>
    rw [List.forall_mem_cons] at hnew hauth
    by_cases hr : r ∈ old
    · obtain ⟨p, hp⟩ := hold r hr
      obtain ⟨qs, hqs, hread⟩ := ih hnew.2 hauth.2
      rw [List.takeWhile_cons_of_pos (by simpa using hr), List.length_cons, List.getElem?_cons_succ]
      refine ⟨p :: qs, .cons hp hqs, ?_⟩
      rw [decryptFrames, hp.decrypt]
      rcases hread with ⟨ho, msg, hmsg⟩ | ⟨ho, hok⟩
      · exact .inl ⟨ho, msg, by rw [hmsg]⟩
      · exact .inr ⟨ho, by rw [hok]⟩
    · rw [List.takeWhile_cons_of_neg (by simpa using hr)]
      refine ⟨[], .nil, ?_⟩
      simpa using decryptFrames_cons_of_fails hnew.1 (fun p hp => hr (hauth.1 p hp)) new

/-! ### What is read from the log -/

theorem readFiles_append {dir : Dir} {files files' : List WalFileInfo} {results : List Bytes}
    (h : readFiles aead enc dir files = .ok results) :
    readFiles aead enc dir (files ++ files') =
      match readFiles aead enc dir files' with
      | .error err => .error err
      | .ok results' => .ok (results ++ results') := by
  induction files generalizing results with
  | nil =>
    obtain rfl := Except.ok.inj h
    rw [List.nil_append]
    cases readFiles aead enc dir files' <;> rfl
  | cons file files ih =>
    rw [readFiles] at h
    rw [List.cons_append, readFiles]
    cases hfile : readFile aead enc dir file.name with
    | error err =>
      rw [hfile] at h
      cases err <;> cases h
    | ok data =>
      rw [hfile] at h
      dsimp only at h ⊢
      cases hrest : readFiles aead enc dir files with
      | error err =>
        rw [hrest] at h
        cases h
      | ok rest =>
        rw [hrest] at h
        obtain rfl := Except.ok.inj h
        rw [ih hrest]
        cases readFiles aead enc dir files' with
        | error err => rfl
        | ok results' => exact congrArg Except.ok (List.append_assoc ..).symm

private theorem numbered_replace {olds news : Dir} {f : File} {first : Nat}
    (h : Dir.Numbered (olds ++ f :: news) first) (bytes : Bytes) :
    Dir.Numbered (olds ++ { f with data := bytes } :: news) first := by
  unfold Dir.Numbered at h ⊢
  rw [List.map_append, List.map_cons] at h ⊢
  rw [List.length_append, List.length_cons] at h ⊢
  exact h

/-- One file of a stored log has other bytes: the files before and after it are read as ever. -/
theorem readAll_replaced {olds news : Dir} {f : File} {first : Nat}
    (hnum : Dir.Numbered (olds ++ f :: news) first) (hlt : first + (olds ++ f :: news).length ≤ 10 ^ 6)
    {before later : List (List Bytes)} (hbefore : List.Forall₂ (History.FileHolds aead enc) olds before)
    (hlater : List.Forall₂ (History.FileHolds aead enc) news later) (bytes : Bytes) :
    readAll aead enc (olds ++ { f with data := bytes } :: news) =
      match decryptFrames aead enc (fileFrames bytes) with
      | .error (.error err) => .error (.error ("failed to read file " ++ f.name ++ ": " ++ err))
      | .error (.panic msg) => .error (.panic msg)
      | .ok results => .ok (before.flatten ++ (results ++ later.flatten)) := by
  have hnum' := numbered_replace hnum bytes
  have hlt' : first + (olds ++ { f with data := bytes } :: news).length ≤ 10 ^ 6 := by
    rw [List.length_append, List.length_cons] at hlt ⊢
    exact hlt
  have holds : readFiles aead enc (olds ++ { f with data := bytes } :: news) (olds.map File.toInfo) =
      .ok before.flatten :=
    readFiles_of_holds hnum' (fun g hg => List.mem_append_left _ hg) hbefore
  have hnews : readFiles aead enc (olds ++ { f with data := bytes } :: news) (news.map File.toInfo) =
      .ok later.flatten :=
    readFiles_of_holds hnum' (fun g hg => List.mem_append_right _ (List.mem_cons_of_mem _ hg)) hlater
  have hfile : readFile aead enc (olds ++ { f with data := bytes } :: news)
      (File.toInfo { f with data := bytes }).name = decryptFrames aead enc (fileFrames bytes) := by
    have hmem : { f with data := bytes } ∈ olds ++ { f with data := bytes } :: news :=
      List.mem_append_right _ (List.mem_cons_self ..)
    rw [readFile, show (File.toInfo { f with data := bytes }).name = ({ f with data := bytes } : File).name from rfl,
      hnum'.lookup_name hmem]
    exact readLoop_eq_decryptFrames aead enc _ bytes
  rw [readAll, hnum'.getWALFiles_readDir hlt', List.map_append, List.map_cons, readFiles_append holds,
    readFiles, hfile, hnews]
  cases decryptFrames aead enc (fileFrames bytes) with
  | error failure => cases failure <;> rfl
  | ok results => rfl

/-- `ReadAll` returns an error or a prefix of what was written. -/
def ErrorOrPrefix (written : List Bytes) : Except Failure (List Bytes) → Prop
  | .error (.error _) => True
  | .error (.panic _) => False
  | .ok results => results <+: written

/-! ### The records of a log and their payloads -/

theorem History.FileHolds.frames {f : File} {ps : List Bytes} (h : History.FileHolds aead enc f ps) :
    List.Forall₂ (Readable aead enc) ps (fileFrames f.data) := by
  obtain ⟨rest, htorn, records, hrecords, hdata⟩ := h
  have hframes : fileFrames f.data = records := by
    rw [hdata]
    exact frames_of_records hrecords htorn (Nat.le_refl _)
  rwa [hframes]

theorem readable_flatMap {dir : Dir} {files : List (List Bytes)}
    (h : List.Forall₂ (History.FileHolds aead enc) dir files) :
    List.Forall₂ (Readable aead enc) files.flatten (dir.flatMap fun f => fileFrames f.data) := by
  induction h with
  | nil => exact .nil
  | cons hf _ ih =>
    rw [List.flatten_cons, List.flatMap_cons]
    exact List.rel_append hf.frames ih

/-- Without a payload that was written twice, no two records hold the same one. -/
theorem eq_of_decrypt_eq {ps rs : List Bytes} (h : List.Forall₂ (Readable aead enc) ps rs) (hps : ps.Nodup)
    {r r' : Bytes} (hr : r ∈ rs) (hr' : r' ∈ rs) (heq : enc.decrypt aead r = enc.decrypt aead r') : r = r' := by
  obtain ⟨i, hi, rfl⟩ := List.getElem_of_mem hr
  obtain ⟨j, hj, rfl⟩ := List.getElem_of_mem hr'
  have hget := (List.forall₂_iff_get.1 h).2
  have hlen := h.length_eq
  have hpi := (hget i (hlen ▸ hi) hi).decrypt
  have hpj := (hget j (hlen ▸ hj) hj).decrypt
  simp only [List.get_eq_getElem] at hpi hpj
  rw [hpi, hpj, Except.ok.injEq, hps.getElem_inj_iff] at heq
  subst heq
  rfl

/-- The payloads of the first records are the first payloads. -/
private theorem payloads_prefix {ps qs rs as : List Bytes} (hp : List.Forall₂ (Readable aead enc) ps rs)
    (hq : List.Forall₂ (Readable aead enc) qs as) (h : as <+: rs) : qs <+: ps := by
  induction hq generalizing ps rs with
  | nil => exact List.nil_prefix
  | @cons q a qs as hqa _ ih =>
    cases hp with
    | nil => cases List.eq_nil_of_prefix_nil h
    | @cons p r ps rs hpr hp =>
      rw [List.cons_prefix_cons] at h ⊢
      obtain ⟨rfl, h⟩ := h
      exact ⟨Except.ok.inj (hqa.decrypt.symm.trans hpr.decrypt), ih hp h⟩

/-- And the other way round, among records of which no two hold the same payload. -/
private theorem records_prefix {all ps qs rs as : List Bytes}
    (hinj : ∀ r ∈ all, ∀ r' ∈ all, enc.decrypt aead r = enc.decrypt aead r' → r = r')
    (hp : List.Forall₂ (Readable aead enc) ps rs) (hrs : rs ⊆ all)
    (hq : List.Forall₂ (Readable aead enc) qs as) (has : as ⊆ all) (h : qs <+: ps) : as <+: rs := by
  induction hq generalizing ps rs with
  | nil => exact List.nil_prefix
  | @cons q a qs as hqa _ ih =>
    cases hp with
    | nil => cases List.eq_nil_of_prefix_nil h
    | @cons p r ps rs hpr hp =>
      rw [List.cons_subset] at hrs has
      rw [List.cons_prefix_cons] at h ⊢
      obtain ⟨rfl, h⟩ := h
      exact ⟨hinj a has.1 r hrs.1 (hqa.decrypt.trans hpr.decrypt.symm), ih hp hrs.2 has.2 h⟩

/-- What follows two lists without repetitions follows the first one where it follows the second. -/
private theorem front_of_append_prefix {ps qs ls : List Bytes} (hnodup : (ps ++ ls).Nodup)
    (h : qs ++ ls <+: ps ++ ls) : qs <+: ps ∧ (qs = ps ∨ ls = []) := by
  have hlen := h.length_le
  rw [List.length_append, List.length_append] at hlen
  have hfront : qs <+: ps := List.prefix_of_prefix_length_le ((List.prefix_append qs ls).trans h)
    (List.prefix_append ps ls) (by omega)
  refine ⟨hfront, ?_⟩
  obtain ⟨ds, rfl⟩ := hfront
  rw [List.append_assoc, List.prefix_append_right_inj] at h
  cases ls with
  | nil => exact .inr rfl
  | cons l ls =>
    cases ds with
    | nil => exact .inl (List.append_nil qs).symm
    | cons d ds =>
      -- the next payload of the file would be that of the later ones
      rw [List.cons_append, List.cons_prefix_cons] at h
      obtain ⟨rfl, -⟩ := h
      exact absurd hnodup (by simp [List.nodup_append])

/-- The file is read as far as it is authentic, and the later files after it. -/
private theorem payloads_append_prefix {ps qs rs as ls : List Bytes} (hp : List.Forall₂ (Readable aead enc) ps rs)
    (hq : List.Forall₂ (Readable aead enc) qs as) (h : as <+: rs ∧ (as = rs ∨ ls = [])) :
    qs ++ ls <+: ps ++ ls := by
  have hfront := payloads_prefix hp hq h.1
  rcases h.2 with rfl | rfl
  · have hsame : qs.length = ps.length := hq.length_eq.trans hp.length_eq.symm
    exact hfront.eq_of_length hsame ▸ List.prefix_rfl
  · rwa [List.append_nil, List.append_nil]

/-- And the other way round. -/
private theorem records_append_prefix {all ps qs rs as ls : List Bytes}
    (hinj : ∀ r ∈ all, ∀ r' ∈ all, enc.decrypt aead r = enc.decrypt aead r' → r = r')
    (hp : List.Forall₂ (Readable aead enc) ps rs) (hrs : rs ⊆ all)
    (hq : List.Forall₂ (Readable aead enc) qs as) (has : as ⊆ all) (hnodup : (ps ++ ls).Nodup)
    (h : qs ++ ls <+: ps ++ ls) : as <+: rs ∧ (as = rs ∨ ls = []) := by
  obtain ⟨hfront, hrest⟩ := front_of_append_prefix hnodup h
  have hrecords := records_prefix hinj hp hrs hq has hfront
  refine ⟨hrecords, hrest.imp_left fun heq => hrecords.eq_of_length ?_⟩
  exact hq.length_eq.symm.trans ((congrArg List.length heq).trans hp.length_eq)

namespace History

/-- The records of a log. -/
def records (s : History) : List Bytes := s.dir.flatMap fun f => fileFrames f.data

/-- The records of the log at the front of some bytes. -/
def authentic (s : History) (bytes : Bytes) : List Bytes := (fileFrames bytes).takeWhile s.records.contains

/-- The authentic records at the front are the first ones of the old file, the one behind them does not overrun, and
unless none is missing, there are no records in the later files. -/
def Continues (s : History) (old : Bytes) (news : Dir) (bytes : Bytes) : Prop :=
  (¬ ∃ r ∈ (fileFrames bytes)[(s.authentic bytes).length]?, Overruns s.enc r) ∧
    s.authentic bytes <+: fileFrames old ∧
    (s.authentic bytes = fileFrames old ∨ ∀ g ∈ news, fileFrames g.data = [])

instance (s : History) (old : Bytes) (news : Dir) (bytes : Bytes) : Decidable (s.Continues old news bytes) :=
  inferInstanceAs (Decidable (_ ∧ _ ∧ _))

variable {config : WALConfig}

/-- The parts of a log of which nothing was deleted: the files before one of them, that one, and those after it. -/
private theorem Inv.split {s : History} (h : s.Inv aead config) (hkept : s.dir.length = s.files.length)
    {olds news : Dir} {f : File} (hdir : s.dir = olds ++ f :: news) :
    Dir.Numbered (olds ++ f :: news) 1 ∧ List.Forall₂ (FileHolds aead s.enc) s.dir s.files ∧
      ∃ before ps later, s.files = before ++ ps :: later ∧ List.Forall₂ (FileHolds aead s.enc) olds before ∧
        FileHolds aead s.enc f ps ∧ List.Forall₂ (FileHolds aead s.enc) news later := by
  obtain ⟨d, hstored, _⟩ := h.stored
  obtain rfl := hstored.eq_zero_of_length_eq hkept
  have hholds := hstored.holds
  have hnum := hstored.numbered
  rw [hdir] at hnum
  rw [List.drop_zero] at hholds
  refine ⟨hnum, hholds, ?_⟩
  rw [hdir] at hholds
  have hbefore := List.forall₂_take olds.length hholds
  have hrest := List.forall₂_drop olds.length hholds
  rw [List.take_left] at hbefore
  rw [List.drop_left] at hrest
  cases hfiles : s.files.drop olds.length with
  | nil => rw [hfiles] at hrest; cases hrest
  | cons ps later =>
    rw [hfiles] at hrest
    obtain ⟨hf, hlater⟩ := List.forall₂_cons.1 hrest
    exact ⟨s.files.take olds.length, ps, later, by rw [← hfiles, List.take_append_drop], hbefore, hf, hlater⟩

/-- After any history that made fewer than a million files, all of which are still there, the bytes of one file are
replaced by others, in which nothing decrypts but records of the log.  `ReadAll` returns an error or a prefix of what
was written if the file `Continues`, and only then if no payload was written twice. -/
theorem readAll_corrupted_iff (hmax : 1 ≤ config.maxFiles) (e : WALEncryptor) {es : List Event}
    (hes : Admits (step aead config) (fun s ev => s.Admissible aead config ev ∧ s.NextFree ev) (start e) es)
    {s : History} (hs : s = exec (step aead config) (start e) es) (hkept : s.dir.length = s.files.length)
    {olds news : Dir} {f : File} (hdir : s.dir = olds ++ f :: news) (bytes : Bytes)
    (hauth : ∀ r ∈ fileFrames bytes, ∀ p, s.enc.decrypt aead r = .ok p → r ∈ s.records) :
    (s.Continues f.data news bytes →
      ErrorOrPrefix s.acked (readAll aead s.enc (olds ++ { f with data := bytes } :: news))) ∧
    (s.acked.Nodup →
      (ErrorOrPrefix s.acked (readAll aead s.enc (olds ++ { f with data := bytes } :: news)) ↔
        s.Continues f.data news bytes)) := by
  have h := Run.invariant (inv_step hmax) (inv_start e) hes
  rw [← hs] at h
  obtain ⟨hnum, hholds, before, ps, later, hfiles, hbefore, hf, hlater⟩ := h.split hkept hdir
  have hall : List.Forall₂ (Readable aead s.enc) s.acked s.records := h.acked ▸ readable_flatMap hholds
  have hreadable : ∀ r ∈ s.records, ∃ p, Readable aead s.enc p r := by
    intro r hr
    obtain ⟨i, hi, rfl⟩ := List.getElem_of_mem hr
    exact ⟨_, (List.forall₂_iff_get.1 hall).2 i (hall.length_eq ▸ hi) hi⟩
  have hlt : 1 + (olds ++ f :: news).length ≤ 10 ^ 6 := by
    have := h.count
    rw [← hdir, hkept]
    omega
  have hacked : s.acked = before.flatten ++ (ps ++ later.flatten) := by
    rw [h.acked, hfiles, List.flatten_append, List.flatten_cons]
  have hnone : (∀ g ∈ news, fileFrames g.data = []) ↔ later.flatten = [] := by
    have hlen := (readable_flatMap hlater).length_eq
    rw [← List.length_eq_zero_iff, hlen, List.length_eq_zero_iff, List.flatMap_eq_nil_iff]
  have hnew : ∀ r ∈ fileFrames bytes, r.length = 4 + (uint32 r).toNat := fun r hr => length_of_mem_frames hr
  obtain ⟨qs, hqs, hread⟩ := decryptFrames_authentic hreadable hnew hauth
  unfold Continues
  rw [readAll_replaced hnum hlt hbefore hlater bytes]
  rcases hread with ⟨ho, msg, hmsg⟩ | ⟨ho, hok⟩
  · rw [hmsg]
    exact ⟨fun hc => absurd ho hc.1, fun _ => ⟨fun hfalse => absurd hfalse id, fun hc => absurd ho hc.1⟩⟩
  · rw [hok]
    have hcut : ErrorOrPrefix s.acked (.ok (before.flatten ++ (qs ++ later.flatten))) ↔
        qs ++ later.flatten <+: ps ++ later.flatten := by
      show _ <+: s.acked ↔ _
      rw [hacked, List.prefix_append_right_inj]
    have hsuff : s.authentic bytes <+: fileFrames f.data ∧
        (s.authentic bytes = fileFrames f.data ∨ later.flatten = []) →
          qs ++ later.flatten <+: ps ++ later.flatten := payloads_append_prefix hf.frames hqs
    rw [hcut, hnone]
    refine ⟨fun hc => hsuff hc.2, fun hnodup => ⟨fun hread => ⟨ho, ?_⟩, fun hc => hsuff hc.2⟩⟩
    have hps : (ps ++ later.flatten).Nodup := (hacked ▸ hnodup).of_append_right
    have hold : fileFrames f.data ⊆ s.records := fun r hr =>
      List.mem_flatMap.2 ⟨f, hdir ▸ List.mem_append_right _ (List.mem_cons_self ..), hr⟩
    have hmem : s.authentic bytes ⊆ s.records := fun r hr => by simpa using List.mem_takeWhile_imp hr
    exact records_append_prefix (fun r hr r' hr' => eq_of_decrypt_eq hall hnodup hr hr') hf.frames hold hqs hmem hps
      hread

/-- Room for several records in a file; a roll by time. -/
def timedFiles : WALConfig := { smallFiles with maxFileSize := 1000 }

/-- Three payloads, the first one in a file and the other two in another. -/
def threeWrites : List Event :=
  [.restart 0, .write 1 1 KeyRun.randomNonce [97], .write 1500 1500 KeyRun.randomNonce [98],
    .write 1501 1501 KeyRun.randomNonce [99]]

def threePayloads : History := exec (step AesGcm.aead timedFiles) (start KeyRun.secretEncryptor) threeWrites

/-- A file of a log by its position. -/
def fileAt (s : History) (i : Nat) : File := s.dir[i]?.getD ⟨"", [], 0⟩

private theorem dir_eq_of_length {s : History} (h : s.dir.length = 2) : s.dir = [s.fileAt 0, s.fileAt 1] := by
  unfold fileAt
  match s.dir, h with
  | [f, g], _ => rfl

/-- The bytes of the second file with another one at the end of its last record. -/
def damagedBytes : Bytes := (threePayloads.fileAt 1).data.modify 73 (· + 1)

def damagedFile : File := { threePayloads.fileAt 1 with data := damagedBytes }

private theorem threePayloads_spec :
    (Admits (step AesGcm.aead timedFiles) (fun s ev => s.Admissible AesGcm.aead timedFiles ev ∧ s.NextFree ev)
        (start KeyRun.secretEncryptor) threeWrites ∧
      threePayloads.acked = [[97], [98], [99]] ∧ threePayloads.dir.length = 2 ∧ threePayloads.files.length = 2) ∧
    (∀ r ∈ fileFrames damagedBytes,
      r ∈ threePayloads.records ∨ (threePayloads.enc.decrypt AesGcm.aead r).toOption = none) ∧
    threePayloads.Continues (threePayloads.fileAt 1).data [] damagedBytes ∧
    readAll AesGcm.aead threePayloads.enc [threePayloads.fileAt 0, damagedFile] = .ok [[97], [98]] := by
  decide +kernel

/-- The last record of the second file is damaged: the payloads before it are returned. -/
theorem readAll_last_damaged :
    threePayloads.acked = [[97], [98], [99]] ∧
    readAll AesGcm.aead threePayloads.enc [threePayloads.fileAt 0, damagedFile] = .ok [[97], [98]] ∧
    ErrorOrPrefix threePayloads.acked
      (readAll AesGcm.aead threePayloads.enc [threePayloads.fileAt 0, damagedFile]) := by
  obtain ⟨⟨hadmits, hacked, hlen, hfiles⟩, hdecrypt, hcontinues, hread⟩ := threePayloads_spec
  have hauth : ∀ r ∈ fileFrames damagedBytes, ∀ p, threePayloads.enc.decrypt AesGcm.aead r = .ok p →
      r ∈ threePayloads.records :=
    fun r hr p hp => (hdecrypt r hr).resolve_right (by rw [hp]; nofun)
  have hdir : threePayloads.dir = [threePayloads.fileAt 0] ++ threePayloads.fileAt 1 :: [] := dir_eq_of_length hlen
  have h := readAll_corrupted_iff (by decide) KeyRun.secretEncryptor hadmits threePayloads.eq_1
    (hlen.trans hfiles.symm) hdir damagedBytes hauth
  rw [List.singleton_append, ← damagedFile, hread] at h
  rw [hread]
  exact ⟨hacked, rfl, h.1 hcontinues⟩

/-- Two payloads, each in a file of its own. -/
def twoWrites : List Event :=
  [.restart 0, .write 1 1 KeyRun.randomNonce [97], .write 2 2 KeyRun.randomNonce [98]]

def twoFiles : History := exec (step AesGcm.aead smallFiles) (start KeyRun.secretEncryptor) twoWrites

private theorem twoFiles_spec :
    twoFiles.acked = [[97], [98]] ∧ twoFiles.dir.length = 2 ∧ readAll AesGcm.aead twoFiles.enc
      [{ twoFiles.fileAt 0 with data := (twoFiles.fileAt 0).data.take 5 }, twoFiles.fileAt 1] = .ok [[98]] := by
  decide +kernel

/-- The first file is cut to five bytes: the payload of the second one is all that is returned. -/
theorem readAll_first_truncated :
    twoFiles.acked = [[97], [98]] ∧ twoFiles.dir = [twoFiles.fileAt 0, twoFiles.fileAt 1] ∧
    readAll AesGcm.aead twoFiles.enc
      [{ twoFiles.fileAt 0 with data := (twoFiles.fileAt 0).data.take 5 }, twoFiles.fileAt 1] = .ok [[98]] ∧
    ¬ ErrorOrPrefix twoFiles.acked (readAll AesGcm.aead twoFiles.enc
      [{ twoFiles.fileAt 0 with data := (twoFiles.fileAt 0).data.take 5 }, twoFiles.fileAt 1]) := by
  obtain ⟨hacked, hlen, hread⟩ := twoFiles_spec
  refine ⟨hacked, dir_eq_of_length hlen, hread, ?_⟩
  rw [hacked, hread]
  show ¬ [[98]] <+: [[97], [98]]
  decide

end History

end DistributedBloomFilter
