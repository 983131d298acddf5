import DistributedBloomFilter.Raft.Logged
import DistributedBloomFilter.Wal.BatchOrder

/-!
# Batches and records

The asynchronous writer over the files of a `History`.  `doFlush` joins the payloads of a batch and writes them as one
record, so that what `ReadAll` returns after `Close` are the batches that have bytes.  They are the payloads exactly
when every batch is a single payload that is not empty, which is so when every `WriteAsync` finds the buffer empty
(`Alone`).
-/

namespace DistributedBloomFilter

open Run (exec Admits)

namespace AsyncWALWriter

open SliceOps (arrays values)

section Model

variable (aead : Aead)

/-- The embedded `WALWriter` on its files. -/
def fileLog : WalOps History WriteInput where
  write := History.walWrite aead defaultWALConfig
  close h := ({ h with writer := none }, none)

/-- A new log in an empty directory. -/
def newLog (enc : WALEncryptor) (now : Time) : History :=
  (History.start enc).step aead defaultWALConfig (.restart now)

variable {M B W I : Type} (ops : SliceOps M B WalEntry)

/-- One flush at a time, no write that fails, and no file removed. -/
structure Calm (s : AsyncWALWriter M B History) (e : Event WriteInput) : Prop where
  one : (s.step ops (fileLog aead) e).flights.length ≤ 1
  writes : ∀ o t, e = .write o t → ∀ entries, (o, [entries]) ∈ s.lots ops → s.wal.Writes aead t (batchData entries)
  kept : (s.step ops (fileLog aead) e).wal.NoneDeleted

/-- A `WriteAsync` finds the buffer empty, and its payload is not empty and fits a record. -/
def Alone (s : AsyncWALWriter M B W) : Event I → Prop
  | .writeAsync data _ _ => ops.read s.mem s.buffer = [] ∧ data ≠ [] ∧ data.length < 2 ^ 32 - 64
  | _ => True

end Model

variable {aead : Aead} {W I : Type} {wal : WalOps W I}

/-! ### Single payloads -/

/-- One payload, which is not empty and fits a record. -/
def Single (batch : List WalEntry) : Prop := ∃ e, batch = [e] ∧ e.data ≠ [] ∧ e.data.length < 2 ^ 32 - 64

/-- Every batch is a single payload, and so is the buffer if it is not empty. -/
def Singles (s : AsyncWALWriter Unit (List WalEntry) W) : Prop :=
  (∀ b ∈ s.log.batches, Single b) ∧ (s.buffer = [] ∨ Single s.buffer)

/-- The events that touch neither the buffer nor the embedded writer. -/
private theorem step_quiet (s : AsyncWALWriter Unit (List WalEntry) W) (e : Event I)
    (he : e = .signal ∨ (∃ arm, e = .select arm) ∨ (∃ o, e = .callback o) ∨ e = .close) :
    ((s.step (values WalEntry) wal e).log.batches = s.log.batches ∧
        (s.step (values WalEntry) wal e).buffer = s.buffer) ∧
      (s.step (values WalEntry) wal e).wal = s.wal ∧
      (s.step (values WalEntry) wal e).log.writes = s.log.writes := by
  rcases he with rfl | ⟨arm, rfl⟩ | ⟨o, rfl⟩ | rfl
  · unfold step signal
    dsimp only
    split <;> exact ⟨⟨rfl, rfl⟩, rfl, rfl⟩
  · exact ⟨⟨rfl, rfl⟩, rfl, rfl⟩
  · unfold step callback
    dsimp only
    split
    · split <;> exact ⟨⟨rfl, rfl⟩, rfl, rfl⟩
    · exact ⟨⟨rfl, rfl⟩, rfl, rfl⟩
  · unfold step close
    dsimp only
    split <;> exact ⟨⟨rfl, rfl⟩, rfl, rfl⟩

/-- What a step does to the buffer and the batches. -/
private theorem batches_step (s : AsyncWALWriter Unit (List WalEntry) W) (e : Event I) :
    (∃ data callback spare, e = .writeAsync data callback spare ∧
        (s.step (values WalEntry) wal e).log.batches = s.log.batches ∧
        (s.step (values WalEntry) wal e).buffer = s.buffer ++ [⟨s.log.appended.length, data, callback⟩]) ∨
      s.Alone (values WalEntry) e ∧
        ((s.step (values WalEntry) wal e).log.batches = s.log.batches ∧
            (s.step (values WalEntry) wal e).buffer = s.buffer ∨
          s.buffer ≠ [] ∧ (s.step (values WalEntry) wal e).log.batches = s.log.batches ++ [s.buffer] ∧
            (s.step (values WalEntry) wal e).buffer = []) := by
  cases e with
  | writeAsync data callback spare => exact .inl ⟨data, callback, spare, rfl, rfl, rfl⟩
  | signal => exact .inr ⟨trivial, .inl (step_quiet s _ (.inl rfl)).1⟩
  | select arm => exact .inr ⟨trivial, .inl (step_quiet s _ (.inr (.inl ⟨arm, rfl⟩))).1⟩
  | callback o => exact .inr ⟨trivial, .inl (step_quiet s _ (.inr (.inr (.inl ⟨o, rfl⟩)))).1⟩
  | close => exact .inr ⟨trivial, .inl (step_quiet s _ (.inr (.inr (.inr rfl)))).1⟩
  | flush t =>
    refine .inr ⟨trivial, ?_⟩
    show (s.flush _ t).log.batches = _ ∧ (s.flush _ t).buffer = _ ∨
      _ ∧ (s.flush _ t).log.batches = _ ∧ (s.flush _ t).buffer = _
    rcases flush_cases s t with heq | ⟨hne, -, heq⟩
    · rw [heq]
      exact .inl ⟨rfl, rfl⟩
    · rw [heq]
      exact .inr ⟨hne, rfl, rfl⟩
  | flushFromBuffer =>
    refine .inr ⟨trivial, ?_⟩
    show (s.flushFromBuffer _).log.batches = _ ∧ (s.flushFromBuffer _).buffer = _ ∨
      _ ∧ (s.flushFromBuffer _).log.batches = _ ∧ (s.flushFromBuffer _).buffer = _
    rcases flushFromBuffer_cases s with ⟨heq, -⟩ | ⟨stop, -, ⟨-, heq⟩ | ⟨hne, heq⟩⟩
    · rw [heq]
      exact .inl ⟨rfl, rfl⟩
    · rw [heq]
      exact .inl ⟨rfl, rfl⟩
    · rw [heq]
      exact .inr ⟨hne, rfl, rfl⟩
  | write o input =>
    refine .inr ⟨trivial, .inl ?_⟩
    unfold step write
    dsimp only
    split
    · split <;> exact ⟨rfl, rfl⟩
    · exact ⟨rfl, rfl⟩
  | closeWal =>
    refine .inr ⟨trivial, .inl ?_⟩
    unfold step closeWal
    dsimp only
    split <;> exact ⟨rfl, rfl⟩

private theorem single_concat_iff {buffer : List WalEntry} {e : WalEntry} :
    Single (buffer ++ [e]) ↔ buffer = [] ∧ e.data ≠ [] ∧ e.data.length < 2 ^ 32 - 64 := by
  constructor
  · rintro ⟨e', heq, hne, hlen⟩
    rcases List.append_eq_singleton_iff.1 heq with ⟨hnil, he⟩ | ⟨-, he⟩
    · obtain rfl := List.singleton_inj.1 he
      exact ⟨hnil, hne, hlen⟩
    · cases he
  · rintro ⟨rfl, hne, hlen⟩
    exact ⟨e, rfl, hne, hlen⟩

/-- A batch of two entries or without bytes is never undone. -/
theorem singles_step_iff (s : AsyncWALWriter Unit (List WalEntry) W) (e : Event I) :
    Singles (s.step (values WalEntry) wal e) ↔ Singles s ∧ s.Alone (values WalEntry) e := by
  unfold Singles
  rcases @batches_step W I wal s e with
    ⟨data, callback, spare, rfl, hbatches, hbuffer⟩ | ⟨halone, ⟨hbatches, hbuffer⟩ | ⟨hne, hbatches, hbuffer⟩⟩
  · rw [hbatches, hbuffer, single_concat_iff]
    show _ ↔ _ ∧ s.buffer = [] ∧ data ≠ [] ∧ data.length < 2 ^ 32 - 64
    constructor
    · rintro ⟨hb, hnil | ⟨hnil, hdata⟩⟩
      · exact absurd hnil (List.append_ne_nil_of_right_ne_nil _ (List.cons_ne_nil _ _))
      · exact ⟨⟨hb, .inl hnil⟩, hnil, hdata⟩
    · rintro ⟨⟨hb, -⟩, hnil, hdata⟩
      exact ⟨hb, .inr ⟨hnil, hdata⟩⟩
  · rw [hbatches, hbuffer]
    exact (and_iff_left halone).symm
  · rw [hbatches, hbuffer, and_iff_left halone, List.forall_mem_append, List.forall_mem_singleton,
      and_iff_left (.inl rfl)]
    refine and_congr_right fun _ => ?_
    exact (or_iff_right hne).symm

/-- The batches taken by then are taken for good, and none of them is empty. -/
private theorem batches_exec (wal : WalOps W I) {s : AsyncWALWriter Unit (List WalEntry) W} (es : List (Event I)) :
    s.log.batches ⊆ (exec (step (values WalEntry) wal) s es).log.batches ∧
      ((∀ b ∈ s.log.batches, b ≠ []) → ∀ b ∈ (exec (step (values WalEntry) wal) s es).log.batches, b ≠ []) := by
  induction es generalizing s with
  | nil => exact ⟨fun _ h => h, fun h => h⟩
  | cons e es ih =>
    obtain ⟨hsub, hne⟩ := @ih (s.step (values WalEntry) wal e)
    rcases @batches_step W I wal s e with
      ⟨_, _, _, rfl, hbatches, -⟩ | ⟨-, ⟨hbatches, -⟩ | ⟨hbuffer, hbatches, -⟩⟩ <;> rw [hbatches] at hsub hne
    · exact ⟨hsub, hne⟩
    · exact ⟨hsub, hne⟩
    · refine ⟨fun b hb => hsub (List.mem_append_left _ hb), fun h => hne ?_⟩
      exact List.forall_mem_append.2 ⟨h, List.forall_mem_singleton.2 hbuffer⟩

/-! ### What reaches the files -/

/-- With one flush at a time the batches are written in order, and the log has them as its records. -/
structure Tracks (aead : Aead) (s : AsyncWALWriter Unit (List WalEntry) History) : Prop where
  inv : s.Inv
  handed : s.handover.Inv ∧ s.handover.Ordered
  one : s.flights.length ≤ 1
  log : s.wal.Inv aead defaultWALConfig
  kept : s.wal.NoneDeleted
  few : s.wal.dir.length ≤ defaultWALConfig.maxFiles.toNat
  acked : s.wal.acked = s.log.writes.map fun p => batchData p.1

variable {s : AsyncWALWriter Unit (List WalEntry) History}

/-- A flush that is alone is in its turn. -/
private theorem inTurn_of_one (h : s.flights.length ≤ 1) (e : Event WriteInput) : s.InTurn (values WalEntry) e := by
  have hlots : ∃ o units, s.lots (values WalEntry) = [] ∨ s.lots (values WalEntry) = [(o, units)] := by
    unfold lots
    match s.flights, h with
    | [], _ => exact ⟨.loop, [], .inl rfl⟩
    | [⟨o, entries, .calling err done⟩], _ => exact ⟨o, [], .inl rfl⟩
    | [⟨o, entries, .writing⟩], _ =>
      refine ⟨o, [entries], ?_⟩
      rw [List.flatMap_singleton]
      by_cases hbytes : hasBytes entries
      · exact .inr (if_pos hbytes)
      · exact .inl (if_neg hbytes)
  obtain ⟨o', units, hnil | hone⟩ := hlots
  · cases e with
    | write o input =>
      intro hmem
      rw [hnil] at hmem
      cases hmem
    | _ => trivial
  · cases e with
    | write o input =>
      intro hmem
      rw [hone] at hmem ⊢
      rw [List.mem_singleton.1 hmem]
      rfl
    | _ => trivial

/-- Only `doFlush` and `Close` call the embedded writer. -/
private theorem wal_step {W I : Type} {wal : WalOps W I} (s : AsyncWALWriter Unit (List WalEntry) W) (e : Event I) :
    (∃ o t, e = .write o t) ∨ e = .closeWal ∨
      (s.step (values WalEntry) wal e).wal = s.wal ∧ (s.step (values WalEntry) wal e).log.writes = s.log.writes := by
  cases e with
  | write o t => exact .inl ⟨o, t, rfl⟩
  | closeWal => exact .inr (.inl rfl)
  | writeAsync data callback spare => exact .inr (.inr ⟨rfl, rfl⟩)
  | signal => exact .inr (.inr (step_quiet s _ (.inl rfl)).2)
  | select arm => exact .inr (.inr (step_quiet s _ (.inr (.inl ⟨arm, rfl⟩))).2)
  | callback o => exact .inr (.inr (step_quiet s _ (.inr (.inr (.inl ⟨o, rfl⟩)))).2)
  | close => exact .inr (.inr (step_quiet s _ (.inr (.inr (.inr rfl)))).2)
  | flush t =>
    unfold step flush
    dsimp only
    split
    · exact .inr (.inr ⟨rfl, rfl⟩)
    · split <;> exact .inr (.inr ⟨rfl, rfl⟩)
  | flushFromBuffer =>
    unfold step flushFromBuffer
    dsimp only
    split
    · split <;> exact .inr (.inr ⟨rfl, rfl⟩)
    · exact .inr (.inr ⟨rfl, rfl⟩)

/-- The log has the batches that were written as its records. -/
structure Logged (aead : Aead) (s : AsyncWALWriter Unit (List WalEntry) History) : Prop where
  log : s.wal.Inv aead defaultWALConfig
  few : s.wal.dir.length ≤ defaultWALConfig.maxFiles.toNat
  acked : s.wal.acked = s.log.writes.map fun p => batchData p.1

private theorem Tracks.logged_of_same (h : Tracks aead s) {s' : AsyncWALWriter Unit (List WalEntry) History}
    (hwal : s'.wal = s.wal) (hwrites : s'.log.writes = s.log.writes) : Logged aead s' :=
  ⟨by rw [hwal]; exact h.log, by rw [hwal]; exact h.few, by rw [hwal, hwrites]; exact h.acked⟩

/-- A batch that is being written is one that was taken, and one that has bytes is still to be written. -/
private theorem Tracks.mem_of_flights (h : Tracks aead s) {o : Flusher} {entries : List WalEntry}
    {l r : List (Flight (List WalEntry))} (hflights : s.flights = l ++ ⟨o, entries, .writing⟩ :: r) :
    entries ∈ s.log.batches ∧ (hasBytes entries = true → (o, [entries]) ∈ s.lots (values WalEntry)) := by
  have hmem : (⟨o, entries, .writing⟩ : Flight (List WalEntry)) ∈ s.flights := by
    rw [hflights]
    exact List.mem_append_right _ List.mem_cons_self
  constructor
  · refine h.inv.flushing.batches.mem_iff.2 (List.mem_append_right _ ?_)
    exact List.mem_map.2 ⟨_, hmem, rfl⟩
  · intro hbytes
    refine List.mem_flatMap.2 ⟨_, hmem, ?_⟩
    show _ ∈ if hasBytes entries then [(o, [entries])] else []
    rw [if_pos hbytes]
    exact List.mem_singleton_self _

/-- A write of `doFlush` puts one record more into the log, or none. -/
private theorem Tracks.logged_write (h : Tracks aead s) {o : Flusher} {t : WriteInput}
    (hcalm : s.Calm aead (values WalEntry) (.write o t))
    (hfits : ∀ b ∈ s.log.batches, (batchData b).length < 2 ^ 32 - 64) :
    Logged aead (s.write (values WalEntry) (fileLog aead) o t) := by
  have hkept : (s.write (values WalEntry) (fileLog aead) o t).wal.NoneDeleted := hcalm.kept
  rcases @write_cases History WriteInput (fileLog aead) s h.inv.flushing.owners o t with
    ⟨heq, -⟩ | ⟨entries, l, r, hflights, -, heq⟩
  · exact h.logged_of_same (by rw [heq]) (by rw [heq])
  obtain ⟨hmem, hlot⟩ := h.mem_of_flights hflights
  cases hbytes : hasBytes entries with
  | false =>
    refine h.logged_of_same ?_ ?_
    · rw [heq]
      dsimp only
      rw [writeBatch_quiet hbytes]
    · rw [heq]
      simp [hbytes]
  | true =>
    have hwrites := hcalm.writes o t rfl entries (hlot hbytes)
    have hwal : (s.write (values WalEntry) (fileLog aead) o t).wal =
        s.wal.step aead defaultWALConfig (.write t.now t.later t.rand (batchData entries)) := by
      rw [heq]
      dsimp only
      rw [writeBatch, if_pos hbytes]
      rfl
    rw [hwal] at hkept
    obtain ⟨hinv, hfew⟩ := History.inv_step_write (by decide) (by decide) h.log h.kept h.few (hfits entries hmem)
      hwrites hkept
    refine ⟨by rw [hwal]; exact hinv, by rw [hwal]; exact hfew, ?_⟩
    rw [hwal, History.acked_step_write hwrites, heq, h.acked]
    simp [hbytes]

/-- `Close` leaves the files as they are. -/
private theorem Tracks.logged_closeWal (h : Tracks aead s) : Logged aead (s.closeWal (fileLog aead)) := by
  have hlog : (History.mk s.wal.enc s.wal.dir none s.wal.acked s.wal.files).Inv aead defaultWALConfig := by
    obtain ⟨d, hstored, -⟩ := h.log.stored
    exact ⟨h.log.acked, h.log.count, d, hstored, fun w hw => absurd hw (Option.not_mem_none w)⟩
  unfold closeWal
  split
  · exact ⟨hlog, h.few, h.acked⟩
  · exact h.logged_of_same rfl rfl

private theorem logged_step (h : Tracks aead s) {e : Event WriteInput} (hcalm : s.Calm aead (values WalEntry) e)
    (hfits : ∀ b ∈ s.log.batches, (batchData b).length < 2 ^ 32 - 64) :
    Logged aead (s.step (values WalEntry) (fileLog aead) e) := by
  rcases @wal_step History WriteInput (fileLog aead) s e with ⟨o, t, rfl⟩ | rfl | ⟨hwal, hwrites⟩
  · exact h.logged_write hcalm hfits
  · exact h.logged_closeWal
  · exact h.logged_of_same hwal hwrites

theorem tracks_step (h : Tracks aead s) {e : Event WriteInput} (hcalm : s.Calm aead (values WalEntry) e)
    (hfits : ∀ b ∈ s.log.batches, (batchData b).length < 2 ^ 32 - 64) :
    Tracks aead (s.step (values WalEntry) (fileLog aead) e) := by
  obtain ⟨hlog, hfew, hacked⟩ := logged_step h hcalm hfits
  obtain ⟨hstep, hturn⟩ := @handover_step History WriteInput (fileLog aead) s h.inv e
  refine ⟨inv_step h.inv e, ?_, hcalm.one, hlog, hcalm.kept, hfew, hacked⟩
  have hkeeps : ∀ (s : Handover Flusher (List WalEntry)) (e : Handover.Event Flusher (List WalEntry)),
      s.Inv ∧ s.Ordered → s.InTurn e → (s.step e).Inv ∧ (s.step e).Ordered :=
    fun s e hs hin => ⟨Handover.inv_step s e hs.1, Handover.ordered_step hs.1 hs.2 hin⟩
  rw [hstep]
  exact Run.invariant hkeeps h.handed (hturn.1 (inTurn_of_one h.one e))

/-- After a run in which every batch fits a record. -/
theorem tracks_exec (h : Tracks aead s) {es : List (Event WriteInput)}
    (hcalm : Admits (step (values WalEntry) (fileLog aead)) (Calm aead (values WalEntry)) s es)
    (hfits : ∀ b ∈ (exec (step (values WalEntry) (fileLog aead)) s es).log.batches,
      (batchData b).length < 2 ^ 32 - 64) :
    Tracks aead (exec (step (values WalEntry) (fileLog aead)) s es) := by
  induction es generalizing s with
  | nil => exact h
  | cons e es ih =>
    have hnow : ∀ b ∈ s.log.batches, (batchData b).length < 2 ^ 32 - 64 :=
      fun b hb => hfits b ((batches_exec (fileLog aead) (e :: es)).1 hb)
    exact ih (tracks_step h hcalm.1 hnow) hcalm.2 hfits

theorem tracks_start (enc : WALEncryptor) (maxBatchSize : Nat) (now : Time) :
    Tracks aead (start () [] maxBatchSize (newLog aead enc now)) := by
  have hmax : 1 ≤ defaultWALConfig.maxFiles := by decide
  obtain ⟨w, g, hnew, hinv⟩ := History.new_log aead hmax enc now
  refine ⟨inv_start _ _, ⟨Handover.inv_start, rfl⟩, Nat.zero_le _, hinv, ?_, ?_, ?_⟩
  · show History.NoneDeleted (History.step _ _ _ _)
    rw [hnew]
    rfl
  · show (History.step _ _ _ _).dir.length ≤ _
    rw [hnew]
    show 1 ≤ defaultWALConfig.maxFiles.toNat
    decide
  · show (History.step _ _ _ _).acked = _
    rw [hnew]
    rfl

/-! ### The payloads -/

private theorem batchData_singleton (e : WalEntry) : batchData [e] = e.data := List.flatMap_singleton ..

/-- As many batches with bytes as entries: every batch has one entry, and bytes. -/
private theorem singles_of_length {batches : List (List WalEntry)} (hne : ∀ b ∈ batches, b ≠ [])
    (h : (batches.filter hasBytes).length = batches.flatten.length) :
    ∀ b ∈ batches, hasBytes b = true ∧ b.length = 1 := by
  induction batches with
  | nil => exact fun _ hb => absurd hb List.not_mem_nil
  | cons b batches ih =>
    obtain ⟨hb, hbs⟩ := List.forall_mem_cons.1 hne
    have hpos := List.length_pos_of_ne_nil hb
    have hle : (batches.filter hasBytes).length ≤ batches.flatten.length := by
      refine (List.length_filter_le _ _).trans ?_
      clear h ih
      induction batches with
      | nil => exact Nat.le_refl _
      | cons c batches ih =>
        obtain ⟨hc, hcs⟩ := List.forall_mem_cons.1 hbs
        have hlen := List.length_pos_of_ne_nil hc
        have hrest := ih (List.forall_mem_cons.2 ⟨hb, hcs⟩) hcs
        rw [List.length_cons, List.flatten_cons, List.length_append]
        omega
    rw [List.flatten_cons, List.length_append] at h
    cases hbytes : hasBytes b with
    | false =>
      rw [List.filter_cons_of_neg (by rw [hbytes]; exact Bool.false_ne_true)] at h
      omega
    | true =>
      rw [List.filter_cons_of_pos hbytes, List.length_cons] at h
      exact List.forall_mem_cons.2 ⟨⟨hbytes, by omega⟩, ih hbs (by omega)⟩

/-- The batches with bytes are the payloads exactly if every batch is a single payload with bytes. -/
private theorem payloads_iff {batches : List (List WalEntry)} (hne : ∀ b ∈ batches, b ≠ [])
    (hfits : ∀ b ∈ batches, (batchData b).length < 2 ^ 32 - 64) :
    (batches.filter hasBytes).map batchData = batches.flatten.map WalEntry.data ↔ ∀ b ∈ batches, Single b := by
  constructor
  · intro heq b hb
    have hlen := congrArg List.length heq
    rw [List.length_map, List.length_map] at hlen
    obtain ⟨hbytes, hone⟩ := singles_of_length hne hlen b hb
    obtain ⟨e, rfl⟩ := List.length_eq_one_iff.1 hone
    have hpos := of_decide_eq_true hbytes
    have hfit := hfits [e] hb
    rw [batchData_singleton] at hpos hfit
    exact ⟨e, rfl, List.ne_nil_of_length_pos hpos, hfit⟩
  · intro hsingle
    clear hne hfits
    induction batches with
    | nil => rfl
    | cons b batches ih =>
      obtain ⟨⟨e, rfl, hdata, -⟩, hrest⟩ := List.forall_mem_cons.1 hsingle
      have hbytes : hasBytes [e] = true := by
        refine decide_eq_true ?_
        rw [batchData_singleton]
        exact List.length_pos_of_ne_nil hdata
      rw [List.filter_cons_of_pos hbytes, List.map_cons, ih hrest, batchData_singleton, List.flatten_cons,
        List.singleton_append, List.map_cons]

/-- Everything was appended before `Close`, and `Close` and every flush have returned. -/
structure Ended {M B W : Type} (s : AsyncWALWriter M B W) : Prop where
  closed : ∃ err, s.closing = .returned err
  flights : s.flights = []
  appended : s.beforeClose = s.log.appended.length

/-- A run that has ended with everything in batches that fit: what is read are the batches with bytes. -/
private theorem readAll_ended (h : Tracks aead s) (hended : s.Ended) :
    s.log.appended = s.log.batches.flatten ∧ s.buffer = [] ∧
      readAll aead s.wal.enc s.wal.dir = .ok ((s.log.batches.filter hasBytes).map batchData) := by
  obtain ⟨err, hclosed⟩ := hended.closed
  have hloop : s.loop = .stopped := h.inv.stopping.closed err hclosed
  have hbatches : s.beforeClose ≤ s.log.batches.flatten.length := by
    refine h.inv.stopping.emptied ?_
    rw [hloop]
    rfl
  have hqueue := h.inv.flushing.queue
  have hbuffer : s.buffer = [] := by
    have hlen := congrArg List.length hqueue
    rw [List.length_append] at hlen
    have hlast := hended.appended
    exact List.eq_nil_of_length_eq_zero (by omega)
  rw [hbuffer, List.append_nil] at hqueue
  refine ⟨hqueue, hbuffer, ?_⟩
  have hordered : s.log.batches.filter hasBytes =
      s.log.writes.map Prod.fst ++ Handover.rest (s.lots (values WalEntry)) := h.handed.2
  have hlots : s.lots (values WalEntry) = [] := by
    unfold lots
    rw [hended.flights]
    rfl
  rw [hlots, Handover.rest_nil, List.append_nil] at hordered
  rw [h.log.readAll_of_noneDeleted h.kept, h.acked, hordered, List.map_map]
  rfl

private theorem admits_calm_view {enc : WALEncryptor} {maxBatchSize : Nat} {now : Time} {es : List (Event WriteInput)}
    (hcalm : Admits (step (arrays WalEntry) (fileLog aead)) (Calm aead (arrays WalEntry))
      (newAsyncWALWriter maxBatchSize (newLog aead enc now)) es) :
    Admits (step (values WalEntry) (fileLog aead)) (Calm aead (values WalEntry))
      (start () [] maxBatchSize (newLog aead enc now)) es := by
  refine (admits_view (fun s e hs => ?_) maxBatchSize _ es).1 hcalm
  obtain ⟨hstep, -⟩ := @view_step History WriteInput (fileLog aead) s hs e
  have hflights : ((view s).step (values WalEntry) (fileLog aead) e).flights.length =
      (s.step (arrays WalEntry) (fileLog aead) e).flights.length := by
    rw [← hstep]
    exact List.length_map ..
  have hwal : ((view s).step (values WalEntry) (fileLog aead) e).wal =
      (s.step (arrays WalEntry) (fileLog aead) e).wal := by
    rw [← hstep]
    rfl
  constructor
  · rintro ⟨hone, hwrites, hkept⟩
    exact ⟨hflights ▸ hone, lots_view s ▸ hwrites, hwal ▸ hkept⟩
  · rintro ⟨hone, hwrites, hkept⟩
    exact ⟨hflights ▸ hone, lots_view s ▸ hwrites, hwal ▸ hkept⟩

/-- `ReadAll` returns the batches that have bytes, each as one record. -/
theorem readAll_eq_batches {enc : WALEncryptor} {maxBatchSize : Nat} {now : Time} {es : List (Event WriteInput)}
    (hcalm : Admits (step (arrays WalEntry) (fileLog aead)) (Calm aead (arrays WalEntry))
      (newAsyncWALWriter maxBatchSize (newLog aead enc now)) es)
    (hended : (exec (step (arrays WalEntry) (fileLog aead))
      (newAsyncWALWriter maxBatchSize (newLog aead enc now)) es).Ended)
    (hfits : ∀ b ∈ (exec (step (arrays WalEntry) (fileLog aead))
      (newAsyncWALWriter maxBatchSize (newLog aead enc now)) es).log.batches, (batchData b).length < 2 ^ 32 - 64) :
    let s := exec (step (arrays WalEntry) (fileLog aead)) (newAsyncWALWriter maxBatchSize (newLog aead enc now)) es
    s.log.appended = s.log.batches.flatten ∧ (view s).buffer = [] ∧
      readAll aead s.wal.enc s.wal.dir = .ok ((s.log.batches.filter hasBytes).map batchData) := by
  intro s
  have hview : view s =
    exec (step (values WalEntry) (fileLog aead)) (start () [] maxBatchSize (newLog aead enc now)) es :=
    view_exec (apart_new maxBatchSize _) es
  have htracks : Tracks aead (view s) := by
    rw [hview]
    refine tracks_exec (tracks_start enc maxBatchSize now) (admits_calm_view hcalm) ?_
    rw [← hview]
    exact hfits
  refine readAll_ended htracks ⟨hended.closed, ?_, hended.appended⟩
  show s.flights.map _ = []
  rw [hended.flights]
  rfl

/-- Every `WriteAsync` was alone exactly if the batches and the buffer are single payloads. -/
private theorem admits_alone_iff (wal : WalOps W I) (maxBatchSize : Nat) (w : W) (es : List (Event I)) :
    Admits (step (arrays WalEntry) wal) (Alone (arrays WalEntry)) (newAsyncWALWriter maxBatchSize w) es ↔
      Singles (view (exec (step (arrays WalEntry) wal) (newAsyncWALWriter maxBatchSize w) es)) := by
  have hview : Admits (step (arrays WalEntry) wal) (Alone (arrays WalEntry)) (newAsyncWALWriter maxBatchSize w) es ↔
      Admits (step (values WalEntry) wal) (Alone (values WalEntry)) (start () [] maxBatchSize w) es :=
    admits_view (fun s e _ => by cases e <;> exact Iff.rfl) maxBatchSize w es
  have hstart : Singles (start () ([] : List WalEntry) maxBatchSize w) :=
    ⟨fun _ hb => absurd hb List.not_mem_nil, .inl rfl⟩
  rw [hview, view_exec (apart_new maxBatchSize w)]
  exact ((Run.exec_iff_admits fun s e => singles_step_iff s e).trans (and_iff_right hstart)).symm

/-- In a run that has ended, with one flush at a time, no error and no file removed: `ReadAll` returns the payloads if
every `WriteAsync` found the buffer empty and had a payload that is not empty and fits a record; and if every batch
fits, only then. -/
theorem readAll_payloads_iff_alone (aead : Aead) (enc : WALEncryptor) (maxBatchSize : Nat) (now : Time)
    (es : List (Event WriteInput))
    (hcalm : Admits (step (arrays WalEntry) (fileLog aead)) (Calm aead (arrays WalEntry))
      (newAsyncWALWriter maxBatchSize (newLog aead enc now)) es)
    (hended : (exec (step (arrays WalEntry) (fileLog aead))
      (newAsyncWALWriter maxBatchSize (newLog aead enc now)) es).Ended) :
    let s := exec (step (arrays WalEntry) (fileLog aead)) (newAsyncWALWriter maxBatchSize (newLog aead enc now)) es
    let alone := Admits (step (arrays WalEntry) (fileLog aead)) (Alone (arrays WalEntry))
      (newAsyncWALWriter maxBatchSize (newLog aead enc now)) es
    (alone → readAll aead s.wal.enc s.wal.dir = .ok (s.log.appended.map WalEntry.data)) ∧
      ((∀ b ∈ s.log.batches, (batchData b).length < 2 ^ 32 - 64) →
        (readAll aead s.wal.enc s.wal.dir = .ok (s.log.appended.map WalEntry.data) ↔ alone)) := by
  intro s alone
  have halone : alone ↔ Singles (view s) := admits_alone_iff (fileLog aead) maxBatchSize _ es
  have hne : ∀ b ∈ s.log.batches, b ≠ [] := by
    have hview : view s =
        exec (step (values WalEntry) (fileLog aead)) (start () [] maxBatchSize (newLog aead enc now)) es :=
      view_exec (apart_new maxBatchSize _) es
    have hall := (batches_exec (fileLog aead) (s := start () [] maxBatchSize (newLog aead enc now)) es).2
      fun _ hb => absurd hb List.not_mem_nil
    rw [← hview] at hall
    exact hall
  have hread : (∀ b ∈ s.log.batches, (batchData b).length < 2 ^ 32 - 64) →
      (readAll aead s.wal.enc s.wal.dir = .ok (s.log.appended.map WalEntry.data) ↔ alone) := by
    intro hfits
    obtain ⟨happended, hbuffer, hrecords⟩ := readAll_eq_batches hcalm hended hfits
    rw [halone, hrecords, happended, Except.ok.injEq, payloads_iff hne hfits]
    exact (and_iff_left (.inl hbuffer)).symm
  refine ⟨fun h => (hread fun b hb => ?_).2 h, hread⟩
  obtain ⟨e, rfl, -, hlen⟩ := (halone.1 h).1 b hb
  rwa [batchData_singleton]

/-! ### Two payloads, in two batches and in one -/

def sampleInput : WriteInput := ⟨sampleTime, sampleTime, KeyRun.randomNonce⟩

def laterInput : WriteInput := ⟨sampleTime, sampleTime, .ok ⟨List.replicate 12 9, List.length_replicate⟩⟩

def sampleLog : History := newLog AesGcm.aead KeyRun.secretEncryptor sampleTime

/-- Two payloads are flushed by a caller, each before the next one is appended, and the writer is closed. -/
def flushedAlone : List (Event WriteInput) :=
  [.writeAsync [97] false 0, .flush 0, .write (.caller 0) sampleInput, .callback (.caller 0),
    .writeAsync [98] false 0, .flush 1, .write (.caller 1) laterInput, .callback (.caller 1),
    .close, .select .stopCh, .flushFromBuffer, .closeWal]

/-- Two payloads are in the buffer when it is flushed. -/
def twoPayloads : List (Event WriteInput) :=
  [.writeAsync [97] false 0, .writeAsync [98] false 0, .flush 0, .write (.caller 0) sampleInput,
    .callback (.caller 0), .callback (.caller 0), .close, .select .stopCh, .flushFromBuffer, .closeWal]

/-- The log behind the first flush, and behind the second one. -/
private def flushedLog (data : Bytes) : History :=
  (History.walWrite AesGcm.aead defaultWALConfig sampleInput sampleLog data).1

private def flushedTwice : History :=
  (History.walWrite AesGcm.aead defaultWALConfig laterInput (flushedLog [97]) [98]).1

private theorem writes_sample : (∀ data ∈ [[97], [97, 98]], sampleLog.Writes AesGcm.aead sampleInput data) ∧
    (flushedLog [97]).Writes AesGcm.aead laterInput [98] := by
  decide +kernel

private theorem noneDeleted_sample : sampleLog.NoneDeleted ∧
    (∀ data ∈ [[97], [97, 98]], (flushedLog data).NoneDeleted) ∧ flushedTwice.NoneDeleted := by
  decide +kernel

/-- An event that is not a write of `doFlush`. -/
private theorem calm_of_not_write {M B : Type} {ops : SliceOps M B WalEntry} {s : AsyncWALWriter M B History}
    {e : Event WriteInput} (he : ∀ o t, e ≠ .write o t) (hone : (s.step ops (fileLog aead) e).flights.length ≤ 1)
    (hkept : (s.step ops (fileLog aead) e).wal.NoneDeleted) : s.Calm aead ops e :=
  ⟨hone, fun o t heq => absurd heq (he o t), hkept⟩

/-- The write of the one flush there is. -/
private theorem calm_of_write {M B : Type} {ops : SliceOps M B WalEntry} {s : AsyncWALWriter M B History}
    {o : Flusher} {t : WriteInput} {entries : List WalEntry} (hlots : s.lots ops = [(o, [entries])])
    (hwrites : s.wal.Writes aead t (batchData entries))
    (hone : (s.step ops (fileLog aead) (.write o t)).flights.length ≤ 1)
    (hkept : (s.step ops (fileLog aead) (.write o t)).wal.NoneDeleted) : s.Calm aead ops (.write o t) := by
  refine ⟨hone, ?_, hkept⟩
  rintro _ _ ⟨⟩ entries' hmem
  rw [hlots, List.mem_singleton, Prod.mk.injEq, List.cons.injEq] at hmem
  rw [hmem.2.1]
  exact hwrites

private theorem calm_flushedAlone :
    Admits (step (arrays WalEntry) (fileLog AesGcm.aead)) (Calm AesGcm.aead (arrays WalEntry))
      (newAsyncWALWriter 4 sampleLog) flushedAlone := by
  obtain ⟨hnew, honce, htwice⟩ := noneDeleted_sample
  have honce := honce [97] (by decide)
  exact ⟨calm_of_not_write (by rintro _ _ ⟨⟩) (by decide) hnew, calm_of_not_write (by rintro _ _ ⟨⟩) (by decide) hnew,
    calm_of_write (show _ = [(_, [[⟨0, [97], false⟩]])] from rfl) (writes_sample.1 [97] (by decide))
      (by decide) honce,
    calm_of_not_write (by rintro _ _ ⟨⟩) (by decide) honce, calm_of_not_write (by rintro _ _ ⟨⟩) (by decide) honce,
    calm_of_not_write (by rintro _ _ ⟨⟩) (by decide) honce,
    calm_of_write (show _ = [(_, [[⟨1, [98], false⟩]])] from rfl) writes_sample.2 (by decide) htwice,
    calm_of_not_write (by rintro _ _ ⟨⟩) (by decide) htwice, calm_of_not_write (by rintro _ _ ⟨⟩) (by decide) htwice,
    calm_of_not_write (by rintro _ _ ⟨⟩) (by decide) htwice, calm_of_not_write (by rintro _ _ ⟨⟩) (by decide) htwice,
    calm_of_not_write (by rintro _ _ ⟨⟩) (by decide) htwice, trivial⟩

private theorem calm_twoPayloads :
    Admits (step (arrays WalEntry) (fileLog AesGcm.aead)) (Calm AesGcm.aead (arrays WalEntry))
      (newAsyncWALWriter 4 sampleLog) twoPayloads := by
  obtain ⟨hnew, honce, -⟩ := noneDeleted_sample
  have honce := honce [97, 98] (by decide)
  exact ⟨calm_of_not_write (by rintro _ _ ⟨⟩) (by decide) hnew, calm_of_not_write (by rintro _ _ ⟨⟩) (by decide) hnew,
    calm_of_not_write (by rintro _ _ ⟨⟩) (by decide) hnew,
    calm_of_write (show _ = [(_, [[⟨0, [97], false⟩, ⟨1, [98], false⟩]])] from rfl)
      (writes_sample.1 [97, 98] (by decide)) (by decide) honce,
    calm_of_not_write (by rintro _ _ ⟨⟩) (by decide) honce, calm_of_not_write (by rintro _ _ ⟨⟩) (by decide) honce,
    calm_of_not_write (by rintro _ _ ⟨⟩) (by decide) honce, calm_of_not_write (by rintro _ _ ⟨⟩) (by decide) honce,
    calm_of_not_write (by rintro _ _ ⟨⟩) (by decide) honce, calm_of_not_write (by rintro _ _ ⟨⟩) (by decide) honce,
    trivial⟩

/-- Two payloads that are flushed one by one come back as two records. -/
theorem readAll_flushedAlone :
    readAll AesGcm.aead
        (exec (step (arrays WalEntry) (fileLog AesGcm.aead)) (newAsyncWALWriter 4 sampleLog) flushedAlone).wal.enc
        (exec (step (arrays WalEntry) (fileLog AesGcm.aead)) (newAsyncWALWriter 4 sampleLog) flushedAlone).wal.dir =
      .ok [[97], [98]] :=
  (readAll_payloads_iff_alone AesGcm.aead KeyRun.secretEncryptor 4 sampleTime flushedAlone calm_flushedAlone
    ⟨⟨none, rfl⟩, rfl, rfl⟩).1 ⟨⟨rfl, by decide, by decide⟩, trivial, trivial, trivial,
      ⟨rfl, by decide, by decide⟩, trivial, trivial, trivial, trivial, trivial, trivial, trivial, trivial⟩

/-- Two payloads in one batch come back as one record. -/
theorem readAll_twoPayloads :
    Admits (step (arrays WalEntry) (fileLog AesGcm.aead)) (Calm AesGcm.aead (arrays WalEntry))
        (newAsyncWALWriter 4 sampleLog) twoPayloads ∧
      (exec (step (arrays WalEntry) (fileLog AesGcm.aead)) (newAsyncWALWriter 4 sampleLog) twoPayloads).Ended ∧
      (exec (step (arrays WalEntry) (fileLog AesGcm.aead)) (newAsyncWALWriter 4 sampleLog)
        twoPayloads).log.appended.map WalEntry.data = [[97], [98]] ∧
      readAll AesGcm.aead
          (exec (step (arrays WalEntry) (fileLog AesGcm.aead)) (newAsyncWALWriter 4 sampleLog) twoPayloads).wal.enc
          (exec (step (arrays WalEntry) (fileLog AesGcm.aead)) (newAsyncWALWriter 4 sampleLog) twoPayloads).wal.dir =
        .ok [[97, 98]] := by
  have hended : (exec (step (arrays WalEntry) (fileLog AesGcm.aead))
    (newAsyncWALWriter 4 sampleLog) twoPayloads).Ended :=
    ⟨⟨none, rfl⟩, rfl, rfl⟩
  exact ⟨calm_twoPayloads, hended, rfl, (readAll_eq_batches calm_twoPayloads hended (by decide)).2.2⟩

end AsyncWALWriter

end DistributedBloomFilter
