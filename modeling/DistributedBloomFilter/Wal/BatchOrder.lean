import DistributedBloomFilter.Wal.AsyncFlush
import DistributedBloomFilter.Wal.Sync

/-!
# The order of the batches

Both batching writers take the buffer under a lock and write it after the lock is released, so that a goroutine can
overtake another one that took the buffer earlier.  Taking and writing is a `Handover` from the buffer to the file:
the records and the batches reach the file in the order of the appends when every write is made in its turn, by the
goroutine that holds the oldest of what is not written, and in a run at whose end nothing is left to write, only then.
-/

namespace DistributedBloomFilter

open Run (exec Admits)

/-! ### Records of the batching writer -/

namespace SyncWALWriter

variable {s : SyncWALWriter}

/-- The `Flush` that writes has taken its records before every other one that is running. -/
def InTurn (s : SyncWALWriter) : Event → Prop
  | .write t _ => (s.flushOf t).isSome → s.flushes.head?.map SyncFlush.owner = some t
  | _ => True

instance : ∀ (s : SyncWALWriter) (e : Event), Decidable (s.InTurn e)
  | _, .append _ _ => .isTrue trivial
  | _, .swap _ => .isTrue trivial
  | _, .write _ _ => inferInstanceAs (Decidable (_ → _))

/-- No write fails. -/
def Succeeds : Event → Prop
  | .write _ err => err = none
  | _ => True

/-- The records on their way from the buffer to the file. -/
def handover (s : SyncWALWriter) : Handover Nat SyncRecord where
  taken := s.taken
  pending := s.flushes.map fun f => (f.owner, f.rest)
  delivered := s.file

def handoverEvents (s : SyncWALWriter) : Event → List (Handover.Event Nat SyncRecord)
  | .append _ _ => []
  | .swap t => if (s.flushOf t).isSome then [] else [.take t s.buffer]
  | .write t _ => [.deliver t]

structure Inv (s : SyncWALWriter) : Prop where
  numbers : s.appended.map SyncRecord.number = List.range s.appended.length
  queue : s.appended = s.taken ++ s.buffer
  owners : (s.flushes.map SyncFlush.owner).Nodup
  nonempty : ∀ f ∈ s.flushes, f.rest ≠ []

theorem inv_new (maxBatchSize : Nat) : (newSyncWALWriter maxBatchSize).Inv where
  numbers := rfl
  queue := rfl
  owners := List.nodup_nil
  nonempty := fun _ h => absurd h List.not_mem_nil

theorem Inv.push (h : s.Inv) (data : Bytes) : (s.push data).Inv where
  numbers := numbers_push h.numbers data
  queue := by
    show s.appended ++ [s.nextRecord data] = s.taken ++ (s.buffer ++ [s.nextRecord data])
    rw [h.queue, List.append_assoc]
  owners := h.owners
  nonempty := h.nonempty

theorem append_cases (s : SyncWALWriter) (t : Nat) (data : Bytes) :
    s.append t data = s ∨ ∃ due accepted,
    s.append t data = { s.push data with due := due, accepted := accepted } := by
  unfold append
  split
  · exact .inl rfl
  · dsimp only
    split
    · exact .inr ⟨_, _, rfl⟩
    · exact .inr ⟨_, _, rfl⟩

theorem swap_cases (s : SyncWALWriter) (t : Nat) :
    (s.flushOf t).isSome ∧ s.swap t = s ∨
      s.flushOf t = none ∧
        (s.buffer = [] ∧ (∃ due accepted, s.swap t = { s with due := due, accepted := accepted }) ∨
          s.buffer ≠ [] ∧ ∃ due,
            s.swap t =
              { s with
                due := due
                buffer := []
                taken := s.taken ++ s.buffer
                flushes := s.flushes ++ [⟨t, s.due.lookup t, s.buffer⟩] }) := by
  unfold swap
  split
  · rename_i hsome
    exact .inl ⟨hsome, rfl⟩
  · rename_i hsome
    refine .inr ⟨Option.not_isSome_iff_eq_none.1 hsome, ?_⟩
    dsimp only
    split
    · rename_i hlen
      exact .inl ⟨List.eq_nil_of_length_eq_zero hlen, _, _, rfl⟩
    · rename_i hlen
      exact .inr ⟨fun hnil => hlen (congrArg List.length hnil), _, rfl⟩

/-- A write that succeeds: the first record of the goroutine's `Flush` goes to the file. -/
theorem writeNext_cases (h : s.Inv) (t : Nat) :
    s.flushOf t = none ∧ s.writeNext t none = s ∨
      ∃ caller d ds l r accepted, s.flushOf t = some ⟨t, caller, d :: ds⟩ ∧
        s.flushes = l ++ ⟨t, caller, d :: ds⟩ :: r ∧ (∀ f ∈ l ++ r, f.owner ≠ t) ∧
        s.writeNext t none =
          { s with
            file := s.file ++ [d]
            flushes := l ++ if ds.isEmpty then r else ⟨t, caller, ds⟩ :: r
            accepted := accepted } := by
  cases hf : s.flushOf t with
  | none =>
    refine .inl ⟨rfl, ?_⟩
    unfold writeNext
    rw [hf]
  | some f =>
    obtain ⟨howner, l, r, hflushes, hl, hr⟩ := Keyed.split_of_find?_eq_some h.owners hf
    obtain ⟨owner, caller, rest⟩ := f
    obtain rfl : owner = t := howner
    have hne : rest ≠ [] := h.nonempty _ (List.mem_of_find?_eq_some hf)
    obtain ⟨d, ds, rfl⟩ := List.exists_cons_of_ne_nil hne
    have hfilter := Keyed.filter_ne (a := (⟨owner, caller, d :: ds⟩ : SyncFlush)) rfl hl hr
    have hmap := Keyed.map_update (a := (⟨owner, caller, d :: ds⟩ : SyncFlush)) rfl hl hr
      fun f => { f with rest := ds }
    unfold writeNext
    rw [hf]
    dsimp only
    rw [hflushes, hfilter, hmap]
    cases ds with
    | nil => exact .inr ⟨caller, d, [], l, r, _, rfl, rfl, List.forall_mem_append.2 ⟨hl, hr⟩, rfl⟩
    | cons d' ds => exact .inr ⟨caller, d, d' :: ds, l, r, _, rfl, rfl, List.forall_mem_append.2 ⟨hl, hr⟩, rfl⟩

private theorem inv_write {l r : List SyncFlush} {f : SyncFlush} (h : s.Inv) (hflushes : s.flushes = l ++ f :: r)
    (ds : List SyncRecord) {t : SyncWALWriter} (happended : t.appended = s.appended) (htaken : t.taken = s.taken)
    (hbuffer : t.buffer = s.buffer)
    (hflushes' : t.flushes = l ++ if ds.isEmpty then r else { f with rest := ds } :: r) : t.Inv := by
  have howners := h.owners
  have hnonempty := h.nonempty
  rw [hflushes] at howners hnonempty
  refine ⟨by rw [happended]; exact h.numbers, by rw [happended, htaken, hbuffer]; exact h.queue, ?_, ?_⟩
  · rw [hflushes']
    cases ds with
    | nil => exact howners.sublist (((List.sublist_cons_self f r).append_left l).map _)
    | cons d ds =>
      rw [List.map_append, List.map_cons] at howners
      show ((l ++ { f with rest := d :: ds } :: r).map _).Nodup
      rw [List.map_append, List.map_cons]
      exact howners
  · rw [hflushes']
    obtain ⟨hl, hr⟩ := List.forall_mem_append.1 hnonempty
    cases ds with
    | nil => exact List.forall_mem_append.2 ⟨hl, (List.forall_mem_cons.1 hr).2⟩
    | cons d ds =>
      exact List.forall_mem_append.2 ⟨hl,
        List.forall_mem_cons.2 ⟨List.cons_ne_nil _ _, (List.forall_mem_cons.1 hr).2⟩⟩

theorem inv_step (e : Event) (h : s.Inv) (he : Succeeds e) : (s.step e).Inv := by
  cases e with
  | append t data =>
    show (s.append t data).Inv
    rcases append_cases s t data with heq | ⟨due, accepted, heq⟩
    · rw [heq]
      exact h
    · rw [heq]
      exact ⟨(h.push data).numbers, (h.push data).queue, h.owners, h.nonempty⟩
  | swap t =>
    show (s.swap t).Inv
    rcases swap_cases s t with ⟨-, heq⟩ | ⟨hnone, ⟨-, due, accepted, heq⟩ | ⟨hne, due, heq⟩⟩
    · rw [heq]
      exact h
    · rw [heq]
      exact ⟨h.numbers, h.queue, h.owners, h.nonempty⟩
    · rw [heq]
      refine ⟨h.numbers, ?_, Keyed.nodup_concat h.owners (Keyed.notMem_of_find?_eq_none hnone), ?_⟩
      · rw [List.append_nil]
        exact h.queue
      · exact List.forall_mem_append.2 ⟨h.nonempty, List.forall_mem_singleton.2 hne⟩
  | write t err =>
    obtain rfl : err = none := he
    show (s.writeNext t none).Inv
    rcases writeNext_cases h t with ⟨-, heq⟩ | ⟨caller, d, ds, l, r, accepted, -, hflushes, -, heq⟩
    · rw [heq]
      exact h
    · exact inv_write h hflushes ds (by rw [heq]) (by rw [heq]) (by rw [heq]) (by rw [heq])

/-- A write delivers the first record of the goroutine's `Flush`. -/
private theorem handover_writeNext (h : s.Inv) (t : Nat) :
    (s.writeNext t none).handover = s.handover.step (.deliver t) ∧
      (s.InTurn (.write t none) ↔ s.handover.InTurn (.deliver t)) := by
  show _ ∧ (((s.flushOf t).isSome → s.flushes.head?.map SyncFlush.owner = some t) ↔ _)
  rcases writeNext_cases h t with ⟨hnone, heq⟩ | ⟨caller, d, ds, l, r, accepted, hsome, hflushes, hothers, heq⟩
  · have hidle : ∀ lot ∈ s.handover.pending, lot.1 ≠ t := by
      intro lot hlot hown
      obtain ⟨f, hf, rfl⟩ := List.mem_map.1 hlot
      exact Keyed.notMem_of_find?_eq_none hnone (List.mem_map.2 ⟨f, hf, hown⟩)
    obtain ⟨hstep, hturn⟩ := Handover.deliver_of_idle hidle
    rw [heq, hstep, hnone]
    exact ⟨rfl, iff_of_true Bool.noConfusion hturn⟩
  · have hl : ∀ lot ∈ l.map fun f => (f.owner, f.rest), lot.1 ≠ t := by
      intro lot hlot
      obtain ⟨f, hf, rfl⟩ := List.mem_map.1 hlot
      exact hothers f (List.mem_append_left _ hf)
    have hpending : s.handover.pending =
        (l.map fun f => (f.owner, f.rest)) ++ (t, d :: ds) :: r.map fun f => (f.owner, f.rest) := by
      show s.flushes.map _ = _
      rw [hflushes, List.map_append]
      rfl
    have hhead : s.handover.pending.head?.map Prod.fst = s.flushes.head?.map SyncFlush.owner := by
      show (s.flushes.map _).head?.map _ = _
      rw [List.head?_map, Option.map_map]
      rfl
    obtain ⟨hstep, hturn⟩ := Handover.deliver_of_lot hpending hl
    rw [heq, hstep, hturn, hhead, hsome]
    refine ⟨?_, forall_prop_of_true rfl⟩
    show Handover.mk _ ((l ++ if ds.isEmpty then r else ⟨t, caller, ds⟩ :: r).map _) _ = _
    rw [List.map_append]
    cases ds <;> rfl

/-- A step is the steps of the handover that it stands for. -/
theorem handover_step (e : Event) (h : s.Inv) (he : Succeeds e) :
    (s.step e).handover = exec Handover.step s.handover (s.handoverEvents e) ∧
      (s.InTurn e ↔ Admits Handover.step Handover.InTurn s.handover (s.handoverEvents e)) := by
  cases e with
  | append t data =>
    refine ⟨?_, Iff.rfl⟩
    show (s.append t data).handover = s.handover
    rcases append_cases s t data with heq | ⟨due, accepted, heq⟩
    · rw [heq]
    · rw [heq]
      rfl
  | swap t =>
    show (s.swap t).handover = exec Handover.step s.handover (if _ then _ else _) ∧
      (True ↔ Admits Handover.step Handover.InTurn s.handover (if _ then _ else _))
    rcases swap_cases s t with ⟨hsome, heq⟩ | ⟨hnone, hcases⟩
    · rw [heq, if_pos hsome]
      exact ⟨rfl, Iff.rfl⟩
    · rw [if_neg (by rw [hnone]; exact Bool.false_ne_true)]
      refine ⟨?_, iff_of_true trivial ⟨trivial, trivial⟩⟩
      rcases hcases with ⟨hnil, due, accepted, heq⟩ | ⟨hne, due, heq⟩
      · rw [heq, hnil]
        show Handover.mk s.taken _ _ = Handover.mk (s.taken ++ []) _ _
        rw [List.append_nil]
        rfl
      · rw [heq]
        obtain ⟨d, ds, hbuffer⟩ := List.exists_cons_of_ne_nil hne
        rw [hbuffer]
        show Handover.mk _ ((s.flushes ++ [_]).map _) _ = Handover.mk _ (s.flushes.map _ ++ [_]) _
        rw [List.map_append]
        rfl
  | write t err =>
    obtain rfl : err = none := he
    obtain ⟨hstep, hturn⟩ := handover_writeNext h t
    exact ⟨hstep, hturn.trans (and_iff_left trivial).symm⟩

/-- The run of the writer is a run of the handover. -/
private theorem handover_exec (maxBatchSize : Nat) {es : List Event} (hes : ∀ e ∈ es, Succeeds e) :
    (exec step (newSyncWALWriter maxBatchSize) es).Inv ∧
      (exec step (newSyncWALWriter maxBatchSize) es).handover =
        exec Handover.step Handover.start (Run.translate step handoverEvents (newSyncWALWriter maxBatchSize) es) ∧
      (Admits step InTurn (newSyncWALWriter maxBatchSize) es ↔
        Admits Handover.step Handover.InTurn Handover.start
          (Run.translate step handoverEvents (newSyncWALWriter maxBatchSize) es)) :=
  Run.exec_translate (fun _ e h he => inv_step e h he) (fun _ e h he => (handover_step e h he).1)
    (fun _ e h he => (handover_step e h he).2) (inv_new maxBatchSize) hes

/-- With no error, the records reach the file in the order of the appends if every write is made in its turn, and when
no `Flush` is left running, only if. -/
theorem inOrder_iff (maxBatchSize : Nat) {es : List Event} (hes : ∀ e ∈ es, Succeeds e) :
    let s := exec step (newSyncWALWriter maxBatchSize) es
    (Admits step InTurn (newSyncWALWriter maxBatchSize) es → s.file.Sublist s.appended) ∧
      (s.flushes = [] → (s.file.Sublist s.appended ↔ Admits step InTurn (newSyncWALWriter maxBatchSize) es)) := by
  intro s
  obtain ⟨hinv, hexec, hadmits⟩ := handover_exec maxBatchSize hes
  generalize Run.translate step handoverEvents (newSyncWALWriter maxBatchSize) es = hs at hexec hadmits
  have htaken : (exec Handover.step (Handover.start : Handover Nat SyncRecord) hs).taken = s.taken := by
    rw [← hexec]; rfl
  have hfile : (exec Handover.step (Handover.start : Handover Nat SyncRecord) hs).delivered = s.file := by
    rw [← hexec]; rfl
  have hnodup : s.appended.Nodup := nodup_of_numbers hinv.numbers
  -- a record is a unit of its own
  have hcontents : ∀ l : List SyncRecord, (l.flatMap fun r => [r]) = l := List.flatMap_singleton'
  have hsub : ((exec Handover.step (Handover.start : Handover Nat SyncRecord) hs).taken.flatMap fun r => [r]).Sublist
      s.appended := by
    rw [hcontents, htaken, hinv.queue]
    exact List.sublist_append_left _ _
  refine ⟨fun hturn => ?_, fun hdone => ?_⟩
  · have hdelivered := Handover.sublist_of_inTurn hsub (hadmits.1 hturn)
    rwa [hcontents, hfile] at hdelivered
  · have hpending : (exec Handover.step (Handover.start : Handover Nat SyncRecord) hs).pending = [] := by
      rw [← hexec]
      show s.flushes.map _ = []
      rw [hdone]
      rfl
    have hiff := Handover.sublist_iff_inTurn hnodup (fun r _ => List.cons_ne_nil r []) hsub hpending
    rwa [hcontents, hfile, ← hadmits] at hiff

end SyncWALWriter

/-! ### Batches of the asynchronous writer -/

/-- The entries of the batches whose write returned nil, in the order of the writes. -/
def AsyncLog.reached (log : AsyncLog) : List WalEntry := (log.writes.filter fun p => p.2 = none).flatMap Prod.fst

namespace AsyncWALWriter

open SliceOps (arrays values)

/-- What a running flush has to write, with its flusher. -/
def lot (o : Flusher) (entries : List WalEntry) : Stage → List (Flusher × List (List WalEntry))
  | .writing => if hasBytes entries then [(o, [entries])] else []
  | .calling _ _ => []

section Turns

variable {M B W I : Type} (ops : SliceOps M B WalEntry)

/-- The batches that are still to be written, in the order in which they were taken. -/
def lots (s : AsyncWALWriter M B W) : List (Flusher × List (List WalEntry)) :=
  s.flights.flatMap fun f => lot f.owner (ops.read s.mem f.entries) f.stage

/-- The flusher that writes has taken its batch before every other one that has something to write. -/
def InTurn (s : AsyncWALWriter M B W) : Event I → Prop
  | .write o _ => o ∈ (s.lots ops).map Prod.fst → (s.lots ops).head?.map Prod.fst = some o
  | _ => True

end Turns

variable {W I : Type} {wal : WalOps W I}

/-- The batches on their way from the buffer to the file. -/
def handover (s : AsyncWALWriter Unit (List WalEntry) W) : Handover Flusher (List WalEntry) where
  taken := s.log.batches.filter hasBytes
  pending := s.lots (values WalEntry)
  delivered := s.log.writes.map Prod.fst

def handoverEvents (s : AsyncWALWriter Unit (List WalEntry) W) :
    Event I → List (Handover.Event Flusher (List WalEntry))
  | .flush t =>
    if (flightOf s.flights (.caller t)).isSome then [] else [.take (.caller t) ([s.buffer].filter hasBytes)]
  | .flushFromBuffer => if s.loop.locks then [.take .loop ([s.buffer].filter hasBytes)] else []
  | .write o _ => [.deliver o]
  | _ => []

section Values

variable {s : AsyncWALWriter Unit (List WalEntry) W}

/-- A lot is not empty. -/
private theorem lot_spec {o : Flusher} {entries : List WalEntry} {stage : Stage} :
    ∀ p ∈ lot o entries stage, p.1 = o ∧ p.2 ≠ [] ∧ stage = .writing := by
  intro p hp
  cases stage with
  | calling err done => cases hp
  | writing =>
    have hmem : p ∈ if hasBytes entries then [(o, [entries])] else [] := hp
    split at hmem
    · rw [List.mem_singleton.1 hmem]
      exact ⟨rfl, List.cons_ne_nil _ _, rfl⟩
    · cases hmem

/-- The lots of some flights. -/
private def lotsOf (flights : List (Flight (List WalEntry))) : List (Flusher × List (List WalEntry)) :=
  flights.flatMap fun f => lot f.owner f.entries f.stage

private theorem lotsOf_split (l : List (Flight (List WalEntry))) (f : Flight (List WalEntry))
    (r : List (Flight (List WalEntry))) :
    lotsOf (l ++ f :: r) = lotsOf l ++ (lot f.owner f.entries f.stage ++ lotsOf r) := by
  unfold lotsOf
  rw [List.flatMap_append, List.flatMap_cons]

/-- A flusher that is not about to write has no lot. -/
private theorem notOwner_lotsOf {flights : List (Flight (List WalEntry))} {o : Flusher}
    (h : ∀ g ∈ flights, g.owner = o → g.stage ≠ .writing) : ∀ p ∈ lotsOf flights, p.1 ≠ o := by
  intro p hp hown
  obtain ⟨f, hf, hpf⟩ := List.mem_flatMap.1 hp
  obtain ⟨hfst, -, hwriting⟩ := lot_spec p hpf
  exact h f hf (hfst.symm.trans hown) hwriting

/-- An empty buffer has nothing to write. -/
private theorem handover_take_nil (o : Flusher) (hnil : s.buffer = []) (loop : LoopState) :
    handover { s with loop := loop } = s.handover.step (.take o ([s.buffer].filter hasBytes)) := by
  rw [hnil]
  show Handover.mk _ _ _ = Handover.mk (s.handover.taken ++ []) _ _
  rw [List.append_nil]
  rfl

private theorem handover_takeBuffer (o : Flusher) (loop : LoopState) :
    handover { s.takeBuffer (values WalEntry) o with loop := loop } =
      s.handover.step (.take o ([s.buffer].filter hasBytes)) := by
  have htaken : ((s.log.batches ++ [s.buffer]).filter hasBytes) =
      s.log.batches.filter hasBytes ++ [s.buffer].filter hasBytes := List.filter_append ..
  have hlots : lots (values WalEntry) { s.takeBuffer (values WalEntry) o with loop := loop } =
      s.lots (values WalEntry) ++ lot o s.buffer .writing := by
    show lotsOf (s.flights ++ [_]) = _
    rw [lotsOf_split]
    exact congrArg _ (List.append_nil _)
  unfold handover
  rw [hlots]
  show Handover.mk ((s.log.batches ++ [s.buffer]).filter hasBytes) _ (s.log.writes.map Prod.fst) = _
  rw [htaken]
  cases hbytes : hasBytes s.buffer with
  | true => simp [Handover.step, lot, hbytes]
  | false => simp [Handover.step, lot, hbytes]

/-- A write finds nothing to be written by its flusher, or takes the batch of the flusher out of the lots. -/
private theorem handover_write_cases (howners : (s.flights.map Flight.owner).Nodup) (o : Flusher) (input : I) :
    (∀ p ∈ s.lots (values WalEntry), p.1 ≠ o) ∧ (s.write (values WalEntry) wal o input).handover = s.handover ∨
      ∃ entries l r, s.lots (values WalEntry) = l ++ (o, [entries]) :: r ∧ (∀ p ∈ l, p.1 ≠ o) ∧
        (s.write (values WalEntry) wal o input).handover =
          { s.handover with pending := l ++ r, delivered := s.handover.delivered ++ [entries] } := by
  rcases @write_cases W I wal s howners o input with ⟨heq, hnone⟩ | ⟨entries, l, r, hflights, hothers, heq⟩
  · exact .inl ⟨notOwner_lotsOf hnone, by rw [heq]⟩
  have hl : ∀ p ∈ lotsOf l, p.1 ≠ o :=
    notOwner_lotsOf fun g hg hown => absurd hown (hothers g (List.mem_append_left _ hg))
  have hr : ∀ p ∈ lotsOf r, p.1 ≠ o :=
    notOwner_lotsOf fun g hg hown => absurd hown (hothers g (List.mem_append_right _ hg))
  have hbefore : s.lots (values WalEntry) = lotsOf l ++ (lot o entries .writing ++ lotsOf r) := by
    show lotsOf s.flights = _
    rw [hflights, lotsOf_split]
  have hafter : (s.write (values WalEntry) wal o input).handover =
      { s.handover with
        pending := lotsOf l ++ lotsOf r
        delivered := s.handover.delivered ++ [entries].filter hasBytes } := by
    have hpending : (s.write (values WalEntry) wal o input).lots (values WalEntry) = lotsOf l ++ lotsOf r := by
      rw [heq]
      exact lotsOf_split ..
    have hdelivered : (s.write (values WalEntry) wal o input).log.writes.map Prod.fst =
        s.log.writes.map Prod.fst ++ [entries].filter hasBytes := by
      rw [heq]
      dsimp only
      rw [List.map_append]
      cases hbytes : hasBytes entries <;> simp [hbytes]
    have hbatches : (s.write (values WalEntry) wal o input).log.batches = s.log.batches := by rw [heq]
    unfold handover
    rw [hpending, hdelivered, hbatches]
  -- a batch without bytes is not written
  cases hbytes : hasBytes entries with
  | true =>
    have hlot : lot o entries .writing = [(o, [entries])] := if_pos hbytes
    rw [hlot, List.singleton_append] at hbefore
    rw [List.filter_cons_of_pos hbytes, List.filter_nil] at hafter
    exact .inr ⟨entries, _, _, hbefore, hl, hafter⟩
  | false =>
    have hlot : lot o entries .writing = [] := if_neg (by rw [hbytes]; exact Bool.false_ne_true)
    rw [hlot, List.nil_append] at hbefore
    have hnot : ¬ hasBytes entries = true := by rw [hbytes]; exact Bool.false_ne_true
    rw [List.filter_cons_of_neg hnot, List.filter_nil, List.append_nil, ← hbefore] at hafter
    refine .inl ⟨?_, hafter⟩
    rw [hbefore]
    exact List.forall_mem_append.2 ⟨hl, hr⟩

private theorem handover_write (howners : (s.flights.map Flight.owner).Nodup) (o : Flusher) (input : I) :
    (s.write (values WalEntry) wal o input).handover = s.handover.step (.deliver o) ∧
      (s.InTurn (values WalEntry) (.write o input) ↔ s.handover.InTurn (.deliver o)) := by
  rcases @handover_write_cases W I wal s howners o input with ⟨hnone, heq⟩ | ⟨entries, l, r, hlots, hl, heq⟩
  · have hnotMem : o ∉ (s.lots (values WalEntry)).map Prod.fst := by
      intro hmem
      obtain ⟨p, hp, hown⟩ := List.mem_map.1 hmem
      exact hnone p hp hown
    obtain ⟨hstep, hturn⟩ := @Handover.deliver_of_idle _ _ _ s.handover o hnone
    rw [heq, hstep]
    exact ⟨rfl, iff_of_true (fun hmem => absurd hmem hnotMem) hturn⟩
  · have hmem : o ∈ (s.lots (values WalEntry)).map Prod.fst := by
      rw [hlots, List.map_append, List.map_cons]
      exact List.mem_append_right _ List.mem_cons_self
    obtain ⟨hstep, hturn⟩ := @Handover.deliver_of_lot _ _ _ s.handover o _ _ _ _ hlots hl
    rw [heq, hstep]
    exact ⟨rfl, (forall_prop_of_true hmem).trans hturn.symm⟩

private theorem handover_callback (howners : (s.flights.map Flight.owner).Nodup) (o : Flusher) :
    (s.callback (values WalEntry) o).handover = s.handover := by
  rcases callback_cases howners o with heq | ⟨entries, err, done, l, r, hflights, -, ⟨-, heq⟩ | ⟨-, loop, -, heq⟩⟩
  · rw [heq]
  · have hlots : (s.callback (values WalEntry) o).lots (values WalEntry) = s.lots (values WalEntry) := by
      rw [heq]
      show lotsOf (l ++ _ :: r) = lotsOf s.flights
      rw [hflights, lotsOf_split, lotsOf_split]
      rfl
    unfold handover
    rw [hlots, heq]
  · have hlots : (s.callback (values WalEntry) o).lots (values WalEntry) = s.lots (values WalEntry) := by
      rw [heq]
      show lotsOf (l ++ r) = lotsOf s.flights
      rw [hflights, lotsOf_split]
      exact List.flatMap_append
    unfold handover
    rw [hlots, heq]

/-- A caller that has no flush running takes what is in the buffer. -/
private theorem handover_flush (t : Nat) :
    (s.flush (values WalEntry) t).handover =
      exec Handover.step s.handover (s.handoverEvents (.flush t : Event I)) := by
  unfold flush handoverEvents
  dsimp only
  by_cases hbusy : (flightOf s.flights (.caller t)).isSome
  · rw [if_pos hbusy, if_pos hbusy]
    rfl
  · rw [if_neg hbusy, if_neg hbusy]
    split
    · rename_i hlen
      exact handover_take_nil _ (List.eq_nil_of_length_eq_zero hlen) s.loop
    · exact handover_takeBuffer _ s.loop

private theorem handover_flushFromBuffer :
    (s.flushFromBuffer (values WalEntry)).handover =
      exec Handover.step s.handover (s.handoverEvents (.flushFromBuffer : Event I)) := by
  unfold handoverEvents
  dsimp only
  rcases flushFromBuffer_cases s with ⟨heq, hnot⟩ | ⟨stop, hlocking, hcases⟩
  · rw [heq, if_neg hnot]
    rfl
  · rw [if_pos (by rw [hlocking]; rfl)]
    rcases hcases with ⟨hnil, heq⟩ | ⟨-, heq⟩
    · rw [heq]
      exact handover_take_nil _ hnil _
    · rw [heq]
      exact handover_takeBuffer _ _

theorem handover_step (h : s.Inv) (e : Event I) :
    (s.step (values WalEntry) wal e).handover = exec Handover.step s.handover (s.handoverEvents e) ∧
      (s.InTurn (values WalEntry) e ↔
        Admits Handover.step Handover.InTurn s.handover (s.handoverEvents e)) := by
  -- whoever takes is not out of turn
  have htake : ∀ (c : Prop) [Decidable c] (o : Flusher) (units : List (List WalEntry)),
      Admits Handover.step Handover.InTurn s.handover (if c then [] else [.take o units]) ∧
        Admits Handover.step Handover.InTurn s.handover (if c then [.take o units] else []) := by
    intro c _ o units
    split
    · exact ⟨trivial, trivial, trivial⟩
    · exact ⟨⟨trivial, trivial⟩, trivial⟩
  cases e with
  | writeAsync data callback spare => exact ⟨rfl, Iff.rfl⟩
  | signal =>
    refine ⟨?_, Iff.rfl⟩
    unfold step signal
    dsimp only
    split <;> rfl
  | flush t => exact ⟨handover_flush t, iff_of_true trivial (htake _ _ _).1⟩
  | select arm => exact ⟨rfl, Iff.rfl⟩
  | flushFromBuffer => exact ⟨handover_flushFromBuffer, iff_of_true trivial (htake _ _ _).2⟩
  | write o input =>
    obtain ⟨hstep, hturn⟩ := @handover_write W I wal s h.flushing.owners o input
    exact ⟨hstep, hturn.trans (and_iff_left trivial).symm⟩
  | callback o => exact ⟨handover_callback h.flushing.owners o, Iff.rfl⟩
  | close =>
    refine ⟨?_, Iff.rfl⟩
    unfold step close
    dsimp only
    split <;> rfl
  | closeWal =>
    refine ⟨?_, Iff.rfl⟩
    unfold step closeWal
    dsimp only
    split <;> rfl

/-- The run of the writer on values is a run of the handover. -/
private theorem handover_exec (wal : WalOps W I) (maxBatchSize : Nat) (w : W) (es : List (Event I)) :
    let s := exec (step (values WalEntry) wal) (start () [] maxBatchSize w) es
    s.Inv ∧
      s.handover =
        exec Handover.step Handover.start
          (Run.translate (step (values WalEntry) wal) handoverEvents (start () [] maxBatchSize w) es) ∧
      (Admits (step (values WalEntry) wal) (InTurn (values WalEntry)) (start () [] maxBatchSize w) es ↔
        Admits Handover.step Handover.InTurn Handover.start
          (Run.translate (step (values WalEntry) wal) handoverEvents (start () [] maxBatchSize w) es)) := by
  have hinv : ∀ (s : AsyncWALWriter Unit (List WalEntry) W) (e : Event I), s.Inv → True →
      (s.step (values WalEntry) wal e).Inv := fun s e h _ => inv_step h e
  exact Run.exec_translate hinv (fun s e h _ => (@handover_step W I wal s h e).1)
    (fun s e h _ => (@handover_step W I wal s h e).2) (inv_start maxBatchSize w) fun _ _ => trivial

end Values

theorem lots_view (s : AsyncWALWriter (List (List WalEntry)) Slice W) :
    (view s).lots (values WalEntry) = s.lots (arrays WalEntry) := by
  show (s.flights.map _).flatMap _ = s.flights.flatMap _
  rw [List.flatMap_map]
  rfl

/-- The turns of the writer on slices are those of the writer on values. -/
private theorem admits_inTurn_view (wal : WalOps W I) (maxBatchSize : Nat) (w : W) (es : List (Event I)) :
    Admits (step (arrays WalEntry) wal) (InTurn (arrays WalEntry)) (newAsyncWALWriter maxBatchSize w) es ↔
      Admits (step (values WalEntry) wal) (InTurn (values WalEntry)) (start () [] maxBatchSize w) es := by
  refine admits_view (fun s e _ => ?_) maxBatchSize w es
  cases e <;> simp only [InTurn, lots_view]

/-- With no error, the batches reach the file in the order of the appends if every write is made in its turn, and when
no flush is left running, only if. -/
theorem inOrder_iff (wal : WalOps W I) (maxBatchSize : Nat) (w : W) (es : List (Event I)) :
    let s := exec (step (arrays WalEntry) wal) (newAsyncWALWriter maxBatchSize w) es
    (Admits (step (arrays WalEntry) wal) (InTurn (arrays WalEntry)) (newAsyncWALWriter maxBatchSize w) es →
        s.log.reached.Sublist s.log.appended) ∧
      (s.flights = [] → (∀ p ∈ s.log.writes, p.2 = none) → (s.log.reached.Sublist s.log.appended ↔
        Admits (step (arrays WalEntry) wal) (InTurn (arrays WalEntry)) (newAsyncWALWriter maxBatchSize w) es)) := by
  intro s
  have hview : view s = exec (step (values WalEntry) wal) (start () [] maxBatchSize w) es := by
    exact view_exec (apart_new maxBatchSize w) es
  rw [admits_inTurn_view]
  obtain ⟨hinv, hexec, hadmits⟩ := handover_exec wal maxBatchSize w es
  rw [← hview] at hinv hexec
  generalize Run.translate (step (values WalEntry) wal) handoverEvents (start () [] maxBatchSize w) es =
    hs at hexec hadmits
  have htaken : (exec Handover.step (Handover.start : Handover Flusher (List WalEntry)) hs).taken =
      s.log.batches.filter hasBytes := by
    rw [← hexec]; rfl
  have hwrites : (exec Handover.step (Handover.start : Handover Flusher (List WalEntry)) hs).delivered =
      s.log.writes.map Prod.fst := by
    rw [← hexec]; rfl
  have hnodup : s.log.appended.Nodup := by
    have hnumbers : (s.log.appended.map WalEntry.number).Nodup := hinv.flushing.numbers ▸ List.nodup_range
    exact hnumbers.of_map _
  have hqueue : s.log.appended = s.log.batches.flatten ++ (view s).buffer := hinv.flushing.queue
  have hsub : ((exec Handover.step (Handover.start : Handover Flusher (List WalEntry)) hs).taken.flatMap id).Sublist
      s.log.appended := by
    rw [htaken, List.flatMap_id, hqueue]
    exact (List.filter_sublist.flatten).trans (List.sublist_append_left _ _)
  have hentries : (s.log.writes.map Prod.fst).flatMap id = s.log.writes.flatMap Prod.fst := by
    rw [List.flatMap_map]
    rfl
  refine ⟨fun hturn => ?_, fun hdone hok => ?_⟩
  · have hdelivered := Handover.sublist_of_inTurn hsub (hadmits.1 hturn)
    rw [hwrites, hentries] at hdelivered
    exact (List.filter_sublist.flatMap _).trans hdelivered
  · have hreached : s.log.reached = s.log.writes.flatMap Prod.fst := by
      unfold AsyncLog.reached
      rw [List.filter_eq_self.2 fun p hp => decide_eq_true (hok p hp)]
    have hpending : (exec Handover.step (Handover.start : Handover Flusher (List WalEntry)) hs).pending = [] := by
      rw [← hexec]
      show (s.flights.map _).flatMap _ = []
      rw [hdone]
      rfl
    have hne : ∀ u ∈ (exec Handover.step (Handover.start : Handover Flusher (List WalEntry)) hs).taken,
      id u ≠ [] := by
      rintro u hu rfl
      rw [htaken] at hu
      exact Bool.false_ne_true (List.mem_filter.1 hu).2
    have hiff := Handover.sublist_iff_inTurn hnodup hne hsub hpending
    rwa [hwrites, hentries, ← hreached, ← hadmits] at hiff

end AsyncWALWriter

/-- For both writers: in every run in which each write is made in its turn, what is in the file is in the order of the
appends; and a run without errors that leaves no flush running has this order only if it is of this kind. -/
theorem fileOrder_iff_inTurn (maxBatchSize : Nat) (es : List SyncWALWriter.Event) {W I : Type} (wal : WalOps W I)
    (w : W) (fs : List (AsyncWALWriter.Event I)) :
    ((∀ e ∈ es, SyncWALWriter.Succeeds e) →
      let s := exec SyncWALWriter.step (SyncWALWriter.newSyncWALWriter maxBatchSize) es
      let turns := Admits SyncWALWriter.step SyncWALWriter.InTurn (SyncWALWriter.newSyncWALWriter maxBatchSize) es
      (turns → s.file.Sublist s.appended) ∧ (s.flushes = [] → (s.file.Sublist s.appended ↔ turns))) ∧
    (let step := AsyncWALWriter.step (SliceOps.arrays WalEntry) wal
      let s := exec step (AsyncWALWriter.newAsyncWALWriter maxBatchSize w) fs
      let turns := Admits step (AsyncWALWriter.InTurn (SliceOps.arrays WalEntry))
        (AsyncWALWriter.newAsyncWALWriter maxBatchSize w) fs
      (turns → s.log.reached.Sublist s.log.appended) ∧
        (s.flights = [] → (∀ p ∈ s.log.writes, p.2 = none) → (s.log.reached.Sublist s.log.appended ↔ turns))) :=
  ⟨fun hes => SyncWALWriter.inOrder_iff maxBatchSize hes, AsyncWALWriter.inOrder_iff wal maxBatchSize w fs⟩

/-- Two goroutines in `Write` with batches of one record: the second one takes the buffer later and writes first. -/
def twoWrites : List SyncWALWriter.Event :=
  [.append 0 [1], .swap 0, .append 1 [2], .swap 1, .write 1 none, .write 0 none]

/-- The later record comes first in the file, and so does the later batch when the loop overtakes a caller of
`Flush`. -/
theorem not_fileOrder_overtaken :
    (exec SyncWALWriter.step (SyncWALWriter.newSyncWALWriter 1) twoWrites).appended = [⟨0, [1]⟩, ⟨1, [2]⟩] ∧
      (exec SyncWALWriter.step (SyncWALWriter.newSyncWALWriter 1) twoWrites).file = [⟨1, [2]⟩, ⟨0, [1]⟩] ∧
      (exec (AsyncWALWriter.step (SliceOps.arrays WalEntry) AsyncWALWriter.recordList)
        (AsyncWALWriter.newAsyncWALWriter 4 []) AsyncWALWriter.twoEntries).log.appended =
          [⟨0, [1], true⟩, ⟨1, [2], true⟩] ∧
      (exec (AsyncWALWriter.step (SliceOps.arrays WalEntry) AsyncWALWriter.recordList)
        (AsyncWALWriter.newAsyncWALWriter 4 []) AsyncWALWriter.twoEntries).log.reached =
          [⟨1, [2], true⟩, ⟨0, [1], true⟩] ∧
      (exec (AsyncWALWriter.step (SliceOps.arrays WalEntry) AsyncWALWriter.recordList)
        (AsyncWALWriter.newAsyncWALWriter 4 []) AsyncWALWriter.twoEntries).wal = [[2], [1]] :=
  ⟨rfl, rfl, rfl, rfl, rfl⟩

end DistributedBloomFilter
