import DistributedBloomFilter.Metadata.Load
import DistributedBloomFilter.Metadata.Replace
import DistributedBloomFilter.Raft.Formats

/-!
# The text of the metadata

What `json.MarshalIndent` makes of `Metadata` and `json.Unmarshal` of that text.  With it the two ends of
`metadata.json` meet: `Save` with its temporary file, concurrent calls and processes that end at any point, and the
`Load` of the process that comes next (`newService_of_run`).

A value of the configuration is read as what its text says: an integer comes back as a number, and one that is too
large for a floating-point number makes the whole file unreadable, so that the next process starts afresh.
-/

namespace DistributedBloomFilter

open JsonText (integer WellFormed wellFormed_integer)

variable (j : JsonEnv)

/-- A value of the configuration after it was written and read. -/
def MetaValue.reread (v : MetaValue) : MetaValue :=
  match v.toValue j with
  | .ok x => .ofValue x
  | .error _ => v

variable {j}

/-- The parts of a computation that has a result. -/
private theorem bind_eq_ok {α β : Type} {e : Except String α} {f : α → Except String β} {b : β}
    (h : (e >>= f) = .ok b) : ∃ a, e = .ok a ∧ f a = .ok b := by
  cases e with
  | error err => cases h
  | ok a => exact ⟨a, rfl, h⟩

theorem int64_integer (typeError : JsonValue → String) (i : Int64) (d : Decoded Int64) :
    Decoder.int64 typeError (metadataEnv j).parseInt (integer i.toInt) d = .ok ⟨i, d.savedError⟩ := by
  simp only [integer, Decoder.int64, metadataEnv, String.toList_ofList, Decimal.parseInt64_print]
  rfl

theorem custom_time {text : String} {t : Time} (h : j.parseTime (.string text) = .ok t) (d : Decoded Time) :
    Decoder.custom (metadataEnv j).parseTime (.string text) d = .ok ⟨t, d.savedError⟩ := by
  simp only [Decoder.custom, metadataEnv, h]
  rfl

theorem nodup_statsFields : ((metadataEnv j).statsFields.map fun f => JsonValue.foldName f.1).Nodup := by
  show (["total_adds", "total_removes", "total_queries", "last_backup", "last_compaction"].map
    JsonValue.foldName).Nodup
  decide +kernel

theorem nodup_metadataFields : ((metadataEnv j).metadataFields.map fun f => JsonValue.foldName f.1).Nodup := by
  show (["node_id", "created_at", "updated_at", "version", "cluster_nodes", "config", "stats"].map
    JsonValue.foldName).Nodup
  decide +kernel

/-- The statistics are read back. -/
theorem Stats.value_spec (hj : j.WholeMinutes) {s : Stats} {v : JsonValue} (h : s.value j = .ok v)
    (typeError : JsonValue → String) (err : Option String) :
    WellFormed v ∧ Decoder.pointer Stats.zero (.struct typeError (metadataEnv j).statsFields) v ⟨none, err⟩ =
      .ok ⟨some s, err⟩ := by
  obtain ⟨backup, hbackup, h⟩ := bind_eq_ok h
  obtain ⟨compaction, hcompaction, h⟩ := bind_eq_ok h
  obtain ⟨backupText, rfl, hbackupRead⟩ := j.timeValue_spec hj hbackup
  obtain ⟨compactionText, rfl, hcompactionRead⟩ := j.timeValue_spec hj hcompaction
  cases h
  refine ⟨.object ?_, ?_⟩
  · simp only [List.forall_mem_cons]
    exact ⟨wellFormed_integer _, wellFormed_integer _, wellFormed_integer _, .string _, .string _, by simp⟩
  · let values := [integer s.totalAdds.toInt, integer s.totalRemoves.toInt, integer s.totalQueries.toInt,
      .string backupText, .string compactionText]
    have hfields := Decoder.decodeMembers_fields (nodup_statsFields (j := j))
      (fun m hm => (List.of_mem_zip hm).1 : ∀ m ∈ (metadataEnv j).statsFields.zip values, _) ⟨Stats.zero, err⟩
    have hread : Decoder.struct typeError (metadataEnv j).statsFields
        (.object (((metadataEnv j).statsFields.zip values).map fun m => (m.1.1, m.2))) ⟨Stats.zero, err⟩ =
        .ok ⟨s, err⟩ := by
      refine hfields.trans ?_
      simp only [MetadataEnv.statsFields, values, List.zip_cons_cons, List.zip_nil_right, List.foldlM_cons,
        List.foldlM_nil, Decoder.part, int64_integer, custom_time hbackupRead, custom_time hcompactionRead]
      rfl
    exact congrArg (Except.map fun r : Decoded Stats => (⟨some r.value, r.savedError⟩ : Decoded (Option Stats))) hread

/-- Entries with different keys, all of whose numbers fit, are read in their order. -/
theorem mapEntries_of_fits (field : String) (zero : MetaValue) (ms : List (String × JsonValue))
    (read : List (String × MetaValue)) (err : Option String)
    (hfits : ∀ m ∈ ms, m.2.literals.find? JsonValue.overflows = none)
    (hkeys : (read.map Prod.fst ++ ms.map Prod.fst).Nodup) :
    Decoder.mapEntries zero (.any field MetaValue.ofValue) ms ⟨read, err⟩ =
      .ok ⟨read ++ ms.map fun m => (m.1, .ofValue m.2), err⟩ := by
  induction ms generalizing read with
  | nil => rw [Decoder.mapEntries, List.map_nil, List.append_nil]
  | cons m ms ih =>
    obtain ⟨key, v⟩ := m
    have hv : v.literals.find? JsonValue.overflows = none := hfits (key, v) (List.mem_cons_self ..)
    have hnew : read.filter (fun e => e.1 ≠ key) = read := by
      refine List.filter_eq_self.2 fun e he => ?_
      have hne : e.1 ≠ key := fun heq => (List.nodup_append.1 hkeys).2.2 e.1 (List.mem_map_of_mem he) key
        (List.mem_cons_self ..) heq
      simpa using hne
    rw [Decoder.mapEntries]
    simp only [Decoder.any, hv, Decoded.set, hnew]
    rw [ih _ fun m hm => hfits m (List.mem_cons_of_mem _ hm), List.append_assoc]
    · rfl
    · rw [List.map_append, List.append_assoc]
      exact hkeys

/-! ### A text is read back -/

/-- The numbers of the configuration fit into floating-point numbers, as which they are read. -/
def Metadata.Fits (j : JsonEnv) (m : Metadata MetaValue) : Prop := SnapshotData.Readable j (some m.config)

/-- The metadata after they were written and read: the map has the same keys with the values reread. -/
def Metadata.Rereads (j : JsonEnv) (m m' : Metadata MetaValue) : Prop :=
  m' = { m with config := m'.config } ∧ m'.config.Perm (m.config.map fun e => (e.1, e.2.reread j))

/-- The members have the keys of the map, with the values that are read from them. -/
private theorem map_ofValue_of_mapM {entries : List (String × MetaValue)} {ms : List (String × JsonValue)}
    (h : (entries.mapM fun e => (e.2.toValue j).map fun v => (e.1, v)) = .ok ms) :
    (ms.map fun m => (m.1, MetaValue.ofValue m.2)) = entries.map fun e => (e.1, e.2.reread j) := by
  induction entries generalizing ms with
  | nil => cases h; rfl
  | cons e entries ih =>
    rw [List.mapM_cons] at h
    obtain ⟨m, hm, h⟩ := bind_eq_ok h
    obtain ⟨ms', hms, h⟩ := bind_eq_ok h
    cases h
    cases hv : e.2.toValue j with
    | error err => rw [hv] at hm; cases hm
    | ok v =>
      rw [hv] at hm
      cases hm
      rw [List.map_cons, List.map_cons, ih hms, MetaValue.reread, hv]

/-- The configuration is read back when its numbers fit; otherwise one of them is the error. -/
theorem mapOf_config {config : List (String × MetaValue)} (hkeys : (config.map Prod.fst).Nodup) {v : JsonValue}
    (h : SnapshotData.metadataValue j (some config) = .ok v) (typeError : JsonValue → String) :
    ∃ read, Decoder.mapOf typeError (metadataEnv j).nilValue (metadataEnv j).value v ⟨none, none⟩ =
        .ok ⟨some read, (v.literals.find? JsonValue.overflows).map
          (Decoder.numberError "struct field Metadata.config of type float64")⟩ ∧
      (v.literals.find? JsonValue.overflows = none → read.Perm (config.map fun e => (e.1, e.2.reread j))) := by
  simp only [SnapshotData.metadataValue] at h
  cases hms : SnapshotData.metadataMembers j config with
  | error err => rw [hms] at h; cases h
  | ok ms =>
    rw [hms] at h
    cases h
    by_cases hfits : (JsonValue.object ms).literals.find? JsonValue.overflows = none
    · have hperm := (List.perm_insertionSort (fun a b : String × MetaValue => a.1 ≤ b.1) config).map
        fun e => (e.1, e.2.reread j)
      have hmap := map_ofValue_of_mapM hms
      refine ⟨ms.map fun m => (m.1, .ofValue m.2), ?_, fun _ => hmap ▸ hperm⟩
      have hread := mapEntries_of_fits "struct field Metadata.config" (metadataEnv j).nilValue ms [] none ?_ ?_
      · rw [hfits]
        exact congrArg (Except.map fun r : Decoded (List (String × MetaValue)) =>
          (⟨some r.value, r.savedError⟩ : Decoded (Option (List (String × MetaValue))))) hread
      · rw [JsonValue.literals_object, List.find?_eq_none] at hfits
        intro m hm
        exact List.find?_eq_none.2 fun literal hliteral => hfits literal (List.mem_flatMap.2 ⟨m, hm, hliteral⟩)
      · have hfst : ms.map Prod.fst = (ms.map fun m => (m.1, MetaValue.ofValue m.2)).map Prod.fst := by
          rw [List.map_map]
          rfl
        rw [List.map_nil, List.nil_append, hfst, hmap]
        have hsame : (config.map fun e => (e.1, e.2.reread j)).map Prod.fst = config.map Prod.fst := by
          rw [List.map_map]
          rfl
        exact (hperm.map Prod.fst).nodup_iff.2 (hsame ▸ hkeys)
    · obtain ⟨read, hread⟩ := Decoder.mapEntries_any "struct field Metadata.config" (metadataEnv j).nilValue
        MetaValue.ofValue ms ⟨[], none⟩
      refine ⟨read, ?_, fun h => absurd h hfits⟩
      exact congrArg (Except.map fun r : Decoded (List (String × MetaValue)) =>
        (⟨some r.value, r.savedError⟩ : Decoded (Option (List (String × MetaValue))))) hread

namespace LoadedMetadata

/-- The slice of the nodes is read into a nil one. -/
private theorem pointer_nodesValue (typeError elementError : JsonValue → String) (nodes : List String) :
    Decoder.pointer ⟨[], []⟩ (.slice typeError "" (.string elementError)) (nodesValue (some nodes)) ⟨none, none⟩ =
      .ok ⟨some ⟨nodes, []⟩, none⟩ :=
  congrArg (Except.map _) (Decoder.slice_string typeError elementError nodes none)

/-- The values of all fields, and what reading them gives. -/
private theorem run_value (hj : j.WholeMinutes) {m : Metadata MetaValue} (hkeys : (m.config.map Prod.fst).Nodup)
    {v : JsonValue} (h : (ofMetadata m).value j = .ok v) :
    WellFormed v ∧ ∃ config read, SnapshotData.metadataValue j (some m.config) = .ok config ∧
      (config.literals.find? JsonValue.overflows = none → read.Perm (m.config.map fun e => (e.1, e.2.reread j))) ∧
      Decoder.run (.struct ((metadataEnv j).typeError "") (metadataEnv j).metadataFields) .zero v =
        match config.literals.find? JsonValue.overflows with
        | some literal => .error (Decoder.numberError "struct field Metadata.config of type float64" literal)
        | none => .ok ⟨ofMetadata { m with config := read }, []⟩ := by
  obtain ⟨created, hcreated, h⟩ := bind_eq_ok h
  obtain ⟨updated, hupdated, h⟩ := bind_eq_ok h
  obtain ⟨config, hconfig, h⟩ := bind_eq_ok h
  obtain ⟨stats, hstats, h⟩ := bind_eq_ok h
  obtain ⟨createdText, rfl, hcreatedRead⟩ := j.timeValue_spec hj hcreated
  obtain ⟨updatedText, rfl, hupdatedRead⟩ := j.timeValue_spec hj hupdated
  cases h
  obtain ⟨read, hread, hperm⟩ := mapOf_config hkeys hconfig ((metadataEnv j).typeError "config")
  have hstatsRead := Stats.value_spec hj hstats ((metadataEnv j).typeError "stats")
  refine ⟨.object ?_, config, read, hconfig, hperm, ?_⟩
  · simp only [List.forall_mem_cons]
    refine ⟨.string _, .string _, .string _, .string _, .array ?_, (SnapshotData.metadataValue_cases hconfig).1,
      (hstatsRead none).1, by simp⟩
    simp only [List.forall_mem_map]
    exact fun node _ => .string node
  · let values := [.string m.nodeID, .string createdText, .string updatedText, .string m.version,
      nodesValue (some m.clusterNodes), config, stats]
    have hrun := Decoder.run_fields (nodup_metadataFields (j := j)) ((metadataEnv j).typeError "")
      ((metadataEnv j).metadataFields.zip values) (fun f hf => (List.of_mem_zip hf).1) MetadataVar.zero
      ⟨⟨ofMetadata { m with config := read }, []⟩, (config.literals.find? JsonValue.overflows).map
        (Decoder.numberError "struct field Metadata.config of type float64")⟩ ?_
    · refine hrun.trans ?_
      cases config.literals.find? JsonValue.overflows <;> rfl
    · simp only [MetadataEnv.metadataFields, values, List.zip_cons_cons, List.zip_nil_right]
      refine Decoder.foldlM_step rfl ?_
      refine Decoder.foldlM_step (congrArg (Except.map _) (custom_time hcreatedRead _)) ?_
      refine Decoder.foldlM_step (congrArg (Except.map _) (custom_time hupdatedRead _)) ?_
      refine Decoder.foldlM_step rfl ?_
      refine Decoder.foldlM_step (congrArg (Except.map _) (pointer_nodesValue _ _ m.clusterNodes)) ?_
      refine Decoder.foldlM_step (congrArg (Except.map _) hread) ?_
      refine Decoder.foldlM_step (congrArg (Except.map _) (hstatsRead _).2) ?_
      rfl

/-- `Load` of the text of some metadata. -/
theorem load_marshal (hj : j.WholeMinutes) {m : Metadata MetaValue} (hkeys : (m.config.map Prod.fst).Nodup)
    {data : Bytes} (h : (metadataEnv j).marshal (ofMetadata m) = .ok data) (current : LoadedMetadata MetaValue) :
    (m.Fits j → ∃ m', m.Rereads j m' ∧ load (metadataEnv j) (.ok data) current = (ofMetadata m', none)) ∧
      (¬ m.Fits j → ∃ err, load (metadataEnv j) (.ok data) current = (current, some err)) := by
  simp only [metadataEnv] at h
  cases hv : (ofMetadata m).value j with
  | error err => rw [hv] at h; cases h
  | ok v =>
    rw [hv] at h
    cases h
    obtain ⟨hwell, config, read, hconfig, hperm, hrun⟩ := run_value hj hkeys hv
    have hfits : m.Fits j ↔ config.literals.find? JsonValue.overflows = none := by
      refine ⟨fun h => h config hconfig, fun h config' hconfig' => ?_⟩
      obtain rfl := Except.ok.inj (hconfig.symm.trans hconfig')
      exact h
    unfold load MetadataEnv.unmarshal
    dsimp only
    rw [parse_indented hwell]
    dsimp only
    rw [hrun, hfits]
    cases hfind : config.literals.find? JsonValue.overflows with
    | none => exact ⟨fun _ => ⟨{ m with config := read }, ⟨rfl, hperm hfind⟩, rfl⟩, fun h => absurd rfl h⟩
    | some literal => exact ⟨fun h => absurd h (Option.some_ne_none literal), fun _ => ⟨_, rfl⟩⟩

end LoadedMetadata

/-! ### Processes one after another -/

/-- A text without cluster nodes, a configuration or statistics is not that of a `Metadata`. -/
def metadataJson (j : JsonEnv) : Json (Metadata MetaValue) where
  marshal m := (metadataEnv j).marshal (.ofMetadata m)
  unmarshal data :=
    match (metadataEnv j).unmarshal data with
    | .error err => .error err
    | .ok m =>
      match m.clusterNodes, m.config, m.stats with
      | some clusterNodes, some config, some stats =>
        .ok ⟨m.nodeID, m.createdAt, m.updatedAt, m.version, clusterNodes, config, stats⟩
      | _, _, _ => .error "metadata with a nil slice, map or pointer"

namespace Metadata

/-- What `NewService` starts with. -/
def fresh (created updated : Time) : Metadata MetaValue := ⟨"", created, updated, "1.0.0", [], [], .zero⟩

/-- No two entries of the map have the same key. -/
def Keyed (m : Metadata MetaValue) : Prop := (m.config.map Prod.fst).Nodup

theorem keyed_mutate {m : Metadata MetaValue} (h : m.Keyed) (now : Time) (mutation : Mutation MetaValue) :
    (m.mutate now mutation).Keyed := by
  cases mutation with
  | setConfig key value =>
    show (((m.config.filter fun e => e.1 ≠ key) ++ [(key, value)]).map Prod.fst).Nodup
    rw [List.map_append]
    refine List.nodup_append.2 ⟨h.sublist (List.filter_sublist.map _), List.nodup_singleton _, ?_⟩
    intro k hk k' hk' heq
    obtain ⟨e, he, rfl⟩ := List.mem_map.1 hk
    rw [List.map_singleton, List.mem_singleton] at hk'
    have := (List.mem_filter.1 he).2
    simp [heq, hk'] at this
  | addClusterNode nodeID =>
    show (m.addClusterNode now nodeID).Keyed
    unfold addClusterNode
    split <;> exact h
  | _ => exact h

theorem Rereads.keyed {m m' : Metadata MetaValue} (h : m.Rereads j m') (hm : m.Keyed) : m'.Keyed := by
  have hsame : (m.config.map fun e => (e.1, e.2.reread j)).map Prod.fst = m.config.map Prod.fst := by
    rw [List.map_map]
    rfl
  exact (h.2.map Prod.fst).nodup_iff.2 (hsame ▸ hm)

end Metadata

namespace SavingService

variable (json : Json (Metadata MetaValue)) (s : SavingService MetaValue)

/-- What `os.ReadFile` of `metadata.json` gives. -/
def readFile : Except String Bytes :=
  match s.dir.read metadataPath with
  | none => .error "open metadata.json: no such file or directory"
  | some data => .ok data

/-- What `Load` and `NewService` leave is what they read. -/
def Reads (j : JsonEnv) (s : SavingService MetaValue) : Event MetaValue → Prop
  | .load m => LoadedMetadata.load (metadataEnv j) s.readFile (.ofMetadata s.service.metadata) = (.ofMetadata m, none)
  | .crash m => ∃ created updated,
    LoadedMetadata.newService (metadataEnv j) created updated s.readFile = .ofMetadata m
  | _ => True

theorem metadata_write (service : Service MetaValue) (t : Nat) : (service.write t).metadata = service.metadata := by
  unfold Service.write
  split <;> rfl

/-- The steps of a `Save` that holds the lock leave the metadata alone. -/
theorem advance_frame (t : Nat) (stage : SaveStage) (e : Event MetaValue) :
    (s.advance t stage e).service.metadata = s.service.metadata ∧ (s.advance t stage e).snapshots = s.snapshots := by
  unfold advance
  split
  case h_6 =>
    -- the file is replaced
    split
    · exact ⟨rfl, rfl⟩
    · exact ⟨metadata_write _ _, rfl⟩
  case h_2 =>
    split
    · split <;> exact ⟨rfl, rfl⟩
    · exact ⟨rfl, rfl⟩
  all_goals first | exact ⟨rfl, rfl⟩ | (split <;> exact ⟨rfl, rfl⟩)

/-- The metadata of the process and all those that were saved are maps. -/
structure AllKeyed (s : SavingService MetaValue) : Prop where
  metadata : s.service.metadata.Keyed
  snapshots : ∀ m ∈ s.snapshots, m.Keyed

variable {json s}

theorem keyed_snapshot (h : s.AllKeyed) (t : Nat) (now : Time) : ∀ m ∈ s.snapshot json t now, m.Keyed := by
  intro m hm
  unfold snapshot at hm
  split at hm
  · rw [List.mem_singleton] at hm
    exact hm ▸ h.metadata
  · cases hm

theorem keyed_marshal (h : s.AllKeyed) (t : Nat) (now : Time) : (s.service.marshal json t now).metadata.Keyed := by
  unfold Service.marshal
  split
  · exact h.metadata
  · dsimp only
    split <;> exact h.metadata

/-- What `NewService` starts with in this directory: the text of some saved metadata, reread; or new metadata when
there is no file, or one with a number that does not fit. -/
def Starts (j : JsonEnv) (s : SavingService MetaValue) (created updated : Time) (m : Metadata MetaValue) : Prop :=
  match s.dir.read metadataPath with
  | none => m = .fresh created updated
  | some data => ∃ saved ∈ s.snapshots, (metadataJson j).marshal saved = .ok data ∧
      (saved.Fits j → saved.Rereads j m) ∧ (¬ saved.Fits j → m = .fresh created updated)

theorem newService_of_whole (hj : j.WholeMinutes) (h : s.AllKeyed) (hwhole : s.Whole (metadataJson j) none)
    (created updated : Time) :
    ∃ m, LoadedMetadata.newService (metadataEnv j) created updated s.readFile = .ofMetadata m ∧
      s.Starts j created updated m := by
  unfold Starts readFile
  rcases hwhole with hnone | ⟨saved, hsaved, data, hmarshal, hread⟩
  · rw [hnone]
    exact ⟨.fresh created updated, rfl, rfl⟩
  · rw [hread]
    obtain ⟨hfits, hnot⟩ := LoadedMetadata.load_marshal hj (h.snapshots saved hsaved) hmarshal
      (.fresh created updated)
    by_cases hm : saved.Fits j
    · obtain ⟨m, hrereads, hload⟩ := hfits hm
      exact ⟨m, congrArg Prod.fst hload, saved, hsaved, hmarshal, fun _ => hrereads, fun h => absurd hm h⟩
    · obtain ⟨err, hload⟩ := hnot hm
      exact ⟨.fresh created updated, congrArg Prod.fst hload, saved, hsaved, hmarshal, fun h => absurd h hm,
        fun _ => rfl⟩

theorem Starts.keyed (h : s.AllKeyed) {created updated : Time} {m : Metadata MetaValue}
    (hstarts : s.Starts j created updated m) : m.Keyed := by
  have hfresh : (Metadata.fresh created updated).Keyed := List.nodup_nil
  unfold Starts at hstarts
  split at hstarts
  · exact hstarts ▸ hfresh
  · obtain ⟨saved, hsaved, -, hfits, hnot⟩ := hstarts
    by_cases hm : saved.Fits j
    · exact (hfits hm).keyed (h.snapshots saved hsaved)
    · exact hnot hm ▸ hfresh

theorem ofMetadata_injective {m m' : Metadata MetaValue}
    (h : LoadedMetadata.ofMetadata m = LoadedMetadata.ofMetadata m') : m = m' := by
  cases m
  cases m'
  simp only [LoadedMetadata.ofMetadata, LoadedMetadata.mk.injEq, Option.some.injEq] at h
  simp only [Metadata.mk.injEq]
  exact h

/-- What `Load` leaves is a map too. -/
theorem keyed_of_load (hj : j.WholeMinutes) (h : s.AllKeyed) (hwhole : s.Whole (metadataJson j) none)
    {m : Metadata MetaValue} (hload : s.Reads j (.load m)) : m.Keyed := by
  unfold Reads readFile at hload
  rcases hwhole with hnone | ⟨saved, hsaved, data, hmarshal, hread⟩
  · rw [hnone] at hload
    cases congrArg Prod.snd hload
  · rw [hread] at hload
    obtain ⟨hfits, hnot⟩ := LoadedMetadata.load_marshal hj (h.snapshots saved hsaved) hmarshal
      (.ofMetadata s.service.metadata)
    by_cases hm : saved.Fits j
    · obtain ⟨m', hrereads, hload'⟩ := hfits hm
      rw [ofMetadata_injective (congrArg Prod.fst (hload.symm.trans hload'))]
      exact hrereads.keyed (h.snapshots saved hsaved)
    · obtain ⟨err, hload'⟩ := hnot hm
      cases congrArg Prod.snd (hload.symm.trans hload')

theorem keyed_step (hj : j.WholeMinutes) (h : s.AllKeyed) (hwhole : s.Whole (metadataJson j) none)
    (e : Event MetaValue) (he : s.Reads j e) : (s.step (metadataJson j) e).AllKeyed := by
  have hadvance : ∀ t stage e', (s.advance t stage e').AllKeyed := by
    intro t stage e'
    obtain ⟨hmetadata, hsnapshots⟩ := advance_frame s t stage e'
    exact ⟨hmetadata ▸ h.metadata, hsnapshots ▸ h.snapshots⟩
  cases e with
  | mutate now mutation => exact ⟨Metadata.keyed_mutate h.metadata now mutation, h.snapshots⟩
  | load m => exact ⟨keyed_of_load hj h hwhole he, h.snapshots⟩
  | save t =>
    refine ⟨?_, h.snapshots⟩
    show (s.service.save t).metadata.Keyed
    unfold Service.save
    split <;> exact h.metadata
  | marshal t now =>
    refine ⟨keyed_marshal h t now, fun m hm => ?_⟩
    rcases List.mem_append.1 hm with hm | hm
    · exact h.snapshots m hm
    · exact keyed_snapshot h t now m hm
  | lock t =>
    show (if _ then _ else s : SavingService MetaValue).AllKeyed
    split
    · exact ⟨h.metadata, h.snapshots⟩
    · exact h
  | crash m =>
    refine ⟨?_, h.snapshots⟩
    obtain ⟨created, updated, hnew⟩ := he
    obtain ⟨m', hnew', hstarts⟩ := newService_of_whole hj h hwhole created updated
    show m.Keyed
    rw [ofMetadata_injective (hnew.symm.trans hnew')]
    exact hstarts.keyed h
  | mkdirAll | openFile | write | writeFails | close | rename | remove | syncDir | unlock =>
    cases hheld : s.holder with
    | none =>
      simp only [step, hheld]
      exact h
    | some held =>
      simp only [step, hheld]
      exact hadvance held.1 held.2 _

/-- The first process starts in an empty directory, and every later one with what it reads there.  Whatever goroutines
change and save the metadata, whichever call of the file system fails, and wherever a process ends: the next process
starts with usable metadata, those of one `Save` of some process before it as its text is reread, or new ones when
none has replaced the file yet or a number in that text does not fit. -/
theorem newService_of_run (hj : j.WholeMinutes) (created₀ updated₀ : Time) (es : List (Event MetaValue))
    (hes : Run.Admits (step (metadataJson j)) (Reads j) (start (.fresh created₀ updated₀) .empty) es)
    (created updated : Time) :
    ∃ m, LoadedMetadata.newService (metadataEnv j) created updated
        (Run.exec (step (metadataJson j)) (start (.fresh created₀ updated₀) .empty) es).readFile = .ofMetadata m ∧
      (Run.exec (step (metadataJson j)) (start (.fresh created₀ updated₀) .empty) es).Starts j created updated m := by
  have hstart : (start (.fresh created₀ updated₀) .empty : SavingService MetaValue).AllKeyed :=
    ⟨List.nodup_nil, fun _ hm => absurd hm List.not_mem_nil⟩
  have hempty : Inv (metadataJson j) none (start (.fresh created₀ updated₀) .empty) := inv_start _ .empty
  have hstep : ∀ (s : SavingService MetaValue) (e : Event MetaValue), s.AllKeyed ∧ Inv (metadataJson j) none s →
      s.Reads j e → (s.step (metadataJson j) e).AllKeyed ∧ Inv (metadataJson j) none (s.step (metadataJson j) e) :=
    fun s e h he => ⟨keyed_step hj h.1 h.2.whole e he, inv_step h.2 e⟩
  have hinv := Run.invariant hstep ⟨hstart, hempty⟩ hes
  exact newService_of_whole hj hinv.1 hinv.2.whole created updated

/-- A process names its node and saves; the next one counts a query and ends while it saves again. -/
def renamedNode : List (Event MetaValue) :=
  [.mutate 3 (.setNodeID "node1"), .mutate 4 (.setConfig "bits" (.int 1024)), .save 0, .marshal 0 5, .lock 0,
    .mkdirAll true, .openFile true, .write 500, .close true, .rename true, .syncDir, .unlock,
    .crash ⟨"node1", 1, 5, "1.0.0", [], [("bits", .raw (utf8 "1024"))], .zero⟩,
    .mutate 7 .recordQuery, .save 0, .marshal 0 8, .lock 0, .mkdirAll true, .openFile true, .write 9]

theorem newService_renamedNode :
    Run.Admits (step (metadataJson utcEnv)) (Reads utcEnv) (start (.fresh 1 2) .empty) renamedNode ∧
      ∃ m, LoadedMetadata.newService (metadataEnv utcEnv) 10 11
          (Run.exec (step (metadataJson utcEnv)) (start (.fresh 1 2) .empty) renamedNode).readFile = .ofMetadata m ∧
        (Run.exec (step (metadataJson utcEnv)) (start (.fresh 1 2) .empty) renamedNode).Starts utcEnv 10 11 m := by
  have hadmits : Run.Admits (step (metadataJson utcEnv)) (Reads utcEnv) (start (.fresh 1 2) .empty) renamedNode := by
    refine ⟨trivial, trivial, trivial, trivial, trivial, trivial, trivial, trivial, trivial, trivial, trivial,
      trivial, ⟨0, 0, by decide +kernel⟩, trivial, trivial, trivial, trivial, trivial, trivial, trivial, trivial⟩
  exact ⟨hadmits, newService_of_run wholeMinutes_utcEnv 1 2 renamedNode hadmits 10 11⟩

end SavingService

end DistributedBloomFilter
