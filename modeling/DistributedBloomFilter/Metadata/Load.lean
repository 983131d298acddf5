import DistributedBloomFilter.Metadata.Service
import DistributedBloomFilter.Raft.Formats

/-!
# Metadata that was loaded

`Load` of `internal/metadata/service.go` replaces the metadata that `NewService` has made by what `json.Unmarshal`
makes of `metadata.json`.  In a file without a member `stats` or `config`, or where the last one is `null`, the
pointer or the map is nil, and the methods that count or set a configuration value panic: `runs_iff_provides`.  On
metadata that has both, the methods do what those of `Metadata` do.

`metadataEnv` has the texts of `encoding/json`.  A number of the configuration is kept as its literal there, where Go
has a `float64`, and the error for an element of `cluster_nodes` that is not a string names the type of the slice,
where Go has `string`.
-/

namespace DistributedBloomFilter

/-- `Metadata` with a slice, a map and a pointer that can be nil. -/
structure LoadedMetadata (V : Type) where
  nodeID : String
  createdAt : Time
  updatedAt : Time
  version : String
  clusterNodes : Option (List String)
  config : Option (List (String × V))
  stats : Option Stats
deriving DecidableEq

/-- What `encoding/json` does with the texts and with the values inside a file: `parse` reads a text, `parseTime` is
`Time.UnmarshalJSON`, `parseInt` reads an integer of 64 bits, and `value` decodes a value of any type, of which
`nilValue` is the zero.  `typeError` is the error of a value of a wrong type for a field. -/
structure MetadataEnv (V : Type) where
  parse : Bytes → Except String JsonValue
  marshal : LoadedMetadata V → Except String Bytes
  parseTime : JsonValue → Except String Time
  parseInt : String → Option Int64
  nilValue : V
  value : Decoder V
  keepsErrors_value : value.KeepsErrors
  typeError : String → JsonValue → String

/-! ### Loading -/

def Stats.zero : Stats := ⟨0, 0, 0, zeroTime, zeroTime⟩

/-- The variable that a file is decoded into, with the array behind the slice of the nodes. -/
structure MetadataVar (V : Type) where
  metadata : LoadedMetadata V
  spareNodes : List String

namespace MetadataVar

variable {V : Type}

def zero : MetadataVar V := ⟨⟨"", zeroTime, zeroTime, "", none, none, none⟩, []⟩

def update (f : LoadedMetadata V → LoadedMetadata V) (m : MetadataVar V) : MetadataVar V :=
  { m with metadata := f m.metadata }

end MetadataVar

namespace MetadataEnv

variable {V : Type} (env : MetadataEnv V)

def statsFields : List (String × Decoder Stats) :=
  [("total_adds", .part (·.totalAdds) (fun s i => { s with totalAdds := i })
      (.int64 (env.typeError "stats.total_adds") env.parseInt)),
    ("total_removes", .part (·.totalRemoves) (fun s i => { s with totalRemoves := i })
      (.int64 (env.typeError "stats.total_removes") env.parseInt)),
    ("total_queries", .part (·.totalQueries) (fun s i => { s with totalQueries := i })
      (.int64 (env.typeError "stats.total_queries") env.parseInt)),
    ("last_backup", .part (·.lastBackup) (fun s t => { s with lastBackup := t }) (.custom env.parseTime)),
    ("last_compaction", .part (·.lastCompaction) (fun s t => { s with lastCompaction := t }) (.custom env.parseTime))]

def metadataFields : List (String × Decoder (MetadataVar V)) :=
  [("node_id", .part (·.metadata.nodeID) (fun m s => m.update ({ · with nodeID := s }))
      (.string (env.typeError "node_id"))),
    ("created_at", .part (·.metadata.createdAt) (fun m t => m.update ({ · with createdAt := t }))
      (.custom env.parseTime)),
    ("updated_at", .part (·.metadata.updatedAt) (fun m t => m.update ({ · with updatedAt := t }))
      (.custom env.parseTime)),
    ("version", .part (·.metadata.version) (fun m s => m.update ({ · with version := s }))
      (.string (env.typeError "version"))),
    -- `null` leaves a nil slice, as it leaves a nil pointer
    ("cluster_nodes", .part (fun m => m.metadata.clusterNodes.map fun nodes => ⟨nodes, m.spareNodes⟩)
      (fun m nodes => { m.update ({ · with clusterNodes := nodes.map (·.visible) }) with
        spareNodes := (nodes.map (·.spare)).getD [] })
      (.pointer ⟨[], []⟩ (.slice (env.typeError "cluster_nodes") "" (.string (env.typeError "cluster_nodes"))))),
    ("config", .part (·.metadata.config) (fun m config => m.update ({ · with config := config }))
      (.mapOf (env.typeError "config") env.nilValue env.value)),
    ("stats", .part (·.metadata.stats) (fun m stats => m.update ({ · with stats := stats }))
      (.pointer Stats.zero (.struct (env.typeError "stats") env.statsFields)))]

/-- `json.Unmarshal` into a new `Metadata`. -/
def unmarshal (data : Bytes) : Except String (LoadedMetadata V) :=
  match env.parse data with
  | .error err => .error err
  | .ok v => (Decoder.run (.struct (env.typeError "") env.metadataFields) .zero v).map (·.metadata)

end MetadataEnv

namespace LoadedMetadata

variable {V : Type} (env : MetadataEnv V)

/-- `Load`, with what reading the file ends with; after an error the metadata is as it was. -/
def load (read : Except String Bytes) (current : LoadedMetadata V) : LoadedMetadata V × Option String :=
  match read with
  | .error err => (current, some err)
  | .ok data =>
    match env.unmarshal data with
    | .error err => (current, some ("failed to unmarshal metadata: " ++ err))
    | .ok m => (m, none)

/-- What `NewService` starts with. -/
def fresh (created updated : Time) : LoadedMetadata V :=
  { nodeID := "", createdAt := created, updatedAt := updated, version := "1.0.0", clusterNodes := some []
    config := some [], stats := some .zero }

/-- `NewService`; an error of `Load` is printed at most. -/
def newService (created updated : Time) (read : Except String Bytes) : LoadedMetadata V :=
  (load env read (fresh created updated)).1

/-! ### The methods -/

section Methods

variable (now : Time) (m : LoadedMetadata V)

def setNodeID (nodeID : String) : LoadedMetadata V := { m with nodeID := nodeID, updatedAt := now }

def addClusterNode (nodeID : String) : LoadedMetadata V :=
  if nodeID ∈ m.clusterNodes.getD [] then m
  else { m with clusterNodes := some (m.clusterNodes.getD [] ++ [nodeID]), updatedAt := now }

def removeClusterNode (nodeID : String) : LoadedMetadata V :=
  { m with clusterNodes := some ((m.clusterNodes.getD []).filter fun n => n ≠ nodeID), updatedAt := now }

def setConfig (key : String) (value : V) : Except Failure (LoadedMetadata V) :=
  match m.config with
  | none => .error (.panic "assignment to entry in nil map")
  | some config =>
    .ok { m with config := some ((config.filter fun entry => entry.1 ≠ key) ++ [(key, value)]), updatedAt := now }

/-- Reading a nil map finds nothing. -/
def getConfig (key : String) : Option V := (m.config.getD []).lookup key

/-- A write through the pointer. -/
def withStats (f : Stats → Stats) : Except Failure (LoadedMetadata V) :=
  match m.stats with
  | none => .error (.panic "invalid memory address or nil pointer dereference")
  | some stats => .ok { m with stats := some (f stats) }

def recordAdd : Except Failure (LoadedMetadata V) := m.withStats fun s => { s with totalAdds := s.totalAdds + 1 }

def recordRemove : Except Failure (LoadedMetadata V) :=
  m.withStats fun s => { s with totalRemoves := s.totalRemoves + 1 }

def recordQuery : Except Failure (LoadedMetadata V) :=
  m.withStats fun s => { s with totalQueries := s.totalQueries + 1 }

def setLastBackup (t : Time) : Except Failure (LoadedMetadata V) := m.withStats fun s => { s with lastBackup := t }

def setLastCompaction (t : Time) : Except Failure (LoadedMetadata V) :=
  m.withStats fun s => { s with lastCompaction := t }

def getStats : Except Failure Stats :=
  match m.stats with
  | none => .error (.panic "invalid memory address or nil pointer dereference")
  | some stats => .ok stats

/-- The copy has a map and a slice in any case. -/
def getMetadata : LoadedMetadata V :=
  { m with config := some (m.config.getD []), clusterNodes := some (m.clusterNodes.getD []) }

def mutate : Mutation V → Except Failure (LoadedMetadata V)
  | .setNodeID nodeID => .ok (m.setNodeID now nodeID)
  | .addClusterNode nodeID => .ok (m.addClusterNode now nodeID)
  | .removeClusterNode nodeID => .ok (m.removeClusterNode now nodeID)
  | .setConfig key value => m.setConfig now key value
  | .recordAdd => m.recordAdd
  | .recordRemove => m.recordRemove
  | .recordQuery => m.recordQuery
  | .setLastBackup t => m.setLastBackup t
  | .setLastCompaction t => m.setLastCompaction t

/-- `Save`, with what writing the file ends with. -/
def save (written : Option String) : LoadedMetadata V × Option String :=
  let m := { m with updatedAt := now }
  match env.marshal m with
  | .error err => (m, some ("failed to marshal metadata: " ++ err))
  | .ok _ => (m, written)

end Methods

end LoadedMetadata

/-- A call of a method of the service. -/
inductive ServiceCall (V : Type) where
  | mutate (mutation : Mutation V)
  | getNodeID
  | getClusterNodes
  | getConfig (key : String)
  | getStats
  | getMetadata
  | save (written : Option String)

/-- What a call returns. -/
inductive ServiceReply (V : Type) where
  | none
  | nodeID (nodeID : String)
  | clusterNodes (nodes : List String)
  | config (value : Option V)
  | stats (stats : Stats)
  | metadata (m : LoadedMetadata V)
  | saved (err : Option String)

namespace ServiceCall

variable {V : Type}

/-- The call goes through the pointer to the statistics. -/
def UsesStats : ServiceCall V → Prop
  | mutate .recordAdd | mutate .recordRemove | mutate .recordQuery => True
  | mutate (.setLastBackup _) | mutate (.setLastCompaction _) | getStats => True
  | _ => False

/-- The call writes to the map of the configuration. -/
def WritesConfig : ServiceCall V → Prop
  | mutate (.setConfig _ _) => True
  | _ => False

end ServiceCall

namespace LoadedMetadata

variable {V : Type} (env : MetadataEnv V)

def call (m : LoadedMetadata V) (now : Time) : ServiceCall V → Except Failure (LoadedMetadata V × ServiceReply V)
  | .mutate mutation => (m.mutate now mutation).map fun m' => (m', .none)
  | .getNodeID => .ok (m, .nodeID m.nodeID)
  | .getClusterNodes => .ok (m, .clusterNodes (m.clusterNodes.getD []))
  | .getConfig key => .ok (m, .config (m.getConfig key))
  | .getStats => m.getStats.map fun stats => (m, .stats stats)
  | .getMetadata => .ok (m, .metadata m.getMetadata)
  | .save written =>
    let (m', err) := m.save env now written
    .ok (m', .saved err)

/-- Calls one after another, each at its time, up to the first panic. -/
def runCalls : LoadedMetadata V → List (Time × ServiceCall V) → Except Failure (LoadedMetadata V)
  | m, [] => .ok m
  | m, (now, c) :: calls =>
    match m.call env now c with
    | .error failure => .error failure
    | .ok (m', _) => runCalls m' calls

/-! ### Panics -/

/-- What the call dereferences or writes to is there. -/
def Meets (m : LoadedMetadata V) (c : ServiceCall V) : Prop :=
  (c.UsesStats → m.stats.isSome = true) ∧ (c.WritesConfig → m.config.isSome = true)

variable {env} {m m' : LoadedMetadata V} {now : Time}

/-- The call goes on with the pointer and the map there or not as before, if it has what it needs; otherwise it
panics. -/
def Checked (env : MetadataEnv V) (m : LoadedMetadata V) (now : Time) (c : ServiceCall V) : Prop :=
  m.Meets c ∧ (∃ r, m.call env now c = .ok r ∧ r.1.stats.isSome = m.stats.isSome ∧
      r.1.config.isSome = m.config.isSome) ∨
    ¬ m.Meets c ∧ ∃ failure, m.call env now c = .error failure

private theorem checked_withStats {c : ServiceCall V} {f : Stats → Stats} (hstats : c.UsesStats)
    (hconfig : ¬ c.WritesConfig) (hcall : m.call env now c = (m.withStats f).map fun m' => (m', .none)) :
    Checked env m now c := by
  unfold Checked Meets
  rw [hcall, withStats]
  cases hnil : m.stats with
  | none => exact .inr ⟨fun h => absurd (h.1 hstats) nofun, _, rfl⟩
  | some stats => exact .inl ⟨⟨fun _ => rfl, fun h => absurd h hconfig⟩, _, rfl, rfl, rfl⟩

theorem checked_call (env : MetadataEnv V) (m : LoadedMetadata V) (now : Time) (c : ServiceCall V) :
    Checked env m now c := by
  -- a call that needs nothing
  have hplain {r : LoadedMetadata V × ServiceReply V} (hstats : ¬ c.UsesStats) (hconfig : ¬ c.WritesConfig)
      (hcall : m.call env now c = .ok r) (hstats' : r.1.stats = m.stats) (hconfig' : r.1.config = m.config) :
      Checked env m now c :=
    .inl ⟨⟨fun h => absurd h hstats, fun h => absurd h hconfig⟩, r, hcall, by rw [hstats'], by rw [hconfig']⟩
  cases c with
  | mutate mutation =>
    cases mutation with
    | setNodeID nodeID => exact hplain id id rfl rfl rfl
    | addClusterNode nodeID =>
      refine hplain id id rfl ?_ ?_
      · show (m.addClusterNode now nodeID).stats = m.stats
        unfold addClusterNode
        split <;> rfl
      · show (m.addClusterNode now nodeID).config = m.config
        unfold addClusterNode
        split <;> rfl
    | removeClusterNode nodeID => exact hplain id id rfl rfl rfl
    | setConfig key value =>
      unfold Checked Meets
      rw [call, mutate, setConfig]
      cases hnil : m.config with
      | none => exact .inr ⟨fun h => absurd (h.2 trivial) nofun, _, rfl⟩
      | some config => exact .inl ⟨⟨False.elim, fun _ => rfl⟩, _, rfl, rfl, rfl⟩
    | recordAdd => exact checked_withStats trivial id rfl
    | recordRemove => exact checked_withStats trivial id rfl
    | recordQuery => exact checked_withStats trivial id rfl
    | setLastBackup t => exact checked_withStats trivial id rfl
    | setLastCompaction t => exact checked_withStats trivial id rfl
  | getStats =>
    unfold Checked Meets
    rw [call, getStats]
    cases hnil : m.stats with
    | none => exact .inr ⟨fun h => absurd (h.1 trivial) nofun, _, rfl⟩
    | some stats => exact .inl ⟨⟨fun _ => rfl, False.elim⟩, _, rfl, by rw [hnil], rfl⟩
  | save written =>
    refine hplain id id rfl ?_ ?_
    · show (m.save env now written).1.stats = m.stats
      unfold save
      dsimp only
      split <;> rfl
    · show (m.save env now written).1.config = m.config
      unfold save
      dsimp only
      split <;> rfl
  | _ => exact hplain id id rfl rfl rfl

/-- A sequence of calls runs to its end if and only if every call meets what it needs. -/
theorem runCalls_ok_iff (calls : List (Time × ServiceCall V)) :
    (∃ m', runCalls env m calls = .ok m') ↔ ∀ c ∈ calls, m.Meets c.2 := by
  induction calls generalizing m with
  | nil => exact iff_of_true ⟨m, rfl⟩ nofun
  | cons c calls ih =>
    obtain ⟨now, c⟩ := c
    rw [List.forall_mem_cons]
    rcases checked_call env m now c with ⟨hmeets, r, hcall, hstats, hconfig⟩ | ⟨hnot, failure, hcall⟩
    · have hsame : ∀ c : ServiceCall V, r.1.Meets c ↔ m.Meets c := by
        intro c
        rw [Meets, Meets, hstats, hconfig]
      rw [runCalls, hcall]
      dsimp only
      rw [ih, and_iff_right hmeets]
      exact forall₂_congr fun c _ => hsame c.2
    · rw [runCalls, hcall]
      exact iff_of_false (fun ⟨_, h⟩ => nomatch h) fun h => hnot h.1

/-! ### What a file provides -/

theorem keepsErrors_statsFields (env : MetadataEnv V) : ∀ f ∈ env.statsFields, f.2.KeepsErrors := by
  simp only [MetadataEnv.statsFields, List.forall_mem_cons]
  refine ⟨?_, ?_, ?_, ?_, ?_, nofun⟩
  all_goals apply Decoder.keepsErrors_part
  · exact Decoder.keepsErrors_int64 _ _
  · exact Decoder.keepsErrors_int64 _ _
  · exact Decoder.keepsErrors_int64 _ _
  · exact Decoder.keepsErrors_custom _
  · exact Decoder.keepsErrors_custom _

theorem keepsErrors_metadataFields (env : MetadataEnv V) : ∀ f ∈ env.metadataFields, f.2.KeepsErrors := by
  simp only [MetadataEnv.metadataFields, List.forall_mem_cons]
  refine ⟨?_, ?_, ?_, ?_, ?_, ?_, ?_, nofun⟩
  all_goals apply Decoder.keepsErrors_part
  · exact Decoder.keepsErrors_string _
  · exact Decoder.keepsErrors_custom _
  · exact Decoder.keepsErrors_custom _
  · exact Decoder.keepsErrors_string _
  · exact Decoder.keepsErrors_pointer (Decoder.keepsErrors_slice _ (Decoder.keepsErrors_string _))
  · exact Decoder.keepsErrors_mapOf _ env.keepsErrors_value
  · exact Decoder.keepsErrors_pointer (Decoder.keepsErrors_struct _ (keepsErrors_statsFields env))

theorem owns_stats (env : MetadataEnv V) :
    Decoder.Owns env.metadataFields "stats" fun r => r.metadata.stats.isSome where
  keepsErrors := keepsErrors_metadataFields env
  sets := by
    simp only [MetadataEnv.metadataFields, List.forall_mem_cons]
    refine ⟨fun h => absurd h (by decide), fun h => absurd h (by decide), fun h => absurd h (by decide),
      fun h => absurd h (by decide), fun h => absurd h (by decide), fun h => absurd h (by decide), fun _ => ?_, nofun⟩
    exact Decoder.sets_part (fun _ _ => rfl) Decoder.sets_pointer
  frames := by
    simp only [MetadataEnv.metadataFields, List.forall_mem_cons]
    refine ⟨?_, ?_, ?_, ?_, ?_, ?_, fun h => absurd rfl h, nofun⟩
    all_goals exact fun _ => Decoder.frames_part fun _ _ => rfl
  exists_mem := ⟨_, List.mem_of_getElem? (i := 6) rfl, rfl⟩

theorem owns_config (env : MetadataEnv V) :
    Decoder.Owns env.metadataFields "config" fun r => r.metadata.config.isSome where
  keepsErrors := keepsErrors_metadataFields env
  sets := by
    simp only [MetadataEnv.metadataFields, List.forall_mem_cons]
    refine ⟨fun h => absurd h (by decide), fun h => absurd h (by decide), fun h => absurd h (by decide),
      fun h => absurd h (by decide), fun h => absurd h (by decide), fun _ => ?_, fun h => absurd h (by decide), nofun⟩
    exact Decoder.sets_part (fun _ _ => rfl) (Decoder.sets_mapOf _)
  frames := by
    simp only [MetadataEnv.metadataFields, List.forall_mem_cons]
    refine ⟨?_, ?_, ?_, ?_, ?_, fun h => absurd rfl h, ?_, nofun⟩
    all_goals exact fun _ => Decoder.frames_part fun _ _ => rfl
  exists_mem := ⟨_, List.mem_of_getElem? (i := 5) rfl, rfl⟩

/-- What an accepted file has decides what is not nil afterwards. -/
theorem isSome_of_load {data : Bytes} {v : JsonValue} {current m : LoadedMetadata V} (hparse : env.parse data = .ok v)
    (hload : load env (.ok data) current = (m, none)) :
    (m.stats.isSome = true ↔ v.Provides "stats") ∧ (m.config.isSome = true ↔ v.Provides "config") := by
  unfold load MetadataEnv.unmarshal at hload
  simp only [hparse] at hload
  split at hload
  · cases hload
  · rename_i m' hrun
    obtain rfl : m' = m := (Prod.mk.inj hload).1
    cases hvar : Decoder.run (.struct (env.typeError "") env.metadataFields) .zero v with
    | error err =>
      rw [hvar] at hrun
      cases hrun
    | ok r =>
      rw [hvar] at hrun
      cases hrun
      exact ⟨(owns_stats env).present_run_iff rfl hvar, (owns_config env).present_run_iff rfl hvar⟩

/-- On metadata from an accepted file, a sequence of calls runs without a panic if and only if the file has the
statistics, or no call goes through the pointer to them, and the file has the configuration, or no call writes to
it. -/
theorem runs_iff_provides {data : Bytes} {v : JsonValue} {current m : LoadedMetadata V}
    (hparse : env.parse data = .ok v) (hload : load env (.ok data) current = (m, none))
    (calls : List (Time × ServiceCall V)) :
    (∃ m', runCalls env m calls = .ok m') ↔
      (v.Provides "stats" ∨ ∀ c ∈ calls, ¬ c.2.UsesStats) ∧
        (v.Provides "config" ∨ ∀ c ∈ calls, ¬ c.2.WritesConfig) := by
  obtain ⟨hstats, hconfig⟩ := isSome_of_load hparse hload
  rw [runCalls_ok_iff]
  unfold Meets
  rw [hstats, hconfig]
  constructor
  · intro h
    refine ⟨or_iff_not_imp_left.2 fun hnot c hc huses => hnot ((h c hc).1 huses),
      or_iff_not_imp_left.2 fun hnot c hc hwrites => hnot ((h c hc).2 hwrites)⟩
  · rintro ⟨hs, hw⟩ c hc
    exact ⟨fun huses => hs.resolve_right fun h => h c hc huses,
      fun hwrites => hw.resolve_right fun h => h c hc hwrites⟩

/-- Whatever is on the disk, the first metadata of a service is that of an accepted file or has all it needs. -/
theorem newService_runs {created updated : Time} {read : Except String Bytes}
    (herr : (load env read (fresh created updated)).2 ≠ none) (calls : List (Time × ServiceCall V)) :
    ∃ m', runCalls env (newService env created updated read) calls = .ok m' := by
  have hfresh : newService env created updated read = fresh created updated := by
    unfold newService
    unfold load at herr ⊢
    split
    · rfl
    · split
      · rfl
      · simp_all
  rw [hfresh, runCalls_ok_iff]
  exact fun c _ => ⟨fun _ => rfl, fun _ => rfl⟩

/-! ### Metadata that has both -/

/-- Metadata in which nothing is nil. -/
def ofMetadata (m : Metadata V) : LoadedMetadata V :=
  { nodeID := m.nodeID, createdAt := m.createdAt, updatedAt := m.updatedAt, version := m.version
    clusterNodes := some m.clusterNodes, config := some m.config, stats := some m.stats }

/-- A change of the metadata is the one of the model without nil. -/
theorem mutate_ofMetadata (m : Metadata V) (now : Time) (mutation : Mutation V) :
    (ofMetadata m).mutate now mutation = .ok (ofMetadata (m.mutate now mutation)) := by
  cases mutation with
  | addClusterNode nodeID =>
    simp only [mutate, addClusterNode, Metadata.mutate, Metadata.addClusterNode]
    by_cases hmem : nodeID ∈ m.clusterNodes <;> simp [ofMetadata, hmem]
  | _ => rfl

/-- What a call makes of metadata in which nothing is nil. -/
def effect (m : Metadata V) : Time × ServiceCall V → Metadata V
  | (now, .mutate mutation) => m.mutate now mutation
  | (now, .save _) => { m with updatedAt := now }
  | _ => m

theorem call_ofMetadata (env : MetadataEnv V) (m : Metadata V) (now : Time) (c : ServiceCall V) :
    ∃ reply, (ofMetadata m).call env now c = .ok (ofMetadata (effect m (now, c)), reply) := by
  cases c with
  | mutate mutation =>
    rw [call, mutate_ofMetadata]
    exact ⟨_, rfl⟩
  | save written =>
    rw [call, save]
    dsimp only
    split <;> exact ⟨_, rfl⟩
  | _ => exact ⟨_, rfl⟩

/-- So all calls run, and the metadata is that of the model without nil after them. -/
theorem runCalls_ofMetadata (env : MetadataEnv V) (m : Metadata V) (calls : List (Time × ServiceCall V)) :
    runCalls env (ofMetadata m) calls = .ok (ofMetadata (Run.exec effect m calls)) := by
  induction calls generalizing m with
  | nil => rfl
  | cons c calls ih =>
    obtain ⟨now, c⟩ := c
    obtain ⟨reply, hcall⟩ := call_ofMetadata env m now c
    rw [runCalls, hcall]
    exact ih _

end LoadedMetadata

/-! ### The texts -/

section Texts

open JsonText (integer WellFormed)

variable (j : JsonEnv)

def Stats.value (s : Stats) : Except String JsonValue := do
  let lastBackup ← j.timeValue s.lastBackup
  let lastCompaction ← j.timeValue s.lastCompaction
  return .object [("total_adds", integer s.totalAdds.toInt), ("total_removes", integer s.totalRemoves.toInt),
    ("total_queries", integer s.totalQueries.toInt), ("last_backup", lastBackup), ("last_compaction", lastCompaction)]

namespace LoadedMetadata

def statsValue : Option Stats → Except String JsonValue
  | none => .ok .null
  | some stats => stats.value j

def nodesValue : Option (List String) → JsonValue
  | none => .null
  | some nodes => .array (nodes.map .string)

def value (m : LoadedMetadata MetaValue) : Except String JsonValue := do
  let createdAt ← j.timeValue m.createdAt
  let updatedAt ← j.timeValue m.updatedAt
  let config ← SnapshotData.metadataValue j m.config
  let stats ← statsValue j m.stats
  return .object [("node_id", .string m.nodeID), ("created_at", createdAt), ("updated_at", updatedAt),
    ("version", .string m.version), ("cluster_nodes", nodesValue m.clusterNodes), ("config", config),
    ("stats", stats)]

end LoadedMetadata

/-- The type of a field, as an error names it. -/
def metadataFieldType : String → String
  | "created_at" | "updated_at" | "stats.last_backup" | "stats.last_compaction" => "time.Time"
  | "cluster_nodes" => "[]string"
  | "config" => "map[string]interface {}"
  | "stats" => "metadata.Stats"
  | "stats.total_adds" | "stats.total_removes" | "stats.total_queries" => "int64"
  | _ => "string"

theorem Decoder.keepsErrors_any {α : Type} (field : String) (ofValue : JsonValue → α) :
    (Decoder.any field ofValue).KeepsErrors := by
  intro v d d' h hnone
  unfold Decoder.any at h
  split at h
  · exact absurd (Except.ok.inj h ▸ hnone) (d.savedError_saveError_ne_none _)
  · rw [← Except.ok.inj h] at hnone
    exact hnone

def metadataEnv : MetadataEnv MetaValue where
  parse text :=
    if JsonText.valid text then
      match JsonText.parse text with
      | some v => .ok v
      | none => .error (j.syntaxError text)
    else .error (j.syntaxError text)
  marshal m := (m.value j).map (JsonText.encode .indented 0)
  parseTime := j.parseTime
  parseInt literal := Decimal.parseInt64 literal.toList
  nilValue := MetaValue.ofValue .null
  value := .any "struct field Metadata.config" MetaValue.ofValue
  keepsErrors_value := Decoder.keepsErrors_any _ _
  typeError field := Decoder.typeError
    (if field = "" then "value of type metadata.Metadata"
    else "struct field Metadata." ++ field ++ " of type " ++ metadataFieldType field)

variable {j}

theorem parse_indented {v : JsonValue} (hv : WellFormed v) :
    (metadataEnv j).parse (JsonText.encode .indented 0 v) = .ok v := by
  simp only [metadataEnv, JsonText.valid_encode .indented hv 0, JsonText.parse_encode .indented hv 0, if_true]

end Texts

namespace LoadedMetadata

/-! ### An empty object -/

def emptyText : Bytes := utf8 "\x7b\x7d"

def fullText : Bytes :=
  utf8 "\x7b\n  \"config\": \x7b\n    \"k\": \"u\"\n  \x7d,\n  \"stats\": \x7b\n    \"total_adds\": 41\n  \x7d\n\x7d"

/-- The value of `fullText`. -/
def fullObject : JsonValue :=
  .object [("config", .object [("k", .string "u")]), ("stats", .object [("total_adds", JsonText.integer 41)])]

theorem wellFormed_fullObject : JsonText.WellFormed fullObject := by
  refine .object ?_
  simp only [List.forall_mem_cons]
  refine ⟨.object ?_, .object ?_, nofun⟩
  · exact List.forall_mem_singleton.2 (.string "u")
  · exact List.forall_mem_singleton.2 (JsonText.wellFormed_integer 41)

theorem runs_full_object : ∃ m, load (metadataEnv utcEnv) (.ok fullText) (fresh 0 0) = (m, none) ∧
    ∃ m', runCalls (metadataEnv utcEnv) m
      [(1, .mutate (.setConfig "k" (.str "v"))), (2, .mutate .recordAdd), (3, .getStats)] = .ok m' := by
  have htext : fullText = JsonText.encode .indented 0 fullObject := by decide +kernel
  have hparse : (metadataEnv utcEnv).parse fullText = .ok fullObject := by
    rw [htext, parse_indented wellFormed_fullObject]
  have hload : load (metadataEnv utcEnv) (.ok fullText) (fresh 0 0) =
      (⟨"", zeroTime, zeroTime, "", none, some [("k", .str "u")], some { Stats.zero with totalAdds := 41 }⟩, none) :=
    by decide +kernel
  exact ⟨_, hload, (runs_iff_provides hparse hload _).2 ⟨.inl ⟨_, rfl, rfl⟩, .inl ⟨_, rfl, rfl⟩⟩⟩

/-- `Load` accepts the text of an empty object; then `RecordAdd`, `GetStats` and `SetConfig` panic. -/
theorem panics_empty_object : ∃ m, load (metadataEnv utcEnv) (.ok emptyText) (fresh 0 0) = (m, none) ∧
    m.recordAdd = .error (.panic "invalid memory address or nil pointer dereference") ∧
    m.getStats = .error (.panic "invalid memory address or nil pointer dereference") ∧
    m.setConfig 1 "k" (.str "v") = .error (.panic "assignment to entry in nil map") :=
  ⟨⟨"", zeroTime, zeroTime, "", none, none, none⟩, by decide +kernel, rfl, rfl, rfl⟩

end LoadedMetadata

end DistributedBloomFilter
