import DistributedBloomFilter.Audit.Pipeline
import DistributedBloomFilter.Raft.Formats

/-!
# The lines of the audit log

The events of `internal/audit/events.go` and the bytes that the logger makes of them.  Every line is the text of an
event with a newline behind it, and a text has no newline of its own, whatever the fields of its event are: a client
that chooses its user id or a part of an error message cannot add a line.  So the lines of a file are what one gets by
splitting it at its newlines, and each of them goes back to a call of `Log` or `LogSync`, over restarts of the process
too (`lines_of_sessions`).

A session ends between two writes: a line that the process was writing when it ended is not modelled.
-/

namespace DistributedBloomFilter

open Contents (contents listAt)
open JsonText (integer WellFormed wellFormed_integer)
open JsonValue (omitEmpty wellFormed_omitEmpty)

namespace Audit

/-! ### Events -/

structure AuditEvent where
  timestamp : Int64
  time : String
  eventType : String
  severity : String
  clientIP : String
  userID : String
  method : String
  result : String
  reason : String
  metadata : List (String × MetaValue)
  requestID : String

namespace AuditEvent

/-- The metadata, which are left out too when there are none. -/
def metadataField (j : JsonEnv) : List (String × MetaValue) → Except String (List (String × JsonValue))
  | [] => .ok []
  | metadata => (SnapshotData.metadataMembers j metadata).map fun members => [("metadata", .object members)]

/-- The fields in their order, with those of the metadata in their place; six have the option `omitempty`. -/
def members (event : AuditEvent) (metadata : List (String × JsonValue)) : List (String × JsonValue) :=
  [("timestamp", integer event.timestamp.toInt), ("time", .string event.time),
    ("event_type", .string event.eventType), ("severity", .string event.severity)] ++
    omitEmpty "client_ip" event.clientIP ++ omitEmpty "user_id" event.userID ++ omitEmpty "method" event.method ++
    [("result", .string event.result)] ++ omitEmpty "reason" event.reason ++ metadata ++
    omitEmpty "request_id" event.requestID

def value (j : JsonEnv) (event : AuditEvent) : Except String JsonValue :=
  (metadataField j event.metadata).map fun metadata => .object (event.members metadata)

/-- `json.Marshal` of an event. -/
def marshal (j : JsonEnv) (event : AuditEvent) : Except String Bytes :=
  (event.value j).map (JsonText.encode .compact 0)

variable {j : JsonEnv} {event : AuditEvent}

theorem wellFormed_metadataField {metadata : List (String × MetaValue)} {ms : List (String × JsonValue)}
    (h : metadataField j metadata = .ok ms) : ∀ m ∈ ms, WellFormed m.2 := by
  cases metadata with
  | nil => cases h; simp
  | cons entry rest =>
    simp only [metadataField] at h
    cases hmembers : SnapshotData.metadataMembers j (entry :: rest) with
    | error err => rw [hmembers] at h; cases h
    | ok entries =>
      rw [hmembers] at h
      cases h
      intro m hm
      rw [List.mem_singleton] at hm
      subst hm
      refine .object fun e he => ?_
      obtain ⟨_, _, hvalue⟩ := SnapshotData.mem_metadataMembers hmembers e he
      exact MetaValue.wellFormed_toValue hvalue

theorem wellFormed_value {v : JsonValue} (h : event.value j = .ok v) : WellFormed v := by
  unfold value at h
  cases hmetadata : metadataField j event.metadata with
  | error err => rw [hmetadata] at h; cases h
  | ok metadata =>
    rw [hmetadata] at h
    cases h
    refine .object ?_
    have hfields := wellFormed_metadataField hmetadata
    simp only [members, List.forall_mem_append, List.forall_mem_cons]
    refine ⟨⟨⟨⟨⟨⟨⟨⟨wellFormed_integer _, .string _, .string _, .string _, by simp⟩, ?_⟩, ?_⟩, ?_⟩, .string _,
      by simp⟩, ?_⟩, hfields⟩, ?_⟩ <;> exact wellFormed_omitEmpty _ _

/-- The text of an event is one line, and reads as the value of the event. -/
theorem marshal_spec {line : Bytes} (h : event.marshal j = .ok line) :
    0x0A ∉ line ∧ ∃ v, event.value j = .ok v ∧ JsonText.parse line = some v := by
  unfold marshal at h
  cases hv : event.value j with
  | error err => rw [hv] at h; cases h
  | ok v =>
    rw [hv] at h
    cases h
    have hwell := wellFormed_value hv
    refine ⟨fun hnewline => ?_, v, rfl, ?_⟩
    · exact JsonText.not_control_of_mem_encode hwell 0 _ hnewline (by decide)
    · exact JsonText.parse_encode .compact hwell 0

end AuditEvent

/-! ### Files -/

/-- The bytes of a file: a newline comes behind every line. -/
def fileBytes (lines : List Bytes) : Bytes := lines.flatMap fun line => line ++ [0x0A]

/-- Lines without newlines come back when their file is split at its newlines; nothing is behind the last of them. -/
theorem splitOn_fileBytes {lines : List Bytes} (h : ∀ line ∈ lines, 0x0A ∉ line) :
    (fileBytes lines).splitOn 0x0A = lines ++ [[]] := by
  have hbytes : fileBytes lines = [0x0A].intercalate (lines ++ [[]]) := by
    clear h
    induction lines with
    | nil => rfl
    | cons line lines ih =>
      have hne : lines ++ [[]] ≠ [] := by simp
      obtain ⟨next, rest, hrest⟩ := List.exists_cons_of_ne_nil hne
      have hcons : fileBytes (line :: lines) = line ++ [0x0A] ++ fileBytes lines := rfl
      rw [hcons, ih, List.cons_append, hrest, List.intercalate_cons_cons, List.append_assoc]
  rw [hbytes]
  refine List.splitOn_intercalate 0x0A ?_ (by simp)
  intro line hline
  rcases List.mem_append.1 hline with hline | hline
  · exact h line hline
  · rw [List.mem_singleton] at hline
    simp [hline]

/-! ### Sessions -/

/-- The event that `LogSync` is called with. -/
def PipelineEvent.loggedSync {Event : Type} : PipelineEvent Event → Option Event
  | .logSync _ event => some event
  | _ => none

/-- The life of one process: how its logger is configured, when it is opened, and what happens then. -/
structure Session (Event : Type) where
  config : LoggerConfig
  opened : Time
  events : List (PipelineEvent Event)

/-- The events of all calls of `Log` and `LogSync`. -/
def Session.given {Event : Type} (s : Session Event) : List Event :=
  s.events.filterMap PipelineEvent.logged ++ s.events.filterMap PipelineEvent.loggedSync

section Session

variable {Event : Type} (timestamp : Time → String) (marshal : Event → Except String Bytes)

/-- The directory after a session. -/
def afterSession (dir : LogDir) (s : Session Event) : LogDir :=
  (Pipeline.run timestamp marshal s.config dir s.opened s.events).logger.dir

/-- The directory after some sessions, which was empty before them. -/
def afterSessions (sessions : List (Session Event)) : LogDir :=
  Run.exec (afterSession timestamp marshal) ∅ sessions

/-- The texts of some events, without those that have none. -/
def texts (events : List Event) : List Bytes := events.filterMap fun event => (marshal event).toOption

theorem texts_le {events events' : List Event} (h : (events : Multiset Event) ≤ ↑events') :
    (texts marshal events : Multiset Bytes) ≤ ↑(texts marshal events') := by
  rw [texts, texts, ← Multiset.filterMap_coe, ← Multiset.filterMap_coe]
  exact Multiset.filterMap_le_filterMap _ h

/-- A history has the lines of its writes, each at most once. -/
theorem written_replay (config : LoggerConfig) (dir : LogDir) (opened : Time) (writes : List (Time × Event)) :
    (replay timestamp marshal config dir opened writes).written.Sublist (texts marshal (writes.map Prod.snd)) := by
  induction writes using List.reverseRecOn with
  | nil => exact .slnil
  | append_singleton writes w ih =>
    rw [replay_concat, List.map_append, texts, List.filterMap_append]
    refine ih.append ?_
    split
    · simp only [List.map_cons, List.map_nil, List.filterMap_cons, List.filterMap_nil]
      cases marshal w.2 <;> exact List.Sublist.refl _
    · exact List.nil_sublist _

namespace Pipeline

/-- A write adds its own event at most. -/
theorem writes_writeEvent (p : Pipeline Event) (now : Time) (event : Event) :
    ((p.writeEvent timestamp marshal now event).1.writes.map Prod.snd : Multiset Event) ≤
      ↑(p.writes.map Prod.snd) + {event} := by
  unfold writeEvent
  split
  · split <;> exact Multiset.le_add_right _ _
  · show ((p.writes ++ [(now, event)]).map Prod.snd : Multiset Event) ≤ _
    rw [List.map_append]
    exact le_of_eq (Multiset.coe_add _ _).symm

/-- What was written came from the queue or from a call of `LogSync`. -/
def FromCalls (past : List Event) (p : Pipeline Event) : Prop :=
  (p.writes.map Prod.snd : Multiset Event) ≤ ↑p.handled + ↑past

theorem fromCalls_step {past : List Event} (p : Pipeline Event) (e : PipelineEvent Event) (h : FromCalls past p) :
    FromCalls (past ++ e.loggedSync.toList) (p.step timestamp marshal e) := by
  -- a call of `LogSync` counts its event, a write of the goroutine has handled it, and nothing else writes
  have hidle : FromCalls (past ++ []) p := by rwa [List.append_nil]
  cases e with
  | logSync now event =>
    obtain ⟨-, hhandled, -⟩ := writeEvent_frame timestamp marshal p now event
    show ((p.writeEvent timestamp marshal now event).1.writes.map Prod.snd : Multiset Event) ≤
      ↑(p.writeEvent timestamp marshal now event).1.handled + ((past ++ [event] : List Event) : Multiset Event)
    rw [hhandled, ← Multiset.coe_add, ← add_assoc]
    exact (writes_writeEvent timestamp marshal p now event).trans (add_le_add_left h _)
  | write now =>
    unfold step
    dsimp only
    split
    · rename_i event inner _
      show ((p.writeEvent timestamp marshal now event).1.writes.map Prod.snd : Multiset Event) ≤
        ((p.handled ++ [event] : List Event) : Multiset Event) + ((past ++ [] : List Event) : Multiset Event)
      rw [List.append_nil, ← Multiset.coe_add, add_right_comm]
      exact (writes_writeEvent timestamp marshal p now event).trans (add_le_add_left h _)
    · exact hidle
  | flush => exact hidle
  | close => exact hidle
  | _ =>
    unfold step
    dsimp only
    split <;> exact hidle

theorem fromCalls_exec {past : List Event} {p : Pipeline Event} (h : FromCalls past p)
    (es : List (PipelineEvent Event)) :
    FromCalls (past ++ es.filterMap PipelineEvent.loggedSync) (Run.exec (step timestamp marshal) p es) := by
  induction es generalizing past p with
  | nil => rwa [List.filterMap_nil, List.append_nil]
  | cons e es ih =>
    have hcons : (e :: es).filterMap PipelineEvent.loggedSync =
        e.loggedSync.toList ++ es.filterMap PipelineEvent.loggedSync := by
      rw [List.filterMap_cons]
      cases e.loggedSync <;> rfl
    rw [hcons, ← List.append_assoc]
    exact ih (fromCalls_step timestamp marshal p e h)

/-- Every write of a run goes back to a call of `Log` or `LogSync`, and no two writes to the same one. -/
theorem writes_run (dir : LogDir) (s : Session Event) :
    ((run timestamp marshal s.config dir s.opened s.events).writes.map Prod.snd : Multiset Event) ≤ ↑s.given := by
  have hcalls := fromCalls_exec timestamp marshal (p := start timestamp s.config dir s.opened)
    (show FromCalls [] _ from Multiset.zero_le _) s.events
  have hfifo := (queue_run timestamp marshal s.config dir s.opened s.events).fifo
  obtain ⟨q, -, hqueued, -, hsub, -⟩ :=
    queued_exec timestamp marshal (start timestamp s.config dir s.opened) s.events
  have hhandled : (run timestamp marshal s.config dir s.opened s.events).handled.Sublist
      (s.events.filterMap PipelineEvent.logged) := by
    refine List.Sublist.trans ?_ (hqueued ▸ hsub : List.Sublist (run timestamp marshal s.config dir s.opened
      s.events).queued _)
    rw [hfifo, List.append_assoc]
    exact List.sublist_append_left _ _
  calc _ ≤ _ := hcalls
    _ ≤ ↑(s.events.filterMap PipelineEvent.logged) + ↑(s.events.filterMap PipelineEvent.loggedSync) :=
        add_le_add_left (Multiset.coe_le.2 hhandled.subperm) _
    _ = ↑s.given := Multiset.coe_add _ _

end Pipeline

theorem contents_afterSession (dir : LogDir) (s : Session Event) :
    contents (afterSession timestamp marshal dir s) ≤ contents dir + ↑(texts marshal s.given) := by
  have hhistory := (Pipeline.files_run timestamp marshal s.config dir s.opened s.events).history
  have hinv := inv_replay timestamp marshal s.config dir s.opened
    (Pipeline.run timestamp marshal s.config dir s.opened s.events).writes
  rw [← hhistory] at hinv
  refine hinv.le.trans (add_le_add_right ?_ _)
  rw [hhistory]
  exact (Multiset.coe_le.2 (written_replay ..).subperm).trans
    (texts_le marshal (Pipeline.writes_run timestamp marshal dir s))

theorem contents_afterSessions (sessions : List (Session Event)) :
    contents (afterSessions timestamp marshal sessions) ≤ ↑(texts marshal (sessions.flatMap Session.given)) := by
  induction sessions using List.reverseRecOn with
  | nil => exact le_of_eq rfl
  | append_singleton sessions s ih =>
    have hconcat : afterSessions timestamp marshal (sessions ++ [s]) =
        afterSession timestamp marshal (afterSessions timestamp marshal sessions) s := Run.exec_append ..
    have htexts : texts marshal ((sessions ++ [s]).flatMap Session.given) =
        texts marshal (sessions.flatMap Session.given) ++ texts marshal s.given := by
      rw [List.flatMap_append, List.flatMap_singleton, texts, List.filterMap_append]
      rfl
    rw [hconcat, htexts, ← Multiset.coe_add]
    exact (contents_afterSession timestamp marshal _ s).trans (add_le_add_left ih _)

end Session

/-- Whatever happens in however many sessions and whatever the fields of the events are: the directory has the texts
of events that `Log` and `LogSync` were called with, none more often than it was given; and every file, split at its
newlines, gives its lines, each of which reads as the value of one of those events. -/
theorem lines_of_sessions (j : JsonEnv) (timestamp : Time → String) (sessions : List (Session AuditEvent)) :
    let dir := afterSessions timestamp (AuditEvent.marshal j) sessions
    contents dir ≤ ↑(texts (AuditEvent.marshal j) (sessions.flatMap Session.given)) ∧
      ∀ name, (fileBytes (listAt dir name)).splitOn 0x0A = listAt dir name ++ [[]] ∧
        ∀ line ∈ listAt dir name, ∃ event ∈ sessions.flatMap Session.given, ∃ v,
          event.value j = .ok v ∧ JsonText.parse line = some v := by
  intro dir
  have hcontents := contents_afterSessions timestamp (AuditEvent.marshal j) sessions
  have hline : ∀ name, ∀ line ∈ listAt dir name, ∃ event ∈ sessions.flatMap Session.given,
      event.marshal j = .ok line := by
    intro name line hline
    have hmem : line ∈ contents dir := by
      rw [Contents.contents_eq_add_erase dir name]
      exact Multiset.mem_add.2 (.inl hline)
    obtain ⟨event, hevent, htext⟩ := List.mem_filterMap.1 (Multiset.mem_of_le hcontents hmem)
    refine ⟨event, hevent, ?_⟩
    cases hmarshal : event.marshal j with
    | error err => rw [hmarshal] at htext; cases htext
    | ok text => rw [hmarshal] at htext; cases htext; rfl
  refine ⟨hcontents, fun name => ⟨splitOn_fileBytes fun line hmem => ?_, fun line hmem => ?_⟩⟩
  · obtain ⟨event, -, hmarshal⟩ := hline name line hmem
    exact (AuditEvent.marshal_spec hmarshal).1
  · obtain ⟨event, hevent, hmarshal⟩ := hline name line hmem
    exact ⟨event, hevent, (AuditEvent.marshal_spec hmarshal).2⟩

end Audit

end DistributedBloomFilter
