import DistributedBloomFilter.Lib.JsonCodec
import DistributedBloomFilter.Raft.Node
import Mathlib.Data.List.Sort

/-!
# The texts of commands and snapshots

What `encoding/json` makes of `Command`, `FSMCommand` and `SnapshotData`.  A `Command` carries its timestamp as a
string, an `FSMCommand` as a number.  `Apply` of `BloomFSM` tries the first form and then the second, and each text is
read as what it was written from; `Apply` of `Node` knows the first form alone and refuses every entry of the
write-ahead log.

A nil slice of bytes is written as `null` in Go, and as an empty string here; both are read as no bytes.  A timestamp
with escapes in its text is refused in Go, and read as the time it spells here.
-/

namespace DistributedBloomFilter

open JsonText (integer WellFormed wellFormed_integer)

/-! ### The three types -/

/-- A field of bytes. -/
def bytesValue (b : Bytes) : JsonValue := .string (String.ofList (Base64.encode b))

/-- The variable that a `Command` is decoded into, with the array behind the slice of its item. -/
structure CommandVar where
  cmdType : String
  item : Decoder.Slice UInt8
  timestamp : Time

structure FSMCommandVar where
  cmdType : String
  item : Decoder.Slice UInt8
  timestamp : Int64
  index : UInt64
  term : UInt64

structure SnapshotDataVar where
  bloomFilter : Decoder.Slice UInt8
  metadata : Option (List (String × MetaValue))
  timestamp : Time
  index : UInt64
  term : UInt64

variable (j : JsonEnv)

namespace Command

def typeField : String × Decoder CommandVar :=
  ("type", .part (·.cmdType) (fun c s => { c with cmdType := s })
    (.string (Decoder.typeError "struct field Command.type of type string")))

def itemField : String × Decoder CommandVar :=
  ("item", .part (·.item) (fun c b => { c with item := b }) (.bytes "struct field Command.item"))

def timestampField : String × Decoder CommandVar :=
  ("timestamp", .part (·.timestamp) (fun c t => { c with timestamp := t }) (.custom j.parseTime))

def fields : List (String × Decoder CommandVar) := [typeField, itemField, timestampField j]

theorem nodup_fields : ((fields j).map fun f => JsonValue.foldName f.1).Nodup := by
  show (["type", "item", "timestamp"].map JsonValue.foldName).Nodup
  decide +kernel

def codec : JsonCodec Command where
  toValue cmd := (j.timeValue cmd.timestamp).map fun t =>
    .object [("type", .string cmd.cmdType), ("item", bytesValue cmd.item), ("timestamp", t)]
  ofValue v := (Decoder.run (.struct (Decoder.typeError "value of type raft.Command") (fields j))
    ⟨"", ⟨[], []⟩, zeroTime⟩ v).map fun c => ⟨c.cmdType, c.item.visible, c.timestamp⟩

end Command

namespace FSMCommand

def typeField : String × Decoder FSMCommandVar :=
  ("type", .part (·.cmdType) (fun c s => { c with cmdType := s })
    (.string (Decoder.typeError "struct field FSMCommand.type of type string")))

def itemField : String × Decoder FSMCommandVar :=
  ("item", .part (·.item) (fun c b => { c with item := b }) (.bytes "struct field FSMCommand.item"))

def timestampField : String × Decoder FSMCommandVar :=
  ("timestamp", .part (·.timestamp) (fun c i => { c with timestamp := i })
    (.number "struct field FSMCommand.timestamp of type int64" Decimal.parseInt64))

def indexField : String × Decoder FSMCommandVar :=
  ("index", .part (·.index) (fun c n => { c with index := n })
    (.number "struct field FSMCommand.index of type uint64" Decimal.parseUint64))

def termField : String × Decoder FSMCommandVar :=
  ("term", .part (·.term) (fun c n => { c with term := n })
    (.number "struct field FSMCommand.term of type uint64" Decimal.parseUint64))

def fields : List (String × Decoder FSMCommandVar) := [typeField, itemField, timestampField, indexField, termField]

theorem nodup_fields : (fields.map fun f => JsonValue.foldName f.1).Nodup := by
  show (["type", "item", "timestamp", "index", "term"].map JsonValue.foldName).Nodup
  decide +kernel

/-- The value of a command of the write-ahead log. -/
def value (cmd : FSMCommand) : JsonValue :=
  .object [("type", .string cmd.cmdType), ("item", bytesValue cmd.item), ("timestamp", integer cmd.timestamp.toInt),
    ("index", integer cmd.index.toNat), ("term", integer cmd.term.toNat)]

def codec : JsonCodec FSMCommand where
  toValue cmd := .ok cmd.value
  ofValue v := (Decoder.run (.struct (Decoder.typeError "value of type raft.FSMCommand") fields)
    ⟨"", ⟨[], []⟩, 0, 0, 0⟩ v).map fun c => ⟨c.cmdType, c.item.visible, c.timestamp, c.index, c.term⟩

end FSMCommand

namespace MetaValue

/-- The value of a text that is one. -/
def toValue : MetaValue → Except String JsonValue
  | .str s => .ok (.string s)
  | .int n => .ok (integer n)
  | .raw text =>
    match JsonText.parse text with
    | some v => .ok v
    | none => .error ("json: error calling MarshalJSON for type json.RawMessage: " ++ j.syntaxError text)

/-- A value that was decoded into a variable of any type.  A number keeps its literal; in Go it is a `float64`. -/
def ofValue : JsonValue → MetaValue
  | .string s => .str s
  | v => .raw (JsonText.encode .compact 0 v)

end MetaValue

namespace SnapshotData

/-- The members of the metadata, in the order of their keys. -/
def metadataMembers (metadata : List (String × MetaValue)) : Except String (List (String × JsonValue)) :=
  (metadata.insertionSort fun a b => a.1 ≤ b.1).mapM fun e => (e.2.toValue j).map fun v => (e.1, v)

def metadataValue : Option (List (String × MetaValue)) → Except String JsonValue
  | none => .ok .null
  | some metadata => (metadataMembers j metadata).map .object

def bloomFilterField : String × Decoder SnapshotDataVar :=
  ("bloom_filter", .part (·.bloomFilter) (fun s b => { s with bloomFilter := b })
    (.bytes "struct field SnapshotData.bloom_filter"))

def metadataField : String × Decoder SnapshotDataVar :=
  ("metadata", .part (·.metadata) (fun s m => { s with metadata := m })
    (.mapOf (Decoder.typeError "struct field SnapshotData.metadata of type map[string]interface {}")
      (MetaValue.ofValue .null) (.any "struct field SnapshotData.metadata" MetaValue.ofValue)))

def timestampField : String × Decoder SnapshotDataVar :=
  ("timestamp", .part (·.timestamp) (fun s t => { s with timestamp := t }) (.custom j.parseTime))

def indexField : String × Decoder SnapshotDataVar :=
  ("index", .part (·.index) (fun s n => { s with index := n })
    (.number "struct field SnapshotData.index of type uint64" Decimal.parseUint64))

def termField : String × Decoder SnapshotDataVar :=
  ("term", .part (·.term) (fun s n => { s with term := n })
    (.number "struct field SnapshotData.term of type uint64" Decimal.parseUint64))

def fields : List (String × Decoder SnapshotDataVar) :=
  [bloomFilterField, metadataField, timestampField j, indexField, termField]

theorem nodup_fields : ((fields j).map fun f => JsonValue.foldName f.1).Nodup := by
  show (["bloom_filter", "metadata", "timestamp", "index", "term"].map JsonValue.foldName).Nodup
  decide +kernel

def codec : JsonCodec SnapshotData where
  toValue s :=
    match metadataValue j s.metadata with
    | .error err => .error err
    | .ok metadata => (j.timeValue s.timestamp).map fun t =>
        .object [("bloom_filter", bytesValue s.bloomFilter), ("metadata", metadata), ("timestamp", t),
          ("index", integer s.index.toNat), ("term", integer s.term.toNat)]
  ofValue v := (Decoder.run (.struct (Decoder.typeError "value of type raft.SnapshotData") (fields j))
    ⟨⟨[], []⟩, none, zeroTime, 0, 0⟩ v).map fun s => ⟨s.bloomFilter.visible, s.metadata, s.timestamp, s.index, s.term⟩

end SnapshotData

/-! ### Every text is read back -/

variable {j}

theorem wellFormed_timeValue (hj : j.WholeMinutes) {t : Time} {v : JsonValue} (h : j.timeValue t = .ok v) :
    WellFormed v := by
  obtain ⟨s, rfl, -⟩ := j.timeValue_spec hj h
  exact .string s

theorem bytes_bytesValue (field : String) (b : Bytes) (d : Decoded (Decoder.Slice UInt8)) :
    Decoder.bytes field (bytesValue b) d = .ok ⟨⟨b, []⟩, d.savedError⟩ := by
  simp only [bytesValue, Decoder.bytes, String.toList_ofList, Base64.decode_encode]
  rfl

theorem number_int64 (target : String) (i : Int64) (d : Decoded Int64) :
    Decoder.number target Decimal.parseInt64 (integer i.toInt) d = .ok ⟨i, d.savedError⟩ := by
  simp only [integer, Decoder.number, String.toList_ofList, Decimal.parseInt64_print]
  rfl

theorem number_uint64 (target : String) (n : UInt64) (d : Decoded UInt64) :
    Decoder.number target Decimal.parseUint64 (integer n.toNat) d = .ok ⟨n, d.savedError⟩ := by
  simp only [integer, Decoder.number, String.toList_ofList, Decimal.parseUint64_print]
  rfl

theorem Command.lawful (hj : j.WholeMinutes) : (Command.codec j).Lawful (· = ·) where
  wellFormed cmd v h := by
    simp only [codec] at h
    cases ht : j.timeValue cmd.timestamp with
    | error err => rw [ht] at h; cases h
    | ok t =>
      rw [ht] at h
      cases h
      refine .object ?_
      simp only [List.forall_mem_cons]
      exact ⟨.string _, .string _, wellFormed_timeValue hj ht, by simp⟩
  reads cmd v h := by
    simp only [codec] at h
    cases ht : j.timeValue cmd.timestamp with
    | error err => rw [ht] at h; cases h
    | ok t =>
      rw [ht] at h
      cases h
      obtain ⟨s, rfl, hs⟩ := j.timeValue_spec hj ht
      refine ⟨cmd, ?_, rfl⟩
      have hread := Decoder.run_fields (nodup_fields j) (Decoder.typeError "value of type raft.Command")
        [(typeField, .string cmd.cmdType), (itemField, bytesValue cmd.item), (timestampField j, .string s)]
        (by simp [fields]) ⟨"", ⟨[], []⟩, zeroTime⟩ ⟨⟨cmd.cmdType, ⟨cmd.item, []⟩, cmd.timestamp⟩, none⟩
        (by
          simp only [List.foldlM_cons, List.foldlM_nil, typeField, itemField, timestampField, Decoder.part,
            Decoder.string, bytes_bytesValue, Decoder.custom, hs]
          rfl)
      exact congrArg (Except.map fun c : CommandVar => Command.mk c.cmdType c.item.visible c.timestamp) hread

theorem FSMCommand.wellFormed_value (cmd : FSMCommand) : WellFormed cmd.value := by
  refine .object ?_
  simp only [List.forall_mem_cons]
  exact ⟨.string _, .string _, wellFormed_integer _, wellFormed_integer _, wellFormed_integer _, by simp⟩

theorem FSMCommand.ofValue_value (cmd : FSMCommand) : FSMCommand.codec.ofValue cmd.value = .ok cmd := by
  have hread := Decoder.run_fields nodup_fields (Decoder.typeError "value of type raft.FSMCommand")
    [(typeField, .string cmd.cmdType), (itemField, bytesValue cmd.item),
      (timestampField, integer cmd.timestamp.toInt), (indexField, integer cmd.index.toNat),
      (termField, integer cmd.term.toNat)]
    (by simp [fields]) ⟨"", ⟨[], []⟩, 0, 0, 0⟩
    ⟨⟨cmd.cmdType, ⟨cmd.item, []⟩, cmd.timestamp, cmd.index, cmd.term⟩, none⟩
    (by
      simp only [List.foldlM_cons, List.foldlM_nil, typeField, itemField, timestampField, indexField, termField,
        Decoder.part, Decoder.string, bytes_bytesValue, number_int64, number_uint64]
      rfl)
  exact congrArg (Except.map fun c : FSMCommandVar =>
    FSMCommand.mk c.cmdType c.item.visible c.timestamp c.index c.term) hread

theorem FSMCommand.lawful : FSMCommand.codec.Lawful (· = ·) where
  wellFormed cmd _ h := Except.ok.inj h ▸ cmd.wellFormed_value
  reads cmd _ h := ⟨cmd, Except.ok.inj h ▸ cmd.ofValue_value, rfl⟩

/-- The timestamp of an `FSMCommand` is not the text of a time. -/
theorem Command.ofValue_fsmCommand (j : JsonEnv) (cmd : FSMCommand) :
    (Command.codec j).ofValue cmd.value = .error "Time.UnmarshalJSON: input is not a JSON string" := by
  have hdecode : Decoder.decodeMembers (fields j)
      [("type", .string cmd.cmdType), ("item", bytesValue cmd.item), ("timestamp", integer cmd.timestamp.toInt)]
      ⟨⟨"", ⟨[], []⟩, zeroTime⟩, none⟩ = .error "Time.UnmarshalJSON: input is not a JSON string" := by
    have h := Decoder.decodeMembers_fields (nodup_fields j)
      (show ∀ m ∈ [(typeField, JsonValue.string cmd.cmdType), (itemField, bytesValue cmd.item),
        (timestampField j, integer cmd.timestamp.toInt)], m.1 ∈ fields j by simp [fields])
      ⟨⟨"", ⟨[], []⟩, zeroTime⟩, none⟩
    refine h.trans ?_
    simp only [List.foldlM_cons, List.foldlM_nil, typeField, itemField, timestampField, Decoder.part,
      Decoder.string, bytes_bytesValue, Decoder.custom, integer, JsonEnv.parseTime]
    rfl
  have hall := Decoder.decodeMembers_append (fields j)
    [("type", .string cmd.cmdType), ("item", bytesValue cmd.item), ("timestamp", integer cmd.timestamp.toInt)]
    [("index", integer cmd.index.toNat), ("term", integer cmd.term.toNat)] ⟨⟨"", ⟨[], []⟩, zeroTime⟩, none⟩
  rw [hdecode] at hall
  have hrun : Decoder.run (.struct (Decoder.typeError "value of type raft.Command") (fields j))
      ⟨"", ⟨[], []⟩, zeroTime⟩ cmd.value = .error "Time.UnmarshalJSON: input is not a JSON string" := by
    unfold Decoder.run
    rw [show Decoder.struct _ (fields j) cmd.value _ = _ from hall]
  exact congrArg (Except.map fun c : CommandVar => Command.mk c.cmdType c.item.visible c.timestamp) hrun

/-- Everything in a list that was made element by element comes from an element. -/
private theorem exists_of_mapM {α β : Type} {f : α → Except String β} {xs : List α} {ys : List β}
    (h : xs.mapM f = .ok ys) : ∀ y ∈ ys, ∃ x ∈ xs, f x = .ok y := by
  induction xs generalizing ys with
  | nil =>
    cases h
    simp
  | cons x xs ih =>
    rw [List.mapM_cons] at h
    cases hx : f x with
    | error err => rw [hx] at h; cases h
    | ok y =>
      cases hxs : xs.mapM f with
      | error err => rw [hx, hxs] at h; cases h
      | ok ys' =>
        rw [hx, hxs] at h
        cases h
        intro y' hy'
        rcases List.mem_cons.1 hy' with rfl | hy'
        · exact ⟨x, List.mem_cons_self .., hx⟩
        · obtain ⟨x', hx', hfx'⟩ := ih hxs y' hy'
          exact ⟨x', List.mem_cons_of_mem _ hx', hfx'⟩

theorem MetaValue.wellFormed_toValue {m : MetaValue} {v : JsonValue} (h : m.toValue j = .ok v) : WellFormed v := by
  cases m with
  | str s => exact Except.ok.inj h ▸ .string s
  | int n => exact Except.ok.inj h ▸ wellFormed_integer n
  | raw text =>
    simp only [toValue] at h
    split at h
    · rename_i v' hv'
      exact Except.ok.inj h ▸ JsonText.wellFormed_of_parse hv'
    · cases h

namespace SnapshotData

/-- The members are those of the metadata. -/
theorem mem_metadataMembers {metadata : List (String × MetaValue)} {ms : List (String × JsonValue)}
    (h : metadataMembers j metadata = .ok ms) : ∀ m ∈ ms, ∃ e ∈ metadata, e.2.toValue j = .ok m.2 := by
  intro m hm
  obtain ⟨e, he, hme⟩ := exists_of_mapM h m hm
  refine ⟨e, (List.perm_insertionSort _ metadata).mem_iff.1 he, ?_⟩
  cases hv : e.2.toValue j with
  | error err => rw [hv] at hme; cases hme
  | ok v => rw [hv] at hme; cases hme; rfl

/-- The metadata are written as `null` or as an object. -/
theorem metadataValue_cases {metadata : Option (List (String × MetaValue))} {mv : JsonValue}
    (h : metadataValue j metadata = .ok mv) :
    WellFormed mv ∧ (mv = .null ∨ ∃ entries ms, metadata = some entries ∧ metadataMembers j entries = .ok ms ∧
      mv = .object ms) := by
  cases metadata with
  | none => exact Except.ok.inj h ▸ ⟨.null, .inl rfl⟩
  | some entries =>
    simp only [metadataValue] at h
    cases hms : metadataMembers j entries with
    | error err => rw [hms] at h; cases h
    | ok ms =>
      rw [hms] at h
      cases h
      refine ⟨.object fun m hm => ?_, .inr ⟨entries, ms, rfl, hms, rfl⟩⟩
      obtain ⟨e, -, he⟩ := mem_metadataMembers hms m hm
      exact MetaValue.wellFormed_toValue he

theorem metadataField_value {metadata : Option (List (String × MetaValue))} {mv : JsonValue}
    (h : metadataValue j metadata = .ok mv) (d : Decoded SnapshotDataVar) (hd : d.savedError = none) :
    ∃ read, metadataField.2 mv d = .ok ⟨{ d.value with metadata := read }, (mv.literals.find? JsonValue.overflows).map
      (Decoder.numberError "struct field SnapshotData.metadata of type float64")⟩ := by
  rcases (metadataValue_cases h).2 with rfl | ⟨entries, ms, -, -, rfl⟩
  · exact ⟨none, by simp [metadataField, Decoder.part, Decoder.mapOf, hd, JsonValue.literals]; rfl⟩
  · obtain ⟨read, hread⟩ := Decoder.mapEntries_any "struct field SnapshotData.metadata" (MetaValue.ofValue .null)
      MetaValue.ofValue ms ⟨d.value.metadata.getD [], none⟩
    refine ⟨some read, ?_⟩
    simp only [metadataField, Decoder.part, Decoder.mapOf, hd, hread]
    rfl

theorem bloomFilterField_value (b : Bytes) (d : Decoded SnapshotDataVar) :
    bloomFilterField.2 (bytesValue b) d = .ok ⟨{ d.value with bloomFilter := ⟨b, []⟩ }, d.savedError⟩ := by
  simp only [bloomFilterField, Decoder.part, bytes_bytesValue]
  rfl

theorem timestampField_value {text : String} {t : Time} (h : j.parseTime (.string text) = .ok t)
    (d : Decoded SnapshotDataVar) :
    (timestampField j).2 (.string text) d = .ok ⟨{ d.value with timestamp := t }, d.savedError⟩ := by
  simp only [timestampField, Decoder.part, Decoder.custom, h]
  rfl

theorem indexField_value (n : UInt64) (d : Decoded SnapshotDataVar) :
    indexField.2 (integer n.toNat) d = .ok ⟨{ d.value with index := n }, d.savedError⟩ := by
  simp only [indexField, Decoder.part, number_uint64]
  rfl

theorem termField_value (n : UInt64) (d : Decoded SnapshotDataVar) :
    termField.2 (integer n.toNat) d = .ok ⟨{ d.value with term := n }, d.savedError⟩ := by
  simp only [termField, Decoder.part, number_uint64]
  rfl

/-- Every number in the metadata fits into a floating-point number, as which it is read. -/
def Readable (j : JsonEnv) (metadata : Option (List (String × MetaValue))) : Prop :=
  ∀ mv, metadataValue j metadata = .ok mv → mv.literals.find? JsonValue.overflows = none

/-- A record is read back but for its metadata, of which the first number that does not fit is an error. -/
theorem codec_spec (hj : j.WholeMinutes) {s : SnapshotData} {v : JsonValue} (h : (codec j).toValue s = .ok v) :
    WellFormed v ∧ (∃ ms, v = .object ms) ∧ ∃ mv read, metadataValue j s.metadata = .ok mv ∧
      (codec j).ofValue v =
        match mv.literals.find? JsonValue.overflows with
        | none => .ok { s with metadata := read }
        | some literal =>
          .error (Decoder.numberError "struct field SnapshotData.metadata of type float64" literal) := by
  simp only [codec] at h
  cases hmv : metadataValue j s.metadata with
  | error err => rw [hmv] at h; cases h
  | ok mv =>
    cases ht : j.timeValue s.timestamp with
    | error err => rw [hmv, ht] at h; cases h
    | ok t =>
      rw [hmv, ht] at h
      cases h
      obtain ⟨text, rfl, htext⟩ := j.timeValue_spec hj ht
      refine ⟨?_, ⟨_, rfl⟩, mv, ?_⟩
      · refine .object ?_
        simp only [List.forall_mem_cons]
        exact ⟨.string _, (metadataValue_cases hmv).1, .string _, wellFormed_integer _, wellFormed_integer _, by simp⟩
      · obtain ⟨read, hread⟩ := metadataField_value hmv ⟨⟨⟨s.bloomFilter, []⟩, none, zeroTime, 0, 0⟩, none⟩ rfl
        refine ⟨read, rfl, ?_⟩
        have hrun := Decoder.run_fields (nodup_fields j) (Decoder.typeError "value of type raft.SnapshotData")
          [(bloomFilterField, bytesValue s.bloomFilter), (metadataField, mv), (timestampField j, .string text),
            (indexField, integer s.index.toNat), (termField, integer s.term.toNat)]
          (by simp [fields]) ⟨⟨[], []⟩, none, zeroTime, 0, 0⟩
          ⟨⟨⟨s.bloomFilter, []⟩, read, s.timestamp, s.index, s.term⟩, (mv.literals.find? JsonValue.overflows).map
            (Decoder.numberError "struct field SnapshotData.metadata of type float64")⟩
          (Decoder.foldlM_step (bloomFilterField_value s.bloomFilter _) (Decoder.foldlM_step hread
            (Decoder.foldlM_step (timestampField_value htext _) (Decoder.foldlM_step (indexField_value s.index _)
              (Decoder.foldlM_step (termField_value s.term _) rfl)))))
        refine (congrArg (Except.map fun s : SnapshotDataVar =>
          SnapshotData.mk s.bloomFilter.visible s.metadata s.timestamp s.index s.term) hrun).trans ?_
        cases mv.literals.find? JsonValue.overflows <;> rfl

end SnapshotData

/-! ### The two state machines on these texts -/

variable (j) in
/-- The package with the texts that `encoding/json` makes. -/
def textEnv {W : Type} (sum32 crc32 : Bytes → UInt32) (walWrite : W → Bytes → W × Option String) : Env W where
  sum32 := sum32
  crc32 := crc32
  command := (Command.codec j).json .compact j.syntaxError
  fsmCommand := FSMCommand.codec.json .compact j.syntaxError
  snapshotData := (SnapshotData.codec j).json .compact j.syntaxError
  walWrite := walWrite

section Commands

variable {W : Type} (sum32 crc32 : Bytes → UInt32) (walWrite : W → Bytes → W × Option String)

/-- The text of a command of the write-ahead log. -/
def FSMCommand.text (cmd : FSMCommand) : Bytes := JsonText.encode .compact 0 cmd.value

theorem marshal_fsmCommand (cmd : FSMCommand) :
    (textEnv j sum32 crc32 walWrite).fsmCommand.marshal cmd = .ok cmd.text := rfl

theorem unmarshal_fsmCommand_text (cmd : FSMCommand) :
    (textEnv j sum32 crc32 walWrite).command.unmarshal cmd.text =
        .error "Time.UnmarshalJSON: input is not a JSON string" ∧
      (textEnv j sum32 crc32 walWrite).fsmCommand.unmarshal cmd.text = .ok cmd := by
  refine ⟨?_, ?_⟩
  · exact ((Command.codec j).unmarshal_encode .compact cmd.wellFormed_value).trans (Command.ofValue_fsmCommand j cmd)
  · exact (FSMCommand.codec.unmarshal_encode .compact cmd.wellFormed_value).trans cmd.ofValue_value

theorem BloomFSM.parseCommand_fsmCommand_text (cmd : FSMCommand) :
    parseCommand (textEnv j sum32 crc32 walWrite) cmd.text = .ok ⟨cmd.cmdType, cmd.item, cmd.timestamp.toInt⟩ := by
  obtain ⟨hcommand, hfsm⟩ := unmarshal_fsmCommand_text (j := j) sum32 crc32 walWrite cmd
  simp only [parseCommand, hcommand, hfsm]

theorem Node.apply_fsmCommand_text (cmd : FSMCommand) (n : Node) (index term : UInt64) :
    n.apply (textEnv j sum32 crc32 walWrite) ⟨index, term, cmd.text⟩ =
      (n, some "failed to parse command: Time.UnmarshalJSON: input is not a JSON string") := by
  have hcommand := (unmarshal_fsmCommand_text (j := j) sum32 crc32 walWrite cmd).1
  simp only [Node.apply, hcommand]
  congr 2

/-- Whatever is marshalled as a command is parsed as that command, in either form. -/
theorem BloomFSM.parseCommand_marshal (hj : j.WholeMinutes) :
    (∀ cmd data, (textEnv j sum32 crc32 walWrite).command.marshal cmd = .ok data →
      parseCommand (textEnv j sum32 crc32 walWrite) data = .ok cmd) ∧
    (∀ cmd data, (textEnv j sum32 crc32 walWrite).fsmCommand.marshal cmd = .ok data →
      parseCommand (textEnv j sum32 crc32 walWrite) data = .ok ⟨cmd.cmdType, cmd.item, cmd.timestamp.toInt⟩) := by
  refine ⟨fun cmd data h => ?_, fun cmd data h => ?_⟩
  · obtain ⟨cmd', hread, rfl⟩ := (Command.lawful hj).roundTrips cmd data h
    have hread : (textEnv j sum32 crc32 walWrite).command.unmarshal data = .ok cmd := hread
    simp only [parseCommand, hread]
  · rw [← Except.ok.inj ((marshal_fsmCommand (j := j) sum32 crc32 walWrite cmd).symm.trans h)]
    exact parseCommand_fsmCommand_text sum32 crc32 walWrite cmd

end Commands

/-- All times in UTC. -/
def utcEnv : JsonEnv where
  zone _ := 0
  otherTime s := .error ("parsing time \"" ++ s ++ "\"")
  syntaxError _ := "unexpected end of JSON input"

theorem wholeMinutes_utcEnv : utcEnv.WholeMinutes := fun _ => rfl

/-- The entry of `Add` for the item `a`. -/
theorem BloomFSM.parseCommand_marshal_add :
    utcEnv.WholeMinutes ∧
      parseCommand (textEnv utcEnv Murmur3.sum32 Crc32.checksum fun (w : Unit) _ => (w, none)) addText =
        .ok ⟨"add", [97], zeroTime⟩ :=
  ⟨wholeMinutes_utcEnv,
    (parseCommand_marshal Murmur3.sum32 Crc32.checksum (fun w _ => (w, none)) wholeMinutes_utcEnv).1
    ⟨"add", [97], zeroTime⟩ addText (by decide +kernel)⟩

end DistributedBloomFilter
