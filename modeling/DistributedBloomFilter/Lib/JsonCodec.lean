import DistributedBloomFilter.Lib.Base64
import DistributedBloomFilter.Lib.JsonEncode
import DistributedBloomFilter.Lib.Rfc3339

/-!
# Types with JSON texts

A type that is written as a value and read from one has an encoding as a text (`JsonCodec.json`): a text is checked as
a whole before its value is read.  Whatever writes a value, a reader of another type gets that same value
(`unmarshal_encode`), so that it can be seen from the values whether two types are told apart by their texts.

The decoders here add numbers, bytes in base64, variables of any type and times to those of `Decoder`.
-/

/-- How the values of a type are written and read. -/
structure JsonCodec (α : Type) where
  toValue : α → Except String JsonValue
  ofValue : JsonValue → Except String α

namespace JsonCodec

open JsonText

variable {α β : Type} (layout : Layout) (syntaxError : List UInt8 → String)

def json (c : JsonCodec α) : Json α where
  marshal a := (c.toValue a).map (encode layout 0)
  unmarshal text :=
    if valid text then
      match parse text with
      | some v => c.ofValue v
      | none => .error (syntaxError text)
    else .error (syntaxError text)

/-- The codec writes values that can be read back. -/
structure Lawful (c : JsonCodec α) (same : α → α → Prop) : Prop where
  wellFormed : ∀ a v, c.toValue a = .ok v → WellFormed v
  reads : ∀ a v, c.toValue a = .ok v → ∃ a', c.ofValue v = .ok a' ∧ same a a'

variable {layout syntaxError}

theorem marshal_eq_ok {c : JsonCodec α} {a : α} {text : List UInt8}
    (h : (c.json layout syntaxError).marshal a = .ok text) : ∃ v, c.toValue a = .ok v ∧ text = encode layout 0 v := by
  simp only [json] at h
  cases hv : c.toValue a with
  | error err =>
    rw [hv] at h
    cases h
  | ok v =>
    rw [hv] at h
    exact ⟨v, rfl, (Except.ok.inj h).symm⟩

/-- A reader of any type gets the value that was written, in whatever layout. -/
theorem unmarshal_encode (c : JsonCodec α) (layout : Layout) {layout' : Layout} {v : JsonValue} (hv : WellFormed v) :
    (c.json layout' syntaxError).unmarshal (encode layout 0 v) = c.ofValue v := by
  simp only [json, valid_encode layout hv 0, parse_encode layout hv 0, if_true]

theorem Lawful.roundTrips {c : JsonCodec α} {same : α → α → Prop} (h : c.Lawful same) :
    (c.json layout syntaxError).RoundTrips same := by
  intro a text htext
  obtain ⟨v, hv, rfl⟩ := marshal_eq_ok htext
  rw [unmarshal_encode c layout (h.wellFormed a v hv)]
  exact h.reads a v hv

end JsonCodec

namespace JsonValue

/-- How a decoder names a value that has the wrong type. -/
def kind : JsonValue → String
  | null => "null"
  | bool _ => "bool"
  | number _ => "number"
  | string _ => "string"
  | array _ => "array"
  | object _ => "object"

mutual

/-- The literals of all numbers, in the order of the text. -/
def literals : JsonValue → List String
  | number literal => [literal]
  | array vs => literalsOfElements vs
  | object ms => literalsOfMembers ms
  | _ => []

def literalsOfElements : List JsonValue → List String
  | [] => []
  | v :: vs => literals v ++ literalsOfElements vs

def literalsOfMembers : List (String × JsonValue) → List String
  | [] => []
  | (_, v) :: ms => literals v ++ literalsOfMembers ms

end

theorem literals_object (ms : List (String × JsonValue)) :
    (object ms).literals = ms.flatMap fun m => m.2.literals := by
  rw [literals]
  induction ms with
  | nil => rfl
  | cons m ms ih => rw [literalsOfMembers, ih, List.flatMap_cons]

/-- The value of the first member with just this name. -/
def member (name : String) : JsonValue → Option JsonValue
  | object ms => (ms.find? fun m => m.1 = name).map Prod.snd
  | _ => none

def isEmptyString : JsonValue → Bool
  | string s => s = ""
  | _ => false

/-- A string that is left out when it is empty. -/
def omitEmpty (name value : String) : List (String × JsonValue) := if value = "" then [] else [(name, .string value)]

theorem wellFormed_omitEmpty (name value : String) : ∀ m ∈ omitEmpty name value, JsonText.WellFormed m.2 := by
  intro m hm
  unfold omitEmpty at hm
  split at hm
  · cases hm
  · rw [List.mem_singleton] at hm
    exact hm ▸ .string value

/-- What is rounded to `2 ^ 1024` as a floating-point number of 64 bits, and no longer one. -/
def float64Bound : Nat := 2 ^ 1024 - 2 ^ 970

/-- The number is too large for a floating-point number of 64 bits. -/
def overflows (literal : String) : Bool :=
  let mantissa := literal.toList.takeWhile fun c => c ≠ 'e' ∧ c ≠ 'E'
  let fractionDigits := ((mantissa.dropWhile (· ≠ '.')).drop 1).length
  let digits := Nat.ofDigitChars 10 (mantissa.filter Char.isDigit) 0
  let exponentText := (literal.toList.dropWhile fun c => c ≠ 'e' ∧ c ≠ 'E').drop 1
  let magnitude : Int := Nat.ofDigitChars 10 (exponentText.filter Char.isDigit) 0
  let exponent := (if exponentText.head? = some '-' then -magnitude else magnitude) - fractionDigits
  if digits = 0 then false
  else if 0 ≤ exponent then decide (400 < exponent) || decide (float64Bound ≤ digits * 10 ^ exponent.toNat)
  else decide (float64Bound * 10 ^ (-exponent).toNat ≤ digits)

theorem overflows_print (n : Int) :
    overflows (String.ofList (Decimal.print n)) = decide (float64Bound ≤ n.natAbs) := by
  have hexp : ∀ c ∈ Decimal.print n, c ≠ 'e' ∧ c ≠ 'E' := by
    intro c hc
    exact ⟨fun h => Decimal.not_mem_print (by decide) (by decide) n (h ▸ hc),
      fun h => Decimal.not_mem_print (by decide) (by decide) n (h ▸ hc)⟩
  have hdot : ∀ c ∈ Decimal.print n, c ≠ '.' :=
    fun c hc h => Decimal.not_mem_print (by decide) (by decide) n (h ▸ hc)
  have hmantissa : (Decimal.print n).takeWhile (fun c => c ≠ 'e' ∧ c ≠ 'E') = Decimal.print n :=
    List.takeWhile_eq_self_iff.2 fun c hc => by simpa using hexp c hc
  have hexponent : (Decimal.print n).dropWhile (fun c => c ≠ 'e' ∧ c ≠ 'E') = [] :=
    List.dropWhile_eq_nil_iff.2 fun c hc => by simpa using hexp c hc
  have hfraction : (Decimal.print n).dropWhile (· ≠ '.') = [] :=
    List.dropWhile_eq_nil_iff.2 fun c hc => by simpa using hdot c hc
  have hdigits : (Decimal.print n).filter Char.isDigit = Nat.toDigits 10 n.natAbs := by
    have hself := List.filter_eq_self.2 (Decimal.isDigit_toDigits n.natAbs)
    unfold Decimal.print
    split
    · rw [List.filter_cons_of_neg (by decide), hself]
    · exact hself
  unfold overflows
  simp only [String.toList_ofList, hmantissa, hexponent, hfraction, hdigits, Nat.ofDigitChars_ten_toDigits]
  by_cases hzero : n.natAbs = 0
  · rw [if_pos hzero, hzero]
    exact (decide_eq_false (by decide +kernel)).symm
  · rw [if_neg hzero]
    simp

example : overflows "1.7976931348623157e308" = false ∧ overflows "-1.8E+308" = true := by decide +kernel

end JsonValue

namespace Decoder

open JsonValue (foldName)

variable {α β : Type}

/-! ### Numbers, bytes and variables of any type -/

/-- The error of a value of a wrong type; `target` says for what. -/
def typeError (target : String) (v : JsonValue) : String :=
  "json: cannot unmarshal " ++ v.kind ++ " into Go " ++ target

/-- The error of a number that does not fit. -/
def numberError (target literal : String) : String :=
  "json: cannot unmarshal number " ++ literal ++ " into Go " ++ target

def number (target : String) (parse : List Char → Option α) : Decoder α
  | .null, d => .ok d
  | .number literal, d =>
    match parse literal.toList with
    | some a => .ok (d.set a)
    | none => .ok (d.saveError (numberError target literal))
  | v, d => .ok (d.saveError (typeError target v))

def parseUint8 (cs : List Char) : Option UInt8 :=
  match Decimal.parseUint64 cs with
  | some n => if n.toNat < 2 ^ 8 then some n.toUInt8 else none
  | none => none

/-- A slice of bytes: a string in base64, or an array of numbers. -/
def bytes (field : String) : Decoder (Slice UInt8)
  | .string s, d =>
    match Base64.decode s.toList with
    | .ok b => .ok (d.set ⟨b, []⟩)
    | .error i => .ok (d.saveError ("illegal base64 data at input byte " ++ toString i))
  | v, d =>
    slice (typeError (field ++ " of type []uint8")) 0 (number (field ++ " of type uint8") parseUint8) v d

/-- A variable of any type takes the value as it is; a number must fit into a floating-point number. -/
def any (field : String) (ofValue : JsonValue → α) : Decoder α := fun v d =>
  match v.literals.find? JsonValue.overflows with
  | some literal => .ok (d.saveError (numberError (field ++ " of type float64") literal))
  | none => .ok (d.set (ofValue v))

/-- A map of any values remembers the first number that does not fit. -/
theorem mapEntries_any (field : String) (zero : α) (ofValue : JsonValue → α) (ms : List (String × JsonValue))
    (d : Decoded (List (String × α))) :
    ∃ entries, mapEntries zero (any field ofValue) ms d =
      .ok ⟨entries, d.savedError.or
        (((JsonValue.object ms).literals.find? JsonValue.overflows).map
          (numberError (field ++ " of type float64")))⟩ := by
  rw [JsonValue.literals_object]
  induction ms generalizing d with
  | nil => exact ⟨d.value, by simp [mapEntries]⟩
  | cons m ms ih =>
    obtain ⟨key, v⟩ := m
    rw [List.flatMap_cons, List.find?_append, mapEntries]
    cases hfind : v.literals.find? JsonValue.overflows with
    | none =>
      simp only [any, hfind, Option.none_or]
      exact ih _
    | some literal =>
      obtain ⟨entries, hentries⟩ := ih ⟨(d.value.filter fun e => e.1 ≠ key) ++ [(key, zero)],
        d.savedError.or (some (numberError (field ++ " of type float64") literal))⟩
      refine ⟨entries, ?_⟩
      simp only [any, hfind, Decoded.saveError, Option.some_or, Option.map_some]
      rw [hentries, Option.or_assoc, Option.some_or]

/-! ### Objects with the members of their fields -/

private theorem find_of_mem {fields : List (String × Decoder α)} (hnodup : (fields.map fun f => foldName f.1).Nodup)
    {f : String × Decoder α} (hf : f ∈ fields) : fields.find? (fun f' => foldName f'.1 = foldName f.1) = some f := by
  induction fields with
  | nil => cases hf
  | cons g fields ih =>
    rw [List.map_cons, List.nodup_cons] at hnodup
    rcases List.mem_cons.1 hf with rfl | hf
    · rw [List.find?_cons_of_pos (by simp)]
    · have hne : foldName g.1 ≠ foldName f.1 := fun h => hnodup.1 (h ▸ List.mem_map_of_mem hf)
      rw [List.find?_cons_of_neg (by simpa using hne)]
      exact ih hnodup.2 hf

/-- Members with the names of fields are decoded one after the other, each into its field. -/
theorem decodeMembers_fields {fields : List (String × Decoder α)} (hnodup : (fields.map fun f => foldName f.1).Nodup)
    {members : List ((String × Decoder α) × JsonValue)} (hmembers : ∀ m ∈ members, m.1 ∈ fields) (d : Decoded α) :
    decodeMembers fields (members.map fun m => (m.1.1, m.2)) d = members.foldlM (fun d m => m.1.2 m.2 d) d := by
  induction members generalizing d with
  | nil => rfl
  | cons m members ih =>
    rw [List.map_cons, decodeMembers, find_of_mem hnodup (hmembers m (List.mem_cons_self ..)), List.foldlM_cons]
    dsimp only
    cases hm : m.1.2 m.2 d with
    | error err => rfl
    | ok d' => exact ih (fun m hm => hmembers m (List.mem_cons_of_mem _ hm)) d'

theorem foldlM_step {f : β → α → Except String β} {b b' r : β} {a : α} {as : List α} (h : f b a = .ok b')
    (hrest : as.foldlM f b' = .ok r) : (a :: as).foldlM f b = .ok r := by
  rw [List.foldlM_cons, h]
  exact hrest

theorem decodeMembers_append (fields : List (String × Decoder α)) (xs ys : List (String × JsonValue))
    (d : Decoded α) :
    decodeMembers fields (xs ++ ys) d =
      match decodeMembers fields xs d with
      | .error err => .error err
      | .ok d' => decodeMembers fields ys d' := by
  induction xs generalizing d with
  | nil => rfl
  | cons x xs ih =>
    rw [List.cons_append, decodeMembers, decodeMembers]
    split
    · exact ih d
    · split
      · rfl
      · exact ih _

theorem run_fields {fields : List (String × Decoder α)} (hnodup : (fields.map fun f => foldName f.1).Nodup)
    (typeError : JsonValue → String) (members : List ((String × Decoder α) × JsonValue))
    (hmembers : ∀ m ∈ members, m.1 ∈ fields) (zero : α) (d : Decoded α)
    (h : members.foldlM (fun d m => m.1.2 m.2 d) ⟨zero, none⟩ = .ok d) :
    run (struct typeError fields) zero (.object (members.map fun m => (m.1.1, m.2))) =
      match d.savedError with
      | some err => .error err
      | none => .ok d.value := by
  have hdecode : struct typeError fields (.object (members.map fun m => (m.1.1, m.2))) ⟨zero, none⟩ = .ok d := by
    rw [struct, decodeMembers_fields hnodup hmembers, h]
  cases hsaved : d.savedError with
  | none => simp only [run, hdecode, hsaved]
  | some err => simp only [run, hdecode, hsaved]

/-- A list of strings is read back. -/
theorem sliceElements_string (typeError : JsonValue → String) (ss : List String) (err : Option String) :
    sliceElements "" (string typeError) (ss.map .string) ⟨[], err⟩ = .ok ⟨⟨ss, []⟩, err⟩ := by
  induction ss with
  | nil => rfl
  | cons s ss ih =>
    simp only [List.map_cons, sliceElements, string]
    show (sliceElements "" (string typeError) (ss.map .string) ⟨[], err⟩).map _ = _
    rw [ih]
    rfl

theorem slice_string (typeError elementError : JsonValue → String) (ss : List String) (err : Option String) :
    slice typeError "" (string elementError) (.array (ss.map .string)) ⟨⟨[], []⟩, err⟩ = .ok ⟨⟨ss, []⟩, err⟩ := by
  cases ss with
  | nil => rfl
  | cons s ss => exact sliceElements_string elementError (s :: ss) err

end Decoder

/-! ### Times -/

/-- What the surroundings decide: how many seconds the zone of an instant is ahead of UTC, what becomes of a time that
is not in the layout of a JSON time, and the error of a text that is none. -/
structure JsonEnv where
  zone : Int → Int
  otherTime : String → Except String Int
  syntaxError : List UInt8 → String

namespace JsonEnv

/-- The zones are a number of minutes ahead. -/
def WholeMinutes (env : JsonEnv) : Prop := ∀ t, env.zone t % 60 = 0

variable (env : JsonEnv)

/-- An instant, in nanoseconds since 1970, as a value. -/
def timeValue (t : Int) : Except String JsonValue :=
  match Rfc3339.marshal (env.zone t) t with
  | .error err => .error ("json: error calling MarshalJSON for type time.Time: Time.MarshalJSON: " ++ err)
  | .ok text => .ok (.string (String.ofList text))

def parseTime : JsonValue → Except String Int
  | .string s =>
    match Rfc3339.parse s.toList with
    | some t => .ok t
    | none => env.otherTime s
  | _ => .error "Time.UnmarshalJSON: input is not a JSON string"

variable {env}

theorem timeValue_spec (henv : env.WholeMinutes) {t : Int} {v : JsonValue} (h : env.timeValue t = .ok v) :
    ∃ s, v = .string s ∧ env.parseTime (.string s) = .ok t := by
  unfold timeValue Rfc3339.marshal at h
  split at h
  · cases h
  rename_i text htext
  split_ifs at htext with hyear hhour
  cases h
  cases htext
  obtain ⟨m, hm⟩ : ∃ m, env.zone t = m * 60 := ⟨env.zone t / 60, by have := henv t; omega⟩
  rw [hm, Int.mul_tdiv_cancel m (by decide)] at hhour
  have hread := Rfc3339.parse_format hyear (henv t) (by omega) (by omega)
  refine ⟨_, rfl, ?_⟩
  simp only [parseTime, String.toList_ofList, hread]

end JsonEnv
