import Mathlib.Tactic.Common

/-!
# Decoding JSON values into variables

A decoder fills in a variable that has a value already.  `null` empties a pointer, a map or a slice and leaves
anything else as it is; a member of an object can come twice, and the later one is decoded into what the earlier one
left; a value of a wrong type is remembered as an error while decoding goes on.

What an object leaves in a field that can be empty depends on the last member with its name alone:
`Decoder.Owns.decodeMembers_present`.
-/

/-- The value of a JSON text.  The members of an object are in the order of the text, and a name can come twice. -/
inductive JsonValue where
  | null
  | bool (b : Bool)
  | number (literal : String)
  | string (s : String)
  | array (elements : List JsonValue)
  | object (members : List (String × JsonValue))

namespace JsonValue

def isNull : JsonValue → Bool
  | null => true
  | _ => false

/-- The names of fields are compared without regard to case.  Of all characters that are not ASCII only the long s and
the Kelvin sign are other cases of an ASCII letter. -/
def foldRune (c : Char) : Char :=
  if c = Char.ofNat 0x17F then 'S' else if c = Char.ofNat 0x212A then 'K' else c.toUpper

def foldName (name : String) : List Char := name.toList.map foldRune

/-- The value of the last member with the name. -/
def lastMember (name : String) (members : List (String × JsonValue)) : Option JsonValue :=
  ((members.filter fun m => foldName m.1 = foldName name).getLast?).map Prod.snd

/-- The value is an object in which the last member with the name is not `null`. -/
def Provides (name : String) : JsonValue → Prop
  | object members => ∃ v ∈ lastMember name members, v.isNull = false
  | _ => False

theorem lastMember_cons (name : String) (m : String × JsonValue) (members : List (String × JsonValue)) :
    lastMember name (m :: members) =
      (lastMember name members).or (if foldName m.1 = foldName name then some m.2 else none) := by
  unfold lastMember
  by_cases hname : foldName m.1 = foldName name
  · rw [List.filter_cons_of_pos (by simpa using hname), if_pos hname, List.getLast?_cons]
    cases (members.filter fun m => foldName m.1 = foldName name).getLast? <;> rfl
  · rw [List.filter_cons_of_neg (by simpa using hname), if_neg hname, Option.or_none]

end JsonValue

/-- A variable that is decoded into, and the first error of a value of a wrong type. -/
structure Decoded (α : Type) where
  value : α
  savedError : Option String

namespace Decoded

variable {α : Type}

def set (d : Decoded α) (a : α) : Decoded α := { d with value := a }

def saveError (d : Decoded α) (err : String) : Decoded α := { d with savedError := d.savedError.or (some err) }

theorem savedError_saveError_ne_none (d : Decoded α) (err : String) : (d.saveError err).savedError ≠ none := by
  cases h : d.savedError <;> simp [saveError, h]

end Decoded

/-- Decodes a value into a variable; an error ends the decoding of the text. -/
abbrev Decoder (α : Type) := JsonValue → Decoded α → Except String (Decoded α)

namespace Decoder

open JsonValue (foldName lastMember)

variable {α β : Type}

/-- A slice, and what is in the array behind its end. -/
structure Slice (α : Type) where
  visible : List α
  spare : List α

/-! ### Decoders -/

section Leaves

variable (typeError : JsonValue → String)

def string : Decoder String
  | .null, d => .ok d
  | .string s, d => .ok (d.set s)
  | v, d => .ok (d.saveError (typeError v))

def int64 (parseInt : String → Option Int64) : Decoder Int64
  | .null, d => .ok d
  | .number literal, d =>
    match parseInt literal with
    | some i => .ok (d.set i)
    | none => .ok (d.saveError (typeError (.number literal)))
  | v, d => .ok (d.saveError (typeError v))

/-- A type that decodes itself. -/
def custom (unmarshal : JsonValue → Except String α) : Decoder α
  | .null, d => .ok d
  | v, d => (unmarshal v).map d.set

end Leaves

/-- A pointer; a value is made for it where there is none. -/
def pointer (zero : α) (decode : Decoder α) : Decoder (Option α)
  | .null, d => .ok (d.set none)
  | v, d => (decode v ⟨d.value.getD zero, d.savedError⟩).map fun r => ⟨some r.value, r.savedError⟩

/-- The entries of a map. -/
def mapEntries (zero : α) (decode : Decoder α) :
    List (String × JsonValue) → Decoded (List (String × α)) → Except String (Decoded (List (String × α)))
  | [], d => .ok d
  | (key, v) :: members, d =>
    match decode v ⟨zero, d.savedError⟩ with
    | .error err => .error err
    | .ok r =>
      mapEntries zero decode members ⟨(d.value.filter fun e => e.1 ≠ key) ++ [(key, r.value)], r.savedError⟩

/-- A map; one is made where there is none. -/
def mapOf (typeError : JsonValue → String) (zero : α) (decode : Decoder α) : Decoder (Option (List (String × α)))
  | .null, d => .ok (d.set none)
  | .object members, d =>
    (mapEntries zero decode members ⟨d.value.getD [], d.savedError⟩).map fun r => ⟨some r.value, r.savedError⟩
  | v, d => .ok (d.saveError (typeError v))

/-- The elements of a slice are decoded into those that are in the array already. -/
def sliceElements (zero : α) (decode : Decoder α) :
    List JsonValue → Decoded (List α) → Except String (Decoded (Slice α))
  | [], d => .ok ⟨⟨[], d.value⟩, d.savedError⟩
  | v :: vs, d =>
    match decode v ⟨d.value.headD zero, d.savedError⟩ with
    | .error err => .error err
    | .ok r =>
      (sliceElements zero decode vs ⟨d.value.tail, r.savedError⟩).map fun s =>
        ⟨⟨r.value :: s.value.visible, s.value.spare⟩, s.savedError⟩

def slice (typeError : JsonValue → String) (zero : α) (decode : Decoder α) : Decoder (Slice α)
  | .null, d => .ok (d.set ⟨[], []⟩)
  | .array [], d => .ok (d.set ⟨[], []⟩)
  | .array vs, d => sliceElements zero decode vs ⟨d.value.visible ++ d.value.spare, d.savedError⟩
  | v, d => .ok (d.saveError (typeError v))

/-- A part of a variable. -/
def part (get : α → β) (put : α → β → α) (decode : Decoder β) : Decoder α :=
  fun v d => (decode v ⟨get d.value, d.savedError⟩).map fun r => ⟨put d.value r.value, r.savedError⟩

/-- The members of an object, into the fields with their names; a member without a field is skipped. -/
def decodeMembers (fields : List (String × Decoder α)) :
    List (String × JsonValue) → Decoded α → Except String (Decoded α)
  | [], d => .ok d
  | (key, v) :: members, d =>
    match fields.find? fun f => foldName f.1 = foldName key with
    | none => decodeMembers fields members d
    | some f =>
      match f.2 v d with
      | .error err => .error err
      | .ok d' => decodeMembers fields members d'

def struct (typeError : JsonValue → String) (fields : List (String × Decoder α)) : Decoder α
  | .null, d => .ok d
  | .object members, d => decodeMembers fields members d
  | v, d => .ok (d.saveError (typeError v))

/-- Decodes into a new variable. -/
def run (decode : Decoder α) (zero : α) (v : JsonValue) : Except String α :=
  match decode v ⟨zero, none⟩ with
  | .error err => .error err
  | .ok d =>
    match d.savedError with
    | some err => .error err
    | none => .ok d.value

/-! ### Errors are not lost -/

/-- Where there is no error after decoding, there was none before. -/
def KeepsErrors (decode : Decoder α) : Prop :=
  ∀ v d d', decode v d = .ok d' → d'.savedError = none → d.savedError = none

private theorem map_eq_ok {f : α → β} {e : Except String α} {b : β} (h : e.map f = .ok b) :
    ∃ a, e = .ok a ∧ f a = b := by
  cases e with
  | error err => cases h
  | ok a => exact ⟨a, rfl, Except.ok.inj h⟩

private theorem savedError_of_ok_saveError {d d' : Decoded α} {err : String}
    (h : (.ok (d.saveError err) : Except String (Decoded α)) = .ok d') : d'.savedError ≠ none :=
  Except.ok.inj h ▸ d.savedError_saveError_ne_none err

private theorem savedError_of_ok_set {d d' : Decoded α} {a : α}
    (h : (.ok (d.set a) : Except String (Decoded α)) = .ok d') : d.savedError = d'.savedError :=
  Except.ok.inj h ▸ rfl

section Leaves

variable (typeError : JsonValue → String)

theorem keepsErrors_string : (string typeError).KeepsErrors := by
  intro v d d' h hnone
  cases v with
  | null => exact Except.ok.inj h ▸ hnone
  | string s => exact (savedError_of_ok_set h).trans hnone
  | _ => exact absurd hnone (savedError_of_ok_saveError h)

theorem keepsErrors_int64 (parseInt : String → Option Int64) : (int64 typeError parseInt).KeepsErrors := by
  intro v d d' h hnone
  cases v with
  | null => exact Except.ok.inj h ▸ hnone
  | number literal =>
    rw [int64] at h
    split at h
    · exact (savedError_of_ok_set h).trans hnone
    · exact absurd hnone (savedError_of_ok_saveError h)
  | _ => exact absurd hnone (savedError_of_ok_saveError h)

theorem keepsErrors_custom (unmarshal : JsonValue → Except String α) : (custom unmarshal).KeepsErrors := by
  intro v d d' h hnone
  cases v with
  | null => exact Except.ok.inj h ▸ hnone
  | _ =>
    obtain ⟨a, -, rfl⟩ := map_eq_ok h
    exact hnone

end Leaves

variable {zero : α} {decode : Decoder α}

theorem keepsErrors_pointer (hdecode : decode.KeepsErrors) : (pointer zero decode).KeepsErrors := by
  intro v d d' h hnone
  cases v with
  | null => exact (savedError_of_ok_set h).trans hnone
  | _ =>
    obtain ⟨r, hr, rfl⟩ := map_eq_ok h
    exact hdecode _ _ _ hr hnone

private theorem keepsErrors_mapEntries (hdecode : decode.KeepsErrors) {members : List (String × JsonValue)}
    {d d' : Decoded (List (String × α))} (h : mapEntries zero decode members d = .ok d')
    (hnone : d'.savedError = none) : d.savedError = none := by
  induction members generalizing d with
  | nil => exact Except.ok.inj h ▸ hnone
  | cons m members ih =>
    unfold mapEntries at h
    split at h
    · cases h
    · rename_i r hr
      exact hdecode _ _ _ hr (ih h)

theorem keepsErrors_mapOf (typeError : JsonValue → String) (hdecode : decode.KeepsErrors) :
    (mapOf typeError zero decode).KeepsErrors := by
  intro v d d' h hnone
  cases v with
  | null => exact (savedError_of_ok_set h).trans hnone
  | object members =>
    obtain ⟨r, hr, rfl⟩ := map_eq_ok h
    exact keepsErrors_mapEntries hdecode hr hnone
  | _ => exact absurd hnone (savedError_of_ok_saveError h)

private theorem keepsErrors_sliceElements (hdecode : decode.KeepsErrors) {vs : List JsonValue} {d : Decoded (List α)}
    {d' : Decoded (Slice α)} (h : sliceElements zero decode vs d = .ok d') (hnone : d'.savedError = none) :
    d.savedError = none := by
  induction vs generalizing d d' with
  | nil => exact (congrArg Decoded.savedError (Except.ok.inj h)).trans hnone
  | cons v vs ih =>
    unfold sliceElements at h
    split at h
    · cases h
    · rename_i r hr
      obtain ⟨s, hs, rfl⟩ := map_eq_ok h
      exact hdecode _ _ _ hr (ih hs hnone)

theorem keepsErrors_slice (typeError : JsonValue → String) (hdecode : decode.KeepsErrors) :
    (slice typeError zero decode).KeepsErrors := by
  intro v d d' h hnone
  cases v with
  | null => exact (savedError_of_ok_set h).trans hnone
  | array vs =>
    cases vs with
    | nil => exact (savedError_of_ok_set h).trans hnone
    | cons v vs => exact keepsErrors_sliceElements hdecode (d := ⟨_, _⟩) h hnone
  | _ => exact absurd hnone (savedError_of_ok_saveError h)

theorem keepsErrors_part (get : β → α) (put : β → α → β) (hdecode : decode.KeepsErrors) :
    (part get put decode).KeepsErrors := by
  intro v d d' h hnone
  obtain ⟨r, hr, rfl⟩ := map_eq_ok h
  exact hdecode _ _ _ hr hnone

section Struct

variable {fields : List (String × Decoder α)}

/-- A member is decoded into its field or skipped. -/
private theorem decodeMembers_cons {key : String} {v : JsonValue} {members : List (String × JsonValue)}
    {d d' : Decoded α} (h : decodeMembers fields ((key, v) :: members) d = .ok d') :
    (fields.find? (fun f => foldName f.1 = foldName key) = none ∧ decodeMembers fields members d = .ok d') ∨
      ∃ f ∈ fields, foldName f.1 = foldName key ∧ ∃ r, f.2 v d = .ok r ∧ decodeMembers fields members r = .ok d' := by
  unfold decodeMembers at h
  split at h
  · rename_i hnone
    exact .inl ⟨hnone, h⟩
  · rename_i f hfind
    split at h
    · cases h
    · rename_i r hr
      exact .inr ⟨f, List.mem_of_find?_eq_some hfind, by simpa using List.find?_some hfind, r, hr, h⟩

theorem keepsErrors_decodeMembers (hfields : ∀ f ∈ fields, f.2.KeepsErrors) {members : List (String × JsonValue)}
    {d d' : Decoded α} (h : decodeMembers fields members d = .ok d') (hnone : d'.savedError = none) :
    d.savedError = none := by
  induction members generalizing d with
  | nil => exact Except.ok.inj h ▸ hnone
  | cons m members ih =>
    rcases decodeMembers_cons h with ⟨-, hrest⟩ | ⟨f, hf, -, r, hr, hrest⟩
    · exact ih hrest
    · exact hfields f hf _ _ _ hr (ih hrest)

theorem keepsErrors_struct (typeError : JsonValue → String) (hfields : ∀ f ∈ fields, f.2.KeepsErrors) :
    (struct typeError fields).KeepsErrors := by
  intro v d d' h hnone
  cases v with
  | null => exact Except.ok.inj h ▸ hnone
  | object members => exact keepsErrors_decodeMembers hfields h hnone
  | _ => exact absurd hnone (savedError_of_ok_saveError h)

end Struct

/-! ### What is there after decoding -/

/-- Something is there after any value but `null`. -/
def Sets (decode : Decoder α) (present : α → Bool) : Prop :=
  ∀ v d d', decode v d = .ok d' → d'.savedError = none → present d'.value = !v.isNull

/-- It is there afterwards if it was before. -/
def Frames (decode : Decoder α) (present : α → Bool) : Prop :=
  ∀ v d d', decode v d = .ok d' → present d'.value = present d.value

theorem sets_pointer : (pointer zero decode).Sets Option.isSome := by
  intro v d d' h _
  cases v with
  | null => exact Except.ok.inj h ▸ rfl
  | _ =>
    obtain ⟨r, -, rfl⟩ := map_eq_ok h
    rfl

theorem sets_mapOf (typeError : JsonValue → String) : (mapOf typeError zero decode).Sets Option.isSome := by
  intro v d d' h hnone
  cases v with
  | null => exact Except.ok.inj h ▸ rfl
  | object members =>
    obtain ⟨r, -, rfl⟩ := map_eq_ok h
    rfl
  | _ => exact absurd hnone (savedError_of_ok_saveError h)

theorem sets_part {present : β → Bool} {presentPart : α → Bool} {get : β → α} {put : β → α → β}
    (hput : ∀ b a, present (put b a) = presentPart a) (hdecode : decode.Sets presentPart) :
    (part get put decode).Sets present := by
  intro v d d' h hnone
  obtain ⟨r, hr, rfl⟩ := map_eq_ok h
  exact (hput ..).trans (hdecode _ _ _ hr hnone)

theorem frames_part {present : β → Bool} {get : β → α} {put : β → α → β}
    (hput : ∀ b a, present (put b a) = present b) : (part get put decode).Frames present := by
  intro v d d' h
  obtain ⟨r, -, rfl⟩ := map_eq_ok h
  exact hput ..

/-- The field with the name decides what is there, and no other field touches it. -/
structure Owns (fields : List (String × Decoder α)) (name : String) (present : α → Bool) : Prop where
  keepsErrors : ∀ f ∈ fields, f.2.KeepsErrors
  sets : ∀ f ∈ fields, foldName f.1 = foldName name → f.2.Sets present
  frames : ∀ f ∈ fields, foldName f.1 ≠ foldName name → f.2.Frames present
  exists_mem : ∃ f ∈ fields, foldName f.1 = foldName name

section Present

variable {fields : List (String × Decoder α)} {name : String} {present : α → Bool}

/-- The last member with the name decides. -/
theorem Owns.decodeMembers_present (howns : Owns fields name present) {members : List (String × JsonValue)}
    {d d' : Decoded α} (h : decodeMembers fields members d = .ok d') (hnone : d'.savedError = none) :
    present d'.value = ((lastMember name members).map fun v => !v.isNull).getD (present d.value) := by
  induction members generalizing d with
  | nil => exact Except.ok.inj h ▸ rfl
  | cons m members ih =>
    obtain ⟨key, v⟩ := m
    rw [JsonValue.lastMember_cons]
    rcases decodeMembers_cons h with ⟨hfind, hrest⟩ | ⟨f, hf, hkey, r, hr, hrest⟩
    · have hne : foldName key ≠ foldName name := by
        intro heq
        obtain ⟨f, hf, hname⟩ := howns.exists_mem
        exact absurd (hname.trans heq.symm) (by simpa using List.find?_eq_none.1 hfind f hf)
      rw [ih hrest, if_neg hne, Option.or_none]
    · have hquiet := keepsErrors_decodeMembers howns.keepsErrors hrest hnone
      rw [ih hrest]
      dsimp only
      by_cases heq : foldName key = foldName name
      · rw [if_pos heq, howns.sets f hf (hkey.trans heq) v d r hr hquiet]
        cases lastMember name members <;> rfl
      · rw [if_neg heq, howns.frames f hf (fun hname => heq (hkey.symm.trans hname)) v d r hr, Option.or_none]

/-- The same for a text that is decoded into a new variable. -/
theorem Owns.present_run_iff (howns : Owns fields name present) (hzero : present zero = false)
    {typeError : JsonValue → String} {v : JsonValue} {a : α} (h : run (struct typeError fields) zero v = .ok a) :
    present a = true ↔ v.Provides name := by
  unfold run at h
  split at h
  · cases h
  rename_i d hd
  split at h
  · cases h
  rename_i hnone
  cases h
  cases v with
  | null =>
    obtain rfl := Except.ok.inj hd
    simp [hzero, JsonValue.Provides]
  | object members =>
    rw [howns.decodeMembers_present hd hnone, hzero, JsonValue.Provides]
    cases lastMember name members <;> simp
  | _ => exact absurd hnone (savedError_of_ok_saveError hd)

end Present

end Decoder
