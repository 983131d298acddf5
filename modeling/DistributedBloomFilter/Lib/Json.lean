import Mathlib.Data.List.Nodup
import Mathlib.Data.List.Pairwise

/-!
# Marshalling to a byte text

A text encoding of a type is a pair of partial functions, and all a program may rely on is that a value it has
marshalled can be read back (`RoundTrips`), up to the fields it uses.  `ofTable` is the encoding of finitely many
values with given texts.
-/

/-- An encoding of the values of `α` as byte texts; both directions can fail with an error text. -/
structure Json (α : Type) where
  marshal : α → Except String (List UInt8)
  unmarshal : List UInt8 → Except String α

namespace Json

variable {α : Type}

/-- Every text `marshal` produces is read back as a value related to the one it came from. -/
def RoundTrips (j : Json α) (same : α → α → Prop) : Prop :=
  ∀ a text, j.marshal a = .ok text → ∃ a', j.unmarshal text = .ok a' ∧ same a a'

/-- Every text `marshal` produces starts with the byte `b`, as the text of an object starts with an opening brace. -/
def HeadIs (j : Json α) (b : UInt8) : Prop :=
  ∀ a text, j.marshal a = .ok text → text.head? = some b

/-- The encoding that knows the values and the texts of a table and nothing else. -/
def ofTable [DecidableEq α] (table : List (α × List UInt8)) : Json α where
  marshal a := match table.find? (fun e => decide (e.1 = a)) with
    | some e => .ok e.2
    | none => .error "json: unsupported value"
  unmarshal text := match table.find? (fun e => decide (e.2 = text)) with
    | some e => .ok e.1
    | none => .error "invalid character"

theorem marshal_ofTable_head [DecidableEq α] (a : α) (text : List UInt8) (table : List (α × List UInt8)) :
    (ofTable ((a, text) :: table)).marshal a = .ok text := by
  simp [ofTable]

theorem unmarshal_ofTable_head [DecidableEq α] (a : α) (text : List UInt8) (table : List (α × List UInt8)) :
    (ofTable ((a, text) :: table)).unmarshal text = .ok a := by
  simp [ofTable]

theorem headIs_ofTable [DecidableEq α] {table : List (α × List UInt8)} {b : UInt8}
    (h : ∀ e ∈ table, e.2.head? = some b) : (ofTable table).HeadIs b := by
  intro a text htext
  simp only [ofTable] at htext
  split at htext
  · rename_i e he
    obtain rfl := Except.ok.inj htext
    exact h e (List.mem_of_find?_eq_some he)
  · cases htext

theorem roundTrips_ofTable [DecidableEq α] {table : List (α × List UInt8)} (h : (table.map Prod.snd).Nodup)
    {same : α → α → Prop} (hsame : ∀ a, same a a) : (ofTable table).RoundTrips same := by
  intro a text htext
  simp only [ofTable] at htext ⊢
  split at htext
  · rename_i e he
    obtain rfl := Except.ok.inj htext
    have hmem := List.mem_of_find?_eq_some he
    have hea : e.1 = a := by simpa using List.find?_some he
    cases hf : table.find? (fun e' => decide (e'.2 = e.2)) with
    | none =>
      have := List.find?_eq_none.1 hf e hmem
      simp at this
    | some e' =>
      have he' : e'.2 = e.2 := by simpa using List.find?_some hf
      obtain rfl : e' = e := List.inj_on_of_nodup_map h (List.mem_of_find?_eq_some hf) hmem he'
      exact ⟨e'.1, rfl, hea ▸ hsame _⟩
  · cases htext

end Json
