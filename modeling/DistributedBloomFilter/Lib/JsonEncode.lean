import DistributedBloomFilter.Lib.Decimal
import DistributedBloomFilter.Lib.JsonQuote

/-!
# The text of a JSON value

The encoder puts white space between the parts of the text as a layout says.  Whatever the layout, the text is a JSON
text (`valid_encode`) and its value is the one it was made from (`parse_encode`).
-/

namespace JsonText

/-! ### The encoder -/

/-- The white space of a text: before an element or a member at a depth, and after a colon. -/
structure Layout where
  newline : Nat → List UInt8
  afterColon : List UInt8
  newline_space : ∀ depth, ∀ b ∈ newline depth, isSpace b = true
  afterColon_space : ∀ b ∈ afterColon, isSpace b = true

namespace Layout

/-- No white space. -/
def compact : Layout where
  newline _ := []
  afterColon := []
  newline_space := by simp
  afterColon_space := by simp

/-- A line for every element and every member, indented by two blanks for every level. -/
def indented : Layout where
  newline depth := 0x0A :: List.replicate (2 * depth) 0x20
  afterColon := [0x20]
  newline_space := by
    intro depth b hb
    rcases List.mem_cons.1 hb with rfl | hb
    · rfl
    · rw [List.eq_of_mem_replicate hb]
      rfl
  afterColon_space := by decide +kernel

end Layout

mutual

def encode (layout : Layout) (depth : Nat) : JsonValue → List UInt8
  | .null => [0x6E, 0x75, 0x6C, 0x6C]
  | .bool true => [0x74, 0x72, 0x75, 0x65]
  | .bool false => [0x66, 0x61, 0x6C, 0x73, 0x65]
  | .number literal => literal.toList.map fun c => UInt8.ofNat c.toNat
  | .string s => quote s
  | .array [] => [0x5B, 0x5D]
  | .array (v :: vs) =>
    0x5B :: (layout.newline (depth + 1) ++ (encode layout (depth + 1) v ++
      (encodeElements layout (depth + 1) vs ++ (layout.newline depth ++ [0x5D]))))
  | .object [] => [0x7B, 0x7D]
  | .object ((key, v) :: ms) =>
    0x7B :: (layout.newline (depth + 1) ++ (quote key ++ (0x3A :: (layout.afterColon ++
      (encode layout (depth + 1) v ++ (encodeMembers layout (depth + 1) ms ++ (layout.newline depth ++ [0x7D])))))))

/-- The elements of an array after the first one. -/
def encodeElements (layout : Layout) (depth : Nat) : List JsonValue → List UInt8
  | [] => []
  | v :: vs => 0x2C :: (layout.newline depth ++ (encode layout depth v ++ encodeElements layout depth vs))

/-- The members of an object after the first one. -/
def encodeMembers (layout : Layout) (depth : Nat) : List (String × JsonValue) → List UInt8
  | [] => []
  | (key, v) :: ms =>
    0x2C :: (layout.newline depth ++ (quote key ++ (0x3A :: (layout.afterColon ++
      (encode layout depth v ++ encodeMembers layout depth ms)))))

end

example : encode .compact 0 (.object [("a", .array [.number "1", .null]), ("b", .string "<\n>")]) =
    "\x7b\"a\":[1,null],\"b\":\"\\u003c\\n\\u003e\"\x7d".toUTF8.toList := by decide +kernel

/-! ### Numbers -/

/-- The states inside a number. -/
def State.inNumber : State → Bool
  | .neg | .zero | .digits | .dot | .fraction | .exp | .expSign | .expDigits => true
  | _ => false

/-- What may follow a number in a text. -/
def Follows (tail : List UInt8) : Prop := ∃ c rest, tail = c :: rest ∧ isNumberByte c = false

private theorem Follows.head {tail : List UInt8} (h : Follows tail) : ∀ b ∈ tail.head?, isNumberByte b = false := by
  obtain ⟨c, rest, rfl, hc⟩ := h
  intro b hb
  rwa [← Option.some.inj hb]

/-- No byte of a number has a meaning elsewhere in a text. -/
private theorem numberByte {b : UInt8} (h : isNumberByte b = true) :
    isSpace b = false ∧ b ≠ 0x7B ∧ b ≠ 0x7D ∧ b ≠ 0x5B ∧ b ≠ 0x5D ∧ b ≠ 0x22 ∧ b ≠ 0x2C ∧ b ≠ 0x3A ∧ b ≠ 0x74 ∧
      b ≠ 0x66 ∧ b ≠ 0x6E := by
  have hne : ∀ d, isNumberByte d = false → b ≠ d := by
    rintro d hd rfl
    rw [h] at hd
    cases hd
  refine ⟨?_, hne _ rfl, hne _ rfl, hne _ rfl, hne _ rfl, hne _ rfl, hne _ rfl, hne _ rfl, hne _ rfl, hne _ rfl,
    hne _ rfl⟩
  simp [isSpace, hne 0x20 rfl, hne 0x09 rfl, hne 0x0D rfl, hne 0x0A rfl]

private theorem endValue_numberByte {b : UInt8} (h : isNumberByte b = true) (stack : List Context) :
    Scanner.endValue stack b = none := by
  obtain ⟨hspace, -, hbrace, -, hbracket, -, hcomma, hcolon, -⟩ := numberByte h
  unfold Scanner.endValue
  cases stack with
  | nil => simp [hspace]
  | cons top rest => cases top <;> simp [hspace, hbrace, hbracket, hcomma, hcolon]

/-- A byte of a number keeps the scanner in a number, whatever is open. -/
private theorem step_number (stack : List Context) {st : State} (hst : st = .beginValue ∨ st.inNumber = true)
    {b : UInt8} (hb : isNumberByte b = true) {s : Scanner} (h : Scanner.step ⟨st, []⟩ b = some s) :
    ∃ st', s = ⟨st', []⟩ ∧ st'.inNumber = true ∧ Scanner.step ⟨st, stack⟩ b = some ⟨st', stack⟩ := by
  obtain ⟨hspace, hobject, -, harray, -, hquote, -, -, htrue, hfalse, hnull⟩ := numberByte hb
  cases st <;> simp only [State.inNumber, reduceCtorEq, or_self, or_false, false_or] at hst <;>
    simp only [Scanner.step, Scanner.beginValue, Scanner.afterDigits, endValue_numberByte hb, hspace, hobject, harray,
      hquote, htrue, hfalse, hnull, if_false, Bool.false_eq_true] at h ⊢ <;>
    split_ifs at h ⊢ <;> cases h <;> exact ⟨_, rfl, rfl, rfl⟩

private theorem run_number (stack : List Context) {literal : List UInt8}
    (hbytes : ∀ b ∈ literal, isNumberByte b = true)
    {st : State} (hst : st = .beginValue ∨ st.inNumber = true) {s : Scanner}
    (h : Scanner.run ⟨st, []⟩ literal = some s) :
    ∃ st', s = ⟨st', []⟩ ∧ (st' = .beginValue ∨ st'.inNumber = true) ∧
      ∀ rest, Scanner.run ⟨st, stack⟩ (literal ++ rest) = Scanner.run ⟨st', stack⟩ rest := by
  induction literal generalizing st with
  | nil => exact ⟨st, (Option.some.inj h).symm, hst, fun rest => rfl⟩
  | cons b literal ih =>
    rw [Scanner.run] at h
    cases hstep : Scanner.step ⟨st, []⟩ b with
    | none => simp [hstep] at h
    | some s' =>
      obtain ⟨st₁, rfl, hin, hstep'⟩ := step_number stack hst (hbytes b (List.mem_cons_self ..)) hstep
      simp only [hstep] at h
      obtain ⟨st₂, hs, hst₂, hrun⟩ := ih (fun b hb => hbytes b (List.mem_cons_of_mem _ hb)) (.inr hin) h
      refine ⟨st₂, hs, hst₂, fun rest => ?_⟩
      rw [List.cons_append, Scanner.run, hstep']
      exact hrun rest

/-- Where a number may end, the next byte is read as the one after a value. -/
private theorem step_of_eof {st : State} (hst : st = .beginValue ∨ st.inNumber = true)
    (heof : Scanner.eof ⟨st, []⟩ = true) (stack : List Context) {c : UInt8} (hc : isNumberByte c = false) :
    Scanner.step ⟨st, stack⟩ c = Scanner.endValue stack c := by
  simp only [isNumberByte, Bool.or_eq_false_iff, decide_eq_false_iff_not] at hc
  obtain ⟨⟨⟨⟨⟨hdigit, -⟩, -⟩, hdot⟩, hE⟩, he⟩ := hc
  cases st <;> simp only [State.inNumber, reduceCtorEq, or_self, or_false] at hst <;>
    first
    | exact absurd heof (by decide)
    | simp [Scanner.step, Scanner.afterDigits, hdigit, hdot, hE, he]

private theorem run_isNumber {literal : List UInt8} (h : isNumber literal = true) (stack : List Context)
    {tail : List UInt8} (htail : Follows tail) :
    Scanner.run ⟨.beginValue, stack⟩ (literal ++ tail) = Scanner.run ⟨.endValue, stack⟩ tail := by
  obtain ⟨c, rest, rfl, hc⟩ := htail
  rw [isNumber, Bool.and_eq_true, List.all_eq_true, valid] at h
  obtain ⟨hbytes, hvalid⟩ := h
  split at hvalid
  · rename_i s hrun
    obtain ⟨st, rfl, hst, hrun⟩ := run_number stack hbytes (.inl rfl) hrun
    rw [hrun, Scanner.run, step_of_eof hst hvalid stack hc]
    rfl
  · cases hvalid

private theorem parseNumber_isNumber {literal : List UInt8} (h : isNumber literal = true) {rest : List UInt8}
    (hrest : ∀ b ∈ rest.head?, isNumberByte b = false) :
    parseNumber (literal ++ rest) =
      some (.number (String.ofList (literal.map fun b => Char.ofNat b.toNat)), rest) := by
  have hbytes : ∀ b ∈ literal, isNumberByte b = true := by
    rw [isNumber, Bool.and_eq_true, List.all_eq_true] at h
    exact h.1
  have htake : rest.takeWhile isNumberByte = [] ∧ rest.dropWhile isNumberByte = rest := by
    cases rest with
    | nil => exact ⟨rfl, rfl⟩
    | cons b rest => simp [hrest b rfl]
  unfold parseNumber
  rw [List.takeWhile_append_of_pos hbytes, htake.1, List.append_nil, List.dropWhile_append_of_pos hbytes, htake.2]
  simp only [h, if_true]

/-! ### Values -/

/-- Every number in the value has the literal of a number. -/
inductive WellFormed : JsonValue → Prop
  | null : WellFormed .null
  | bool (b : Bool) : WellFormed (.bool b)
  | number {literal : List UInt8} (h : isNumber literal = true) :
      WellFormed (.number (String.ofList (literal.map fun b => Char.ofNat b.toNat)))
  | string (s : String) : WellFormed (.string s)
  | array {vs : List JsonValue} (h : ∀ v ∈ vs, WellFormed v) : WellFormed (.array vs)
  | object {ms : List (String × JsonValue)} (h : ∀ m ∈ ms, WellFormed m.2) : WellFormed (.object ms)

/-- The bytes of the literal of a number are those it was read from. -/
private theorem encode_number (layout : Layout) (depth : Nat) (literal : List UInt8) :
    encode layout depth (.number (String.ofList (literal.map fun b => Char.ofNat b.toNat))) = literal := by
  have hbyte : ∀ b : UInt8, UInt8.ofNat (Char.ofNat b.toNat).toNat = b := by
    intro b
    have hlt := b.toNat_lt
    have hchar : (Char.ofNat b.toNat).toNat = b.toNat := by
      rw [Char.ofNat, dif_pos (.inl (by omega))]
      rfl
    rw [hchar, UInt8.ofNat_toNat]
  rw [encode, String.toList_ofList, List.map_map]
  exact (List.map_congr_left fun b _ => hbyte b).trans (List.map_id literal)

/-- No value begins with white space, a closing bracket or a closing brace. -/
private theorem exists_encode_eq_cons {v : JsonValue} (hv : WellFormed v) (layout : Layout) (depth : Nat) :
    ∃ b bs, encode layout depth v = b :: bs ∧ isSpace b = false ∧ b ≠ 0x5D := by
  cases hv with
  | null => exact ⟨_, _, by rw [encode], by decide, by decide⟩
  | bool b => cases b <;> exact ⟨_, _, by rw [encode], by decide, by decide⟩
  | number h =>
    rename_i literal
    rw [encode_number]
    match literal, h with
    | b :: bs, h =>
      rw [isNumber, List.all_cons, Bool.and_eq_true, Bool.and_eq_true] at h
      obtain ⟨hspace, -, -, -, hbracket, -⟩ := numberByte h.1.1
      exact ⟨b, bs, rfl, hspace, hbracket⟩
  | string s => exact ⟨_, _, by rw [encode, quote], by decide, by decide⟩
  | array h =>
    rename_i vs
    cases vs <;> exact ⟨_, _, by rw [encode], by decide, by decide⟩
  | object h =>
    rename_i ms
    cases ms <;> exact ⟨_, _, by rw [encode], by decide, by decide⟩

/-! ### The text is valid -/

section Scan

variable {stack : List Context} {tail : List UInt8}

/-- White space is skipped in a state that stays as it is. -/
private theorem run_space {s : Scanner} (hs : ∀ b, isSpace b = true → s.step b = some s) {space : List UInt8}
    (hspace : ∀ b ∈ space, isSpace b = true) (rest : List UInt8) : s.run (space ++ rest) = s.run rest := by
  induction space with
  | nil => rfl
  | cons b space ih =>
    rw [List.cons_append, Scanner.run, hs b (hspace b (List.mem_cons_self ..))]
    exact ih fun b hb => hspace b (List.mem_cons_of_mem _ hb)

private theorem step_endValue_space {top : Context} {b : UInt8} (hb : isSpace b = true) :
    Scanner.step ⟨.endValue, top :: stack⟩ b = some ⟨.endValue, top :: stack⟩ := by
  simp [Scanner.step, Scanner.endValue, hb]

private theorem step_beginValue_space {b : UInt8} (hb : isSpace b = true) :
    Scanner.step ⟨.beginValue, stack⟩ b = some ⟨.beginValue, stack⟩ := by
  simp [Scanner.step, Scanner.beginValue, hb]

private theorem step_beginValueOrEmpty_space {b : UInt8} (hb : isSpace b = true) :
    Scanner.step ⟨.beginValueOrEmpty, stack⟩ b = some ⟨.beginValueOrEmpty, stack⟩ := by
  simp [Scanner.step, hb]

private theorem step_beginString_space {b : UInt8} (hb : isSpace b = true) :
    Scanner.step ⟨.beginString, stack⟩ b = some ⟨.beginString, stack⟩ := by
  simp [Scanner.step, Scanner.beginString, hb]

private theorem step_beginStringOrEmpty_space {b : UInt8} (hb : isSpace b = true) :
    Scanner.step ⟨.beginStringOrEmpty, stack⟩ b = some ⟨.beginStringOrEmpty, stack⟩ := by
  simp [Scanner.step, hb]

/-- What was open around an object or an array is open again after it. -/
private theorem run_pop (top : Context) (htail : Follows tail) :
    Scanner.run (Scanner.pop (top :: stack)) tail = Scanner.run ⟨.endValue, stack⟩ tail := by
  obtain ⟨c, rest, rfl, -⟩ := htail
  cases stack with
  | nil => rfl
  | cons top' stack => rfl

private theorem follows_of_space {space : List UInt8} (hspace : ∀ b ∈ space, isSpace b = true)
    (htail : Follows tail) : Follows (space ++ tail) := by
  cases space with
  | nil => exact htail
  | cons b space =>
    refine ⟨b, space ++ tail, rfl, ?_⟩
    cases hb : isNumberByte b with
    | false => rfl
    | true =>
      have := (numberByte hb).1
      rw [hspace b (List.mem_cons_self ..)] at this
      cases this

/-- The scanner passes over the value. -/
def Scans (layout : Layout) (v : JsonValue) : Prop :=
  ∀ depth stack tail, Follows tail →
    Scanner.run ⟨.beginValue, stack⟩ (encode layout depth v ++ tail) = Scanner.run ⟨.endValue, stack⟩ tail

variable {layout : Layout}

private theorem follows_encodeElements (layout : Layout) (depth : Nat) (vs : List JsonValue) {space : List UInt8}
    (hspace : ∀ b ∈ space, isSpace b = true) :
    Follows (encodeElements layout depth vs ++ (space ++ 0x5D :: tail)) := by
  cases vs with
  | nil =>
    rw [encodeElements, List.nil_append]
    exact follows_of_space hspace ⟨0x5D, tail, rfl, rfl⟩
  | cons v vs => exact ⟨0x2C, _, by rw [encodeElements]; rfl, rfl⟩

private theorem follows_encodeMembers (layout : Layout) (depth : Nat) (ms : List (String × JsonValue))
    {space : List UInt8} (hspace : ∀ b ∈ space, isSpace b = true) :
    Follows (encodeMembers layout depth ms ++ (space ++ 0x7D :: tail)) := by
  cases ms with
  | nil =>
    rw [encodeMembers, List.nil_append]
    exact follows_of_space hspace ⟨0x7D, tail, rfl, rfl⟩
  | cons m ms => exact ⟨0x2C, _, by rw [encodeMembers]; rfl, rfl⟩

/-- A member, after the opening brace or after a comma. -/
private theorem run_member {v : JsonValue} (hv : Scans layout v) (depth : Nat) (key : String) (htail : Follows tail)
    {st : State} (hst : st = .beginString ∨ st = .beginStringOrEmpty) :
    Scanner.run ⟨st, .objectKey :: stack⟩
        (quote key ++ 0x3A :: (layout.afterColon ++ (encode layout depth v ++ tail))) =
      Scanner.run ⟨.endValue, .objectValue :: stack⟩ tail := by
  have hquote : Scanner.step ⟨st, .objectKey :: stack⟩ 0x22 = some ⟨.inString, .objectKey :: stack⟩ := by
    rcases hst with rfl | rfl <;> rfl
  have hcolon : Scanner.step ⟨.endValue, .objectKey :: stack⟩ 0x3A = some ⟨.beginValue, .objectValue :: stack⟩ := rfl
  rw [quote, List.cons_append, Scanner.run, hquote]
  simp only [List.append_assoc, List.cons_append, List.nil_append]
  rw [run_quote, Scanner.run, hcolon]
  exact (run_space (fun b hb => step_beginValue_space hb) layout.afterColon_space _).trans (hv depth _ _ htail)

private theorem run_encodeElements {vs : List JsonValue} (hvs : ∀ v ∈ vs, Scans layout v) (depth : Nat)
    {space : List UInt8} (hspace : ∀ b ∈ space, isSpace b = true) (htail : Follows tail) :
    Scanner.run ⟨.endValue, .arrayValue :: stack⟩ (encodeElements layout depth vs ++ (space ++ 0x5D :: tail)) =
      Scanner.run ⟨.endValue, stack⟩ tail := by
  induction vs with
  | nil =>
    rw [encodeElements, List.nil_append, run_space (fun b hb => step_endValue_space hb) hspace]
    exact run_pop .arrayValue htail
  | cons v vs ih =>
    have hcomma : Scanner.step ⟨.endValue, .arrayValue :: stack⟩ 0x2C = some ⟨.beginValue, .arrayValue :: stack⟩ :=
      rfl
    rw [encodeElements, List.cons_append, Scanner.run, hcomma]
    simp only [List.append_assoc]
    rw [run_space (fun b hb => step_beginValue_space hb) (layout.newline_space _),
      hvs v (List.mem_cons_self ..) depth _ _ (follows_encodeElements layout depth vs hspace)]
    exact ih fun v hv => hvs v (List.mem_cons_of_mem _ hv)

private theorem run_encodeMembers {ms : List (String × JsonValue)} (hms : ∀ m ∈ ms, Scans layout m.2) (depth : Nat)
    {space : List UInt8} (hspace : ∀ b ∈ space, isSpace b = true) :
    Scanner.run ⟨.endValue, .objectValue :: stack⟩ (encodeMembers layout depth ms ++ (space ++ 0x7D :: tail)) =
      Scanner.run (Scanner.pop (.objectValue :: stack)) tail := by
  induction ms with
  | nil =>
    rw [encodeMembers, List.nil_append, run_space (fun b hb => step_endValue_space hb) hspace]
    rfl
  | cons m ms ih =>
    have hcomma : Scanner.step ⟨.endValue, .objectValue :: stack⟩ 0x2C = some ⟨.beginString, .objectKey :: stack⟩ :=
      rfl
    rw [encodeMembers, List.cons_append, Scanner.run, hcomma]
    simp only [List.append_assoc, List.cons_append]
    rw [run_space (fun b hb => step_beginString_space hb) (layout.newline_space _)]
    refine (run_member (hms m (List.mem_cons_self ..)) depth m.1 (follows_encodeMembers layout depth ms hspace)
      (.inl rfl)).trans ?_
    exact ih fun m hm => hms m (List.mem_cons_of_mem _ hm)

/-- The brace behind the members closes the object, whatever follows. -/
private theorem run_object {ms : List (String × JsonValue)} (hms : ∀ m ∈ ms, Scans layout m.2) (depth : Nat) :
    Scanner.run ⟨.beginValue, stack⟩ (encode layout depth (.object ms) ++ tail) =
      Scanner.run (Scanner.pop (.objectValue :: stack)) tail := by
  cases ms with
  | nil =>
    rw [encode]
    rfl
  | cons m ms =>
    have hopen : Scanner.step ⟨.beginValue, stack⟩ 0x7B = some ⟨.beginStringOrEmpty, .objectKey :: stack⟩ := rfl
    rw [encode, List.cons_append, Scanner.run, hopen]
    simp only [List.append_assoc, List.cons_append, List.nil_append]
    rw [run_space (fun b hb => step_beginStringOrEmpty_space hb) (layout.newline_space _)]
    refine (run_member (hms m (List.mem_cons_self ..)) (depth + 1) m.1
      (follows_encodeMembers layout (depth + 1) ms (layout.newline_space depth)) (.inr rfl)).trans ?_
    exact run_encodeMembers (fun m hm => hms m (List.mem_cons_of_mem _ hm)) (depth + 1) (layout.newline_space depth)

/-- The scanner passes over every value. -/
theorem scans_of_wellFormed (layout : Layout) {v : JsonValue} (hv : WellFormed v) : Scans layout v := by
  induction hv with
  | null =>
    intro depth stack tail htail
    rw [encode]
    rfl
  | bool b =>
    intro depth stack tail htail
    cases b <;> rw [encode] <;> rfl
  | number h =>
    intro depth stack tail htail
    rw [encode_number]
    exact run_isNumber h stack htail
  | string s =>
    intro depth stack tail htail
    rw [encode, quote, List.cons_append, List.append_assoc]
    exact run_quote s stack tail
  | array h ih =>
    rename_i vs
    intro depth stack tail htail
    cases vs with
    | nil =>
      rw [encode]
      exact run_pop .arrayValue htail
    | cons v vs =>
      obtain ⟨b, bs, hcons, hspace, hbracket⟩ :=
        exists_encode_eq_cons (h v (List.mem_cons_self ..)) layout (depth + 1)
      have hopen : Scanner.step ⟨.beginValue, stack⟩ 0x5B = some ⟨.beginValueOrEmpty, .arrayValue :: stack⟩ := rfl
      rw [encode, List.cons_append, Scanner.run, hopen]
      simp only [List.append_assoc, List.cons_append, List.nil_append]
      rw [run_space (fun b hb => step_beginValueOrEmpty_space hb) (layout.newline_space _)]
      -- the first byte of an element is read as the first byte of a value
      have hfirst : ∀ rest,
        Scanner.run ⟨.beginValueOrEmpty, .arrayValue :: stack⟩ (encode layout (depth + 1) v ++ rest) =
          Scanner.run ⟨.beginValue, .arrayValue :: stack⟩ (encode layout (depth + 1) v ++ rest) := by
        intro rest
        rw [hcons, List.cons_append, Scanner.run, Scanner.run]
        simp [Scanner.step, hspace, hbracket]
      rw [hfirst, ih v (List.mem_cons_self ..) (depth + 1) _ _
        (follows_encodeElements layout (depth + 1) vs (layout.newline_space depth))]
      exact run_encodeElements (fun v hv => ih v (List.mem_cons_of_mem _ hv)) (depth + 1)
        (layout.newline_space depth) htail
  | object h ih =>
    intro depth stack tail htail
    exact (run_object ih depth).trans (run_pop .objectValue htail)

end Scan

theorem Scanner.run_append (s : Scanner) (xs ys : List UInt8) :
    s.run (xs ++ ys) = (s.run xs).bind fun s' => s'.run ys := by
  induction xs generalizing s with
  | nil => rfl
  | cons x xs ih =>
    rw [List.cons_append, Scanner.run, Scanner.run]
    cases s.step x with
    | none => rfl
    | some s' => exact ih s'

theorem valid_encode (layout : Layout) {v : JsonValue} (hv : WellFormed v) (depth : Nat) :
    valid (encode layout depth v) = true := by
  have hrun := scans_of_wellFormed layout hv depth [] [0x20] ⟨0x20, [], rfl, rfl⟩
  rw [Scanner.run_append] at hrun
  unfold valid
  cases hs : Scanner.run ⟨.beginValue, []⟩ (encode layout depth v) with
  | none =>
    rw [hs] at hrun
    cases hrun
  | some s =>
    rw [hs] at hrun
    have hstep : s.step 0x20 = some ⟨.endTop, []⟩ := by
      simp only [Option.bind_some, Scanner.run] at hrun
      split at hrun
      · cases hrun
      · rename_i s' hs'
        rw [hs', hrun]
        rfl
    simp [Scanner.eof, hstep]

/-! ### The text is read back -/

section Parse

variable {layout : Layout}

private theorem skipSpace_append {space : List UInt8} (hspace : ∀ b ∈ space, isSpace b = true) (rest : List UInt8) :
    skipSpace (space ++ rest) = skipSpace rest := List.dropWhile_append_of_pos hspace

private theorem skipSpace_cons {b : UInt8} (hb : isSpace b = false) (rest : List UInt8) :
    skipSpace (b :: rest) = b :: rest := List.dropWhile_cons_of_neg (by simp [hb])

private theorem parseValue_space {space : List UInt8} (hspace : ∀ b ∈ space, isSpace b = true) (fuel : Nat)
    (rest : List UInt8) : parseValue fuel (space ++ rest) = parseValue fuel rest := by
  cases fuel with
  | zero => simp only [parseValue]
  | succ fuel => simp only [parseValue, skipSpace_append hspace]

/-- The parser takes the value, if it has the fuel for it. -/
def Parses (layout : Layout) (v : JsonValue) : Prop :=
  ∀ depth fuel tail, 2 * (encode layout depth v).length < fuel → (∀ b ∈ tail.head?, isNumberByte b = false) →
    parseValue fuel (encode layout depth v ++ tail) = some (v, tail)

private theorem parseElements_encode {v : JsonValue} (hv : Parses layout v) {vs : List JsonValue}
    (hvs : ∀ v ∈ vs, Parses layout v) (depth : Nat) {fuel : Nat}
    (hfuel : 2 * ((encode layout depth v).length + (encodeElements layout depth vs).length) + 1 < fuel)
    {before after : List UInt8} (hbefore : ∀ b ∈ before, isSpace b = true) (hafter : ∀ b ∈ after, isSpace b = true)
    (tail : List UInt8) :
    parseElements fuel (before ++
      (encode layout depth v ++ (encodeElements layout depth vs ++ (after ++ 0x5D :: tail)))) =
      some (v :: vs, tail) := by
  induction vs generalizing v fuel before with
  | nil =>
    obtain ⟨fuel, rfl⟩ := Nat.exists_eq_succ_of_ne_zero (Nat.ne_zero_of_lt hfuel)
    rw [parseElements, parseValue_space hbefore,
      hv depth fuel _ (by omega) (follows_encodeElements layout depth [] hafter).head]
    simp only [encodeElements, List.nil_append, skipSpace_append hafter,
      skipSpace_cons (show isSpace 0x5D = false from rfl)]
    rfl
  | cons v' vs ih =>
    obtain ⟨fuel, rfl⟩ := Nat.exists_eq_succ_of_ne_zero (Nat.ne_zero_of_lt hfuel)
    rw [parseElements, parseValue_space hbefore,
      hv depth fuel _ (by omega) (follows_encodeElements layout depth (v' :: vs) hafter).head]
    have hlen : (encodeElements layout depth (v' :: vs)).length =
        1 + ((layout.newline depth).length +
          ((encode layout depth v').length + (encodeElements layout depth vs).length)) := by
      rw [encodeElements]
      simp [Nat.add_comm]
    have hrest := ih (hvs v' (List.mem_cons_self ..)) (fun v hv => hvs v (List.mem_cons_of_mem _ hv))
      (show _ < fuel by omega) (layout.newline_space depth)
    simp only [encodeElements, List.cons_append, skipSpace_cons (show isSpace 0x2C = false from rfl),
      List.append_assoc, if_true, hrest, Option.map_some]

private theorem parseMembers_encode {m : String × JsonValue} (hm : Parses layout m.2) {ms : List (String × JsonValue)}
    (hms : ∀ m ∈ ms, Parses layout m.2) (depth : Nat) {fuel : Nat}
    (hfuel : 2 * ((encode layout depth m.2).length + (encodeMembers layout depth ms).length) + 1 < fuel)
    {before after : List UInt8} (hbefore : ∀ b ∈ before, isSpace b = true) (hafter : ∀ b ∈ after, isSpace b = true)
    (tail : List UInt8) :
    parseMembers fuel (before ++ (quote m.1 ++ (0x3A :: (layout.afterColon ++ (encode layout depth m.2 ++
      (encodeMembers layout depth ms ++ (after ++ 0x7D :: tail))))))) = some (m :: ms, tail) := by
  induction ms generalizing m fuel before with
  | nil =>
    obtain ⟨fuel, rfl⟩ := Nat.exists_eq_succ_of_ne_zero (Nat.ne_zero_of_lt hfuel)
    have hvalue := hm depth fuel (_ ++ (after ++ 0x7D :: tail)) (by omega)
      (follows_encodeMembers layout depth [] hafter).head
    simp only [parseMembers, skipSpace_append hbefore, quote, List.cons_append,
      skipSpace_cons (show isSpace 0x22 = false from rfl), if_true, List.append_assoc, List.nil_append,
      parseString_quote, skipSpace_cons (show isSpace 0x3A = false from rfl),
      parseValue_space layout.afterColon_space, hvalue]
    simp only [encodeMembers, List.nil_append, skipSpace_append hafter,
      skipSpace_cons (show isSpace 0x7D = false from rfl)]
    rfl
  | cons m' ms ih =>
    obtain ⟨fuel, rfl⟩ := Nat.exists_eq_succ_of_ne_zero (Nat.ne_zero_of_lt hfuel)
    have hlen : (encode layout depth m'.2).length + (encodeMembers layout depth ms).length + 1 ≤
        (encodeMembers layout depth (m' :: ms)).length := by
      rw [encodeMembers]
      simp
      omega
    have hvalue := hm depth fuel (_ ++ (after ++ 0x7D :: tail)) (by omega)
      (follows_encodeMembers layout depth (m' :: ms) hafter).head
    have hrest := ih (hms m' (List.mem_cons_self ..)) (fun m hm => hms m (List.mem_cons_of_mem _ hm))
      (show _ < fuel by omega) (layout.newline_space depth)
    simp only [parseMembers, skipSpace_append hbefore, quote, List.cons_append,
      skipSpace_cons (show isSpace 0x22 = false from rfl), if_true, List.append_assoc, List.nil_append,
      parseString_quote, skipSpace_cons (show isSpace 0x3A = false from rfl),
      parseValue_space layout.afterColon_space, hvalue]
    simp only [quote, List.cons_append, List.append_assoc, List.nil_append] at hrest
    simp only [encodeMembers, List.cons_append, skipSpace_cons (show isSpace 0x2C = false from rfl),
      List.append_assoc, if_true, quote, List.nil_append, hrest, Option.map_some]

/-- A value that is not an object or an array. -/
private theorem parseValue_scalar {fuel : Nat} (hfuel : 0 < fuel) {b : UInt8} (hspace : isSpace b = false)
    (hobject : b ≠ 0x7B) (harray : b ≠ 0x5B) (rest : List UInt8) :
    parseValue fuel (b :: rest) = parseScalar (b :: rest) := by
  obtain ⟨fuel, rfl⟩ := Nat.exists_eq_succ_of_ne_zero (Nat.ne_of_gt hfuel)
  simp only [parseValue, skipSpace_cons hspace, if_neg hobject, if_neg harray]

/-- The parser takes every value. -/
theorem parses_of_wellFormed (layout : Layout) {v : JsonValue} (hv : WellFormed v) : Parses layout v := by
  induction hv with
  | null =>
    intro depth fuel tail hfuel htail
    rw [encode, List.cons_append, parseValue_scalar (Nat.zero_lt_of_lt hfuel) (by decide) (by decide) (by decide)]
    rfl
  | bool b =>
    intro depth fuel tail hfuel htail
    cases b <;> rw [encode, List.cons_append,
      parseValue_scalar (Nat.zero_lt_of_lt hfuel) (by decide) (by decide) (by decide)] <;> rfl
  | number h =>
    rename_i literal
    intro depth fuel tail hfuel htail
    have hparse := parseNumber_isNumber h htail
    rw [encode_number] at hfuel ⊢
    match literal, h with
    | b :: bs, h =>
      rw [isNumber, List.all_cons, Bool.and_eq_true, Bool.and_eq_true] at h
      obtain ⟨hspace, hobject, -, harray, -, hquote, -, -, htrue, hfalse, hnull⟩ := numberByte h.1.1
      rw [List.cons_append] at hparse ⊢
      rw [parseValue_scalar (Nat.zero_lt_of_lt hfuel) hspace hobject harray]
      simp only [parseScalar, if_neg hquote, if_neg htrue, if_neg hfalse, if_neg hnull, hparse]
  | string s =>
    intro depth fuel tail hfuel htail
    rw [encode, quote, List.cons_append,
      parseValue_scalar (Nat.zero_lt_of_lt hfuel) (by decide) (by decide) (by decide)]
    simp only [List.append_assoc, List.cons_append, List.nil_append, parseScalar, if_true, parseString_quote,
      Option.map_some]
  | array h ih =>
    rename_i vs
    intro depth fuel tail hfuel htail
    obtain ⟨fuel, rfl⟩ := Nat.exists_eq_succ_of_ne_zero (Nat.ne_zero_of_lt hfuel)
    cases vs with
    | nil =>
      rw [encode, List.cons_append, parseValue, skipSpace_cons (by decide)]
      rfl
    | cons v vs =>
      obtain ⟨b, bs, hcons, hspace, hbracket⟩ :=
        exists_encode_eq_cons (h v (List.mem_cons_self ..)) layout (depth + 1)
      have hlen : (encode layout (depth + 1) v).length + (encodeElements layout (depth + 1) vs).length + 1 <
          (encode layout depth (.array (v :: vs))).length := by
        rw [encode]
        simp
        omega
      have helements := parseElements_encode (ih v (List.mem_cons_self ..))
        (fun v hv => ih v (List.mem_cons_of_mem _ hv))
        (depth + 1) (show _ < fuel by omega) (layout.newline_space (depth + 1)) (layout.newline_space depth) tail
      -- the array is not empty
      have hfirst : ∀ rest, skipSpace (layout.newline (depth + 1) ++ (encode layout (depth + 1) v ++ rest)) =
          b :: (bs ++ rest) := by
        intro rest
        rw [skipSpace_append (layout.newline_space _), hcons, List.cons_append, skipSpace_cons hspace]
      rw [encode, List.cons_append, parseValue, skipSpace_cons (by decide)]
      simp only [List.append_assoc, List.cons_append, List.nil_append, hfirst, if_neg hbracket, helements]
      rfl
  | object h ih =>
    rename_i ms
    intro depth fuel tail hfuel htail
    obtain ⟨fuel, rfl⟩ := Nat.exists_eq_succ_of_ne_zero (Nat.ne_zero_of_lt hfuel)
    cases ms with
    | nil =>
      rw [encode, List.cons_append, parseValue, skipSpace_cons (by decide)]
      rfl
    | cons m ms =>
      have hlen : (encode layout (depth + 1) m.2).length + (encodeMembers layout (depth + 1) ms).length + 1 <
          (encode layout depth (.object (m :: ms))).length := by
        rw [encode]
        simp
        omega
      have hmembers := parseMembers_encode (ih m (List.mem_cons_self ..))
        (fun m hm => ih m (List.mem_cons_of_mem _ hm))
        (depth + 1) (show _ < fuel by omega) (layout.newline_space (depth + 1)) (layout.newline_space depth) tail
      have hfirst : ∀ rest, skipSpace (layout.newline (depth + 1) ++ (quote m.1 ++ rest)) =
          0x22 :: (m.1.toList.flatMap quoteChar ++ 0x22 :: rest) := by
        intro rest
        rw [skipSpace_append (layout.newline_space _), quote, List.cons_append, skipSpace_cons (by decide),
          List.append_assoc]
        rfl
      rw [encode, List.cons_append, parseValue, skipSpace_cons (by decide)]
      simp only [List.append_assoc, List.cons_append, List.nil_append, hfirst, hmembers]
      rfl

end Parse

/-- White space behind the text does not matter. -/
theorem parse_encode_append (layout : Layout) {v : JsonValue} (hv : WellFormed v) (depth : Nat) {space : List UInt8}
    (hspace : ∀ b ∈ space, isSpace b = true) : parse (encode layout depth v ++ space) = some v := by
  have hhead : ∀ b ∈ space.head?, isNumberByte b = false := by
    intro b hb
    cases hnumber : isNumberByte b with
    | false => rfl
    | true =>
      have hnot := (numberByte hnumber).1
      rw [hspace b (List.mem_of_mem_head? hb)] at hnot
      cases hnot
  have hfuel : 2 * (encode layout depth v).length < 2 * (encode layout depth v ++ space).length + 2 := by
    rw [List.length_append]
    omega
  have hskip : skipSpace space = [] := List.dropWhile_eq_nil_iff.2 hspace
  rw [parse, parses_of_wellFormed layout hv depth _ space hfuel hhead]
  simp only [hskip, if_true]

theorem parse_encode (layout : Layout) {v : JsonValue} (hv : WellFormed v) (depth : Nat) :
    parse (encode layout depth v) = some v := by
  have h := parse_encode_append layout hv depth (List.forall_mem_nil _)
  rwa [List.append_nil] at h

/-- What is read from a text can be written again. -/
private theorem wellFormed_of_parseScalar {text rest : List UInt8} {v : JsonValue}
    (h : parseScalar text = some (v, rest)) : WellFormed v := by
  unfold parseScalar at h
  split at h
  · cases h
  split_ifs at h
  · obtain ⟨r, -, hr⟩ := Option.map_eq_some_iff.1 h
    cases hr
    exact .string _
  · obtain ⟨r, -, hr⟩ := Option.map_eq_some_iff.1 h
    cases hr
    exact .bool _
  · obtain ⟨r, -, hr⟩ := Option.map_eq_some_iff.1 h
    cases hr
    exact .bool _
  · obtain ⟨r, -, hr⟩ := Option.map_eq_some_iff.1 h
    cases hr
    exact .null
  · unfold parseNumber at h
    dsimp only at h
    split at h
    · rename_i hnumber
      cases h
      exact .number hnumber
    · cases h

/-- The three functions of the parser together, by induction on the fuel. -/
private theorem wellFormed_of_parse_fuel (fuel : Nat) :
    (∀ text v rest, parseValue fuel text = some (v, rest) → WellFormed v) ∧
    (∀ text vs rest, parseElements fuel text = some (vs, rest) → ∀ v ∈ vs, WellFormed v) ∧
    (∀ text ms rest, parseMembers fuel text = some (ms, rest) → ∀ m ∈ ms, WellFormed m.2) := by
  induction fuel with
  | zero => exact ⟨fun _ _ _ h => by simp [parseValue] at h, fun _ _ _ h => by simp [parseElements] at h,
      fun _ _ _ h => by simp [parseMembers] at h⟩
  | succ fuel ih =>
    obtain ⟨hvalue, helements, hmembers⟩ := ih
    refine ⟨?_, ?_, ?_⟩
    · intro text v rest h
      rw [parseValue] at h
      split at h
      · cases h
      split_ifs at h
      · split at h
        · cases h
        split_ifs at h
        · cases h
          exact .object (by simp)
        · obtain ⟨r, hr, hv⟩ := Option.map_eq_some_iff.1 h
          cases hv
          exact .object (hmembers _ _ _ hr)
      · split at h
        · cases h
        split_ifs at h
        · cases h
          exact .array (by simp)
        · obtain ⟨r, hr, hv⟩ := Option.map_eq_some_iff.1 h
          cases hv
          exact .array (helements _ _ _ hr)
      · exact wellFormed_of_parseScalar h
    · intro text vs rest h
      rw [parseElements] at h
      split at h
      · cases h
      rename_i v' rest' hv'
      split at h
      · cases h
      split_ifs at h
      · obtain ⟨r, hr, hvs⟩ := Option.map_eq_some_iff.1 h
        cases hvs
        exact List.forall_mem_cons.2 ⟨hvalue _ _ _ hv', helements _ _ _ hr⟩
      · cases h
        exact List.forall_mem_cons.2 ⟨hvalue _ _ _ hv', by simp⟩
    · intro text ms rest h
      rw [parseMembers] at h
      split at h
      · cases h
      split_ifs at h
      split at h
      · cases h
      split at h
      · cases h
      split_ifs at h
      split at h
      · cases h
      rename_i v' rest' hv'
      split at h
      · cases h
      split_ifs at h
      · obtain ⟨r, hr, hms⟩ := Option.map_eq_some_iff.1 h
        cases hms
        exact List.forall_mem_cons.2 ⟨hvalue _ _ _ hv', hmembers _ _ _ hr⟩
      · cases h
        exact List.forall_mem_cons.2 ⟨hvalue _ _ _ hv', by simp⟩

theorem wellFormed_of_parse {text : List UInt8} {v : JsonValue} (h : parse text = some v) : WellFormed v := by
  unfold parse at h
  split at h
  · cases h
  rename_i v' rest hv'
  split at h
  · cases h
    exact (wellFormed_of_parse_fuel _).1 _ _ _ hv'
  · cases h

/-! ### Integers -/

/-- An integer as a number. -/
def integer (i : Int) : JsonValue := .number (String.ofList (Decimal.print i))

private theorem isDigit_byte_of_lt : ∀ n : Fin 58, 48 ≤ n.val → isDigit (UInt8.ofNat n) = true := by decide

private theorem isDigit_byte {c : Char} (h : c.isDigit = true) : isDigit (UInt8.ofNat c.toNat) = true := by
  obtain ⟨hlow, hhigh⟩ := Decimal.toNat_of_isDigit h
  exact isDigit_byte_of_lt ⟨c.toNat, by omega⟩ hlow

private theorem run_digits {ds : List Char} (h : ∀ c ∈ ds, c.isDigit = true) :
    Scanner.run ⟨.digits, []⟩ (ds.map fun c => UInt8.ofNat c.toNat) = some ⟨.digits, []⟩ := by
  induction ds with
  | nil => rfl
  | cons c ds ih =>
    have hstep : Scanner.step ⟨.digits, []⟩ (UInt8.ofNat c.toNat) = some ⟨.digits, []⟩ := by
      simp only [Scanner.step, isDigit_byte (h c (List.mem_cons_self ..)), if_true]
    rw [List.map_cons, Scanner.run, hstep]
    exact ih fun c hc => h c (List.mem_cons_of_mem _ hc)

private theorem digit_step_of_lt : ∀ n : Fin 58, 49 ≤ n.val →
    Scanner.step ⟨.beginValue, []⟩ (UInt8.ofNat n) = some ⟨.digits, []⟩ ∧
      Scanner.step ⟨.neg, []⟩ (UInt8.ofNat n) = some ⟨.digits, []⟩ := by decide

/-- The digits of a number, at the start of a literal or after a sign. -/
private theorem run_toDigits (n : Nat) {st : State} (hst : st = .beginValue ∨ st = .neg) :
    ∃ s, Scanner.run ⟨st, []⟩ ((Nat.toDigits 10 n).map fun c => UInt8.ofNat c.toNat) = some s ∧ s.eof = true := by
  rcases Nat.eq_zero_or_pos n with rfl | hn
  · rcases hst with rfl | rfl <;> exact ⟨⟨.zero, []⟩, rfl, rfl⟩
  · obtain ⟨c, cs, hcs, hc⟩ := Decimal.exists_toDigits_eq_cons hn
    have hdigits := Decimal.isDigit_toDigits n
    rw [hcs] at hdigits ⊢
    obtain ⟨hlow, hhigh⟩ := Decimal.toNat_of_isDigit (hdigits c (List.mem_cons_self ..))
    have hne : c.toNat ≠ 48 := fun h => hc (Char.toNat_inj.1 h)
    obtain ⟨hbegin, hneg⟩ := digit_step_of_lt ⟨c.toNat, by omega⟩ (Nat.lt_of_le_of_ne hlow (Ne.symm hne))
    have hstep : Scanner.step ⟨st, []⟩ (UInt8.ofNat c.toNat) = some ⟨.digits, []⟩ := by
      rcases hst with rfl | rfl
      · exact hbegin
      · exact hneg
    refine ⟨⟨.digits, []⟩, ?_, rfl⟩
    rw [List.map_cons, Scanner.run, hstep]
    exact run_digits fun c hc => hdigits c (List.mem_cons_of_mem _ hc)

private theorem isNumber_print (i : Int) : isNumber ((Decimal.print i).map fun c => UInt8.ofNat c.toNat) = true := by
  have hbytes : ∀ n : Nat, ((Nat.toDigits 10 n).map fun c => UInt8.ofNat c.toNat).all isNumberByte = true := by
    intro n
    rw [List.all_map, List.all_eq_true]
    intro c hc
    simp [isNumberByte, isDigit_byte (Decimal.isDigit_toDigits n c hc)]
  rw [isNumber, valid, Bool.and_eq_true, Decimal.print]
  split
  · obtain ⟨s, hs, heof⟩ := run_toDigits i.natAbs (.inr rfl)
    rw [List.map_cons, List.all_cons, hbytes, Scanner.run,
      show Scanner.step ⟨.beginValue, []⟩ (UInt8.ofNat '-'.toNat) = some ⟨.neg, []⟩ from rfl]
    simp only [hs, heof]
    exact ⟨rfl, trivial⟩
  · obtain ⟨s, hs, heof⟩ := run_toDigits i.natAbs (.inl rfl)
    simp only [hs, heof]
    exact ⟨hbytes _, trivial⟩

theorem wellFormed_integer (i : Int) : WellFormed (integer i) := by
  have hchar : ∀ c ∈ Decimal.print i, Char.ofNat (UInt8.ofNat c.toNat).toNat = c := by
    intro c hc
    have hlt : c.toNat < 256 := by
      by_cases hminus : c = '-'
      · rw [hminus]
        decide
      · by_cases hdigit : c.isDigit = true
        · have := (Decimal.toNat_of_isDigit hdigit).2
          omega
        · exact absurd hc (Decimal.not_mem_print (by simpa using hdigit) hminus i)
    rw [UInt8.toNat_ofNat_of_lt' hlt, Char.ofNat_toNat]
  have hlist :
      ((Decimal.print i).map fun c => UInt8.ofNat c.toNat).map (fun b => Char.ofNat b.toNat) = Decimal.print i := by
    rw [List.map_map]
    exact (List.map_congr_left hchar).trans (List.map_id _)
  rw [integer, ← hlist]
  exact .number (isNumber_print i)

/-! ### One line -/

private theorem numberByte_not_control {b : UInt8} (h : isNumberByte b = true) : ¬ b < 0x20 := by
  have hall : ∀ n : Fin 32, isNumberByte (UInt8.ofNat n) = false := by decide
  intro hlt
  have hb := hall ⟨b.toNat, UInt8.lt_iff_toNat_lt.1 hlt⟩
  rw [UInt8.ofNat_toNat, h] at hb
  cases hb

/-- Without white space between its parts no byte of a text is a control character. -/
theorem not_control_of_mem_encode {v : JsonValue} (hv : WellFormed v) (depth : Nat) :
    ∀ b ∈ encode .compact depth v, ¬ b < 0x20 := by
  induction hv generalizing depth with
  | null => rw [encode]; decide +kernel
  | bool b => cases b <;> rw [encode] <;> decide +kernel
  | number h =>
    rw [encode_number]
    rw [isNumber, Bool.and_eq_true, List.all_eq_true] at h
    exact fun b hb => numberByte_not_control (h.1 b hb)
  | string s => rw [encode]; exact not_control_of_mem_quote s
  | array h ih =>
    rename_i vs
    have helements : ∀ vs' ⊆ vs, ∀ b ∈ encodeElements .compact (depth + 1) vs', ¬ b < 0x20 := by
      intro vs'
      induction vs' with
      | nil => intro _; rw [encodeElements]; simp
      | cons v vs' ihvs =>
        intro hsub b hb
        obtain ⟨hv, hsub⟩ := List.cons_subset.1 hsub
        rw [encodeElements, List.mem_cons, List.mem_append, List.mem_append] at hb
        rcases hb with rfl | hb | hb | hb
        · decide
        · cases hb
        · exact ih v hv _ b hb
        · exact ihvs hsub b hb
    cases vs with
    | nil => rw [encode]; decide +kernel
    | cons v vs =>
      intro b hb
      rw [encode, List.mem_cons, List.mem_append, List.mem_append, List.mem_append, List.mem_append,
        List.mem_singleton] at hb
      rcases hb with rfl | hb | hb | hb | hb | rfl
      · decide
      · cases hb
      · exact ih v (List.mem_cons_self ..) _ b hb
      · exact helements vs (List.subset_cons_self ..) b hb
      · cases hb
      · decide
  | object h ih =>
    rename_i ms
    have hmembers : ∀ ms' ⊆ ms, ∀ b ∈ encodeMembers .compact (depth + 1) ms', ¬ b < 0x20 := by
      intro ms'
      induction ms' with
      | nil => intro _; rw [encodeMembers]; simp
      | cons m ms' ihms =>
        intro hsub b hb
        obtain ⟨hm, hsub⟩ := List.cons_subset.1 hsub
        rw [encodeMembers, List.mem_cons, List.mem_append, List.mem_append, List.mem_cons, List.mem_append,
          List.mem_append] at hb
        rcases hb with rfl | hb | hb | rfl | hb | hb | hb
        · decide
        · cases hb
        · exact not_control_of_mem_quote _ b hb
        · decide
        · cases hb
        · exact ih m hm _ b hb
        · exact ihms hsub b hb
    cases ms with
    | nil => rw [encode]; decide +kernel
    | cons m ms =>
      intro b hb
      rw [encode, List.mem_cons, List.mem_append, List.mem_append, List.mem_cons, List.mem_append, List.mem_append,
        List.mem_append, List.mem_append, List.mem_singleton] at hb
      rcases hb with rfl | hb | hb | rfl | hb | hb | hb | hb | rfl
      · decide
      · cases hb
      · exact not_control_of_mem_quote _ b hb
      · decide
      · cases hb
      · exact ih m (List.mem_cons_self ..) _ b hb
      · exact hmembers ms (List.subset_cons_self ..) b hb
      · cases hb
      · decide

end JsonText
