import DistributedBloomFilter.Lib.JsonParse

/-!
# Strings in JSON texts

A string is written so that it can stand in HTML: the control characters, the quotation mark, the backslash, the angle
brackets, the ampersand and the two line separators are escaped, and every other character is written as it is.  What
was written is read back (`parseString_quote`), and the scanner passes over it (`run_quote`).
-/

namespace JsonText

/-- A hexadecimal digit. -/
def hexDigit (n : Nat) : UInt8 := UInt8.ofNat (if n < 10 then 0x30 + n else 0x61 + (n - 10))

/-- The bytes of a character inside a string. -/
def quoteChar (c : Char) : List UInt8 :=
  if c = '"' ∨ c = '\\' then [0x5C, UInt8.ofNat c.toNat]
  else if c = Char.ofNat 0x08 then [0x5C, 0x62]
  else if c = Char.ofNat 0x0C then [0x5C, 0x66]
  else if c = '\n' then [0x5C, 0x6E]
  else if c = '\r' then [0x5C, 0x72]
  else if c = '\t' then [0x5C, 0x74]
  else if c.toNat < 0x20 ∨ c = '<' ∨ c = '>' ∨ c = '&' ∨ c.toNat = 0x2028 ∨ c.toNat = 0x2029 then
    [0x5C, 0x75, hexDigit (c.toNat / 0x1000), hexDigit (c.toNat / 0x100 % 0x10), hexDigit (c.toNat / 0x10 % 0x10),
      hexDigit (c.toNat % 0x10)]
  else String.utf8EncodeChar c

def quote (s : String) : List UInt8 := 0x22 :: (s.toList.flatMap quoteChar ++ [0x22])

private theorem hexValue_hexDigit_of_lt : ∀ n : Fin 16, hexValue (hexDigit n) = some n.val := by decide

private theorem isHexDigit_hexDigit_of_lt : ∀ n : Fin 16, isHexDigit (hexDigit n) = true := by decide

private theorem hexValue_hexDigit {n : Nat} (h : n < 16) : hexValue (hexDigit n) = some n :=
  hexValue_hexDigit_of_lt ⟨n, h⟩

private theorem isHexDigit_hexDigit {n : Nat} (h : n < 16) : isHexDigit (hexDigit n) = true :=
  isHexDigit_hexDigit_of_lt ⟨n, h⟩

private theorem hexDigit_plain_of_lt : ∀ n : Fin 16, hexDigit n ≠ 0x22 ∧ hexDigit n ≠ 0x5C := by decide

private theorem hexDigit_plain {n : Nat} (h : n < 16) : hexDigit n ≠ 0x22 ∧ hexDigit n ≠ 0x5C :=
  hexDigit_plain_of_lt ⟨n, h⟩

private theorem hexDigit_not_control_of_lt : ∀ n : Fin 16, ¬ hexDigit n < 0x20 := by decide

private theorem hexDigit_not_control {n : Nat} (h : n < 16) : ¬ hexDigit n < 0x20 := hexDigit_not_control_of_lt ⟨n, h⟩

/-- The three ways to write a character. -/
inductive Quoted (c : Char) : List UInt8 → Prop
  | escape (e : UInt8) (hmem : e ∈ [0x62, 0x66, 0x6E, 0x72, 0x74, 0x5C, 0x22]) (hchar : unescape e = some c) :
      Quoted c [0x5C, e]
  | hex (hlt : c.toNat < 0xD800) :
      Quoted c [0x5C, 0x75, hexDigit (c.toNat / 0x1000), hexDigit (c.toNat / 0x100 % 0x10),
        hexDigit (c.toNat / 0x10 % 0x10), hexDigit (c.toNat % 0x10)]
  | plain (hge : 0x20 ≤ c.toNat) (hquote : c ≠ '"') (hslash : c ≠ '\\') : Quoted c (String.utf8EncodeChar c)

theorem quoted_quoteChar (c : Char) : Quoted c (quoteChar c) := by
  unfold quoteChar
  split
  · rename_i h
    rcases h with rfl | rfl
    · exact .escape _ (by decide) (by decide)
    · exact .escape _ (by decide) (by decide)
  rename_i hne
  split
  · rename_i h
    exact h ▸ .escape _ (by decide) (by decide)
  split
  · rename_i h
    exact h ▸ .escape _ (by decide) (by decide)
  split
  · rename_i h
    exact h ▸ .escape _ (by decide) (by decide)
  split
  · rename_i h
    exact h ▸ .escape _ (by decide) (by decide)
  split
  · rename_i h
    exact h ▸ .escape _ (by decide) (by decide)
  split
  · rename_i h
    refine .hex ?_
    rcases h with h | rfl | rfl | rfl | h | h
    · omega
    · decide
    · decide
    · decide
    · omega
    · omega
  · rename_i h
    exact .plain (by omega) (fun hc => hne (.inl hc)) (fun hc => hne (.inr hc))

/-- No byte of a character that is written as it is ends a string or begins an escape. -/
private theorem plain_byte {c : Char} (hge : 0x20 ≤ c.toNat) (hquote : c ≠ '"') (hslash : c ≠ '\\') :
    ∀ b ∈ String.utf8EncodeChar c, b ≠ 0x22 ∧ b ≠ 0x5C ∧ ¬ b < 0x20 := by
  intro b hb
  by_cases hascii : c.toNat < 0x80
  · rw [Utf8.encodeChar_of_lt hascii, List.mem_singleton] at hb
    have hval : b.toNat = c.toNat := by
      rw [hb]
      exact UInt8.toNat_ofNat_of_lt' (by rw [UInt8.size]; omega)
    have hchar : ∀ d : Char, b = UInt8.ofNat d.toNat → d.toNat < 0x80 → c = d := by
      intro d hd hlt
      refine Char.toNat_inj.1 ?_
      rw [← hval, hd]
      exact UInt8.toNat_ofNat_of_lt' (by rw [UInt8.size]; omega)
    refine ⟨fun h => hquote (hchar _ h (by decide)), fun h => hslash (hchar _ h (by decide)), ?_⟩
    rw [UInt8.lt_iff_toNat_lt, hval]
    exact Nat.not_lt.2 hge
  · have hle := Utf8.le_of_mem_encodeChar (Nat.not_lt.1 hascii) b hb
    rw [UInt8.le_iff_toNat_le] at hle
    have hle : 0x80 ≤ b.toNat := hle
    refine ⟨?_, ?_, ?_⟩
    · rintro rfl
      exact absurd hle (by decide)
    · rintro rfl
      exact absurd hle (by decide)
    · rw [UInt8.lt_iff_toNat_lt]
      exact Nat.not_lt.2 (Nat.le_trans (by decide) hle)

private theorem stringBody_escape (e : UInt8) (rest : List UInt8) :
    stringBody (0x5C :: e :: rest) = (stringBody rest).map fun r => (0x5C :: e :: r.1, r.2) := by
  rw [stringBody, if_neg (by decide), if_pos rfl]

private theorem stringBody_plain {bytes : List UInt8} (h : ∀ b ∈ bytes, b ≠ 0x22 ∧ b ≠ 0x5C) (rest : List UInt8) :
    stringBody (bytes ++ rest) = (stringBody rest).map fun r => (bytes ++ r.1, r.2) := by
  induction bytes with
  | nil => simp
  | cons b bytes ih =>
    obtain ⟨hquote, hslash⟩ := h b (List.mem_cons_self ..)
    rw [List.cons_append, stringBody.eq_def]
    simp only [if_neg hquote, if_neg hslash, ih fun b hb => h b (List.mem_cons_of_mem _ hb)]
    cases stringBody rest <;> rfl

namespace Quoted

variable {c : Char} {bytes : List UInt8}

theorem ne_nil (h : Quoted c bytes) : bytes ≠ [] := by
  cases h with
  | escape e hmem hchar => simp
  | hex hlt => simp
  | plain hge hquote hslash => exact String.utf8EncodeChar_ne_nil

theorem unquoteChar (h : Quoted c bytes) (rest : List UInt8) :
    unquoteChar (bytes ++ rest) = some (c, bytes.length) := by
  cases h with
  | escape e hmem hchar =>
    have hne : e ≠ 0x75 := by
      rintro rfl
      exact absurd hmem (by decide)
    simp [JsonText.unquoteChar, hne, hchar]
  | hex hlt =>
    have hnat : c.toNat / 0x1000 * 0x1000 + c.toNat / 0x100 % 0x10 * 0x100 + c.toNat / 0x10 % 0x10 * 0x10 +
        c.toNat % 0x10 = c.toNat := by omega
    have hu4 : getu4 ([0x5C, 0x75, hexDigit (c.toNat / 0x1000), hexDigit (c.toNat / 0x100 % 0x10),
        hexDigit (c.toNat / 0x10 % 0x10), hexDigit (c.toNat % 0x10)] ++ rest) = some c.toNat := by
      simp only [List.cons_append, getu4, hexValue_hexDigit (show c.toNat / 0x1000 < 16 by omega),
        hexValue_hexDigit (show c.toNat / 0x100 % 0x10 < 16 by omega),
        hexValue_hexDigit (show c.toNat / 0x10 % 0x10 < 16 by omega),
        hexValue_hexDigit (show c.toNat % 0x10 < 16 by omega), hnat, and_self, if_true]
    simp only [List.cons_append] at hu4
    simp only [List.cons_append, JsonText.unquoteChar, if_true, unquoteHex, hu4]
    rw [if_neg (by omega), Char.ofNat_toNat]
    rfl
  | plain hge hquote hslash =>
    have hbytes := plain_byte hge hquote hslash
    have hne := String.utf8EncodeChar_ne_nil (c := c)
    have hrune := Utf8.decodeRune_encodeChar c rest
    rw [← String.length_utf8EncodeChar] at hrune
    match hcons : String.utf8EncodeChar c with
    | [] => exact absurd hcons hne
    | b :: bs =>
      obtain ⟨hquote, hslash, hlow⟩ := hbytes b (by rw [hcons]; exact List.mem_cons_self ..)
      rw [hcons] at hrune
      simp only [List.cons_append] at hrune
      simp only [List.cons_append, JsonText.unquoteChar, if_neg hslash, hquote, hlow, or_self, if_false, hrune]

theorem stringBody (h : Quoted c bytes) (rest : List UInt8) :
    stringBody (bytes ++ rest) = (stringBody rest).map fun r => (bytes ++ r.1, r.2) := by
  cases h with
  | escape e hmem hchar => simp [stringBody_escape]
  | hex hlt =>
    rw [List.cons_append, List.cons_append, stringBody_escape, stringBody_plain]
    · cases JsonText.stringBody rest <;> rfl
    · simp only [List.forall_mem_cons]
      exact ⟨hexDigit_plain (by omega), hexDigit_plain (by omega), hexDigit_plain (by omega),
        hexDigit_plain (by omega), by simp⟩
  | plain hge hquote hslash =>
    exact stringBody_plain
      (fun b hb => ⟨(plain_byte hge hquote hslash b hb).1, (plain_byte hge hquote hslash b hb).2.1⟩) rest

theorem run (h : Quoted c bytes) (stack : List Context) (rest : List UInt8) :
    Scanner.run ⟨.inString, stack⟩ (bytes ++ rest) = Scanner.run ⟨.inString, stack⟩ rest := by
  cases h with
  | escape e hmem hchar =>
    have hstep : Scanner.step ⟨.inStringEsc, stack⟩ e = some ⟨.inString, stack⟩ := by
      have hmem : e ∈ [0x62, 0x66, 0x6E, 0x72, 0x74, 0x5C, 0x2F, 0x22] := by
        simp only [List.mem_cons, List.not_mem_nil] at hmem ⊢
        tauto
      simp only [Scanner.step, if_pos hmem]
    show Scanner.run ⟨.inStringEsc, stack⟩ (e :: rest) = _
    rw [Scanner.run, hstep]
  | hex hlt =>
    show Scanner.run ⟨.inStringEscU 3, stack⟩ (hexDigit (c.toNat / 0x1000) :: hexDigit (c.toNat / 0x100 % 0x10) ::
      hexDigit (c.toNat / 0x10 % 0x10) :: hexDigit (c.toNat % 0x10) :: rest) = _
    simp only [Scanner.run, Scanner.step, isHexDigit_hexDigit (show c.toNat / 0x1000 < 16 by omega),
      isHexDigit_hexDigit (show c.toNat / 0x100 % 0x10 < 16 by omega),
      isHexDigit_hexDigit (show c.toNat / 0x10 % 0x10 < 16 by omega),
      isHexDigit_hexDigit (show c.toNat % 0x10 < 16 by omega), if_true]
    rfl
  | plain hge hquote hslash =>
    have hbytes := plain_byte hge hquote hslash
    generalize String.utf8EncodeChar c = bytes at hbytes
    induction bytes with
    | nil => rfl
    | cons b bytes ih =>
      obtain ⟨hquote, hslash, hlow⟩ := hbytes b (List.mem_cons_self ..)
      have hstep : Scanner.step ⟨.inString, stack⟩ b = some ⟨.inString, stack⟩ := by
        simp only [Scanner.step, if_neg hquote, if_neg hslash, if_neg hlow]
      rw [List.cons_append, Scanner.run, hstep]
      exact ih fun b hb => hbytes b (List.mem_cons_of_mem _ hb)

/-- No byte of a string is a control character. -/
theorem not_control (h : Quoted c bytes) : ∀ b ∈ bytes, ¬ b < 0x20 := by
  cases h with
  | escape e hmem hchar =>
    have hesc : ∀ d ∈ [0x62, 0x66, 0x6E, 0x72, 0x74, 0x5C, 0x22], ¬ (d : UInt8) < 0x20 := by decide +kernel
    simp only [List.forall_mem_cons]
    exact ⟨by decide, hesc e hmem, by simp⟩
  | hex hlt =>
    simp only [List.forall_mem_cons]
    exact ⟨by decide, by decide, hexDigit_not_control (by omega), hexDigit_not_control (by omega),
      hexDigit_not_control (by omega), hexDigit_not_control (by omega), by simp⟩
  | plain hge hquote hslash => exact fun b hb => (plain_byte hge hquote hslash b hb).2.2

end Quoted

theorem not_control_of_mem_quote (s : String) : ∀ b ∈ quote s, ¬ b < 0x20 := by
  intro b hb
  rw [quote, List.mem_cons, List.mem_append, List.mem_flatMap, List.mem_singleton] at hb
  rcases hb with rfl | ⟨c, -, hb⟩ | rfl
  · decide
  · exact (quoted_quoteChar c).not_control b hb
  · decide

/-- The bytes that belong to a character are skipped. -/
private theorem unquoteFrom_skip (xs rest : List UInt8) :
    unquoteFrom xs.length (xs ++ rest) = unquoteFrom 0 rest := by
  induction xs with
  | nil => rfl
  | cons x xs ih => exact ih

private theorem unquoteFrom_quoted {c : Char} {bytes : List UInt8} (h : Quoted c bytes) (rest : List UInt8) :
    unquoteFrom 0 (bytes ++ rest) = (unquoteFrom 0 rest).map fun cs => c :: cs := by
  have hchar := h.unquoteChar rest
  match bytes, hchar, h.ne_nil with
  | b :: bs, hchar, _ =>
    rw [List.cons_append] at hchar ⊢
    rw [unquoteFrom, hchar]
    exact congrArg (Option.map _) (unquoteFrom_skip bs rest)

theorem unquoteFrom_flatMap_quoteChar (cs : List Char) : unquoteFrom 0 (cs.flatMap quoteChar) = some cs := by
  induction cs with
  | nil => rfl
  | cons c cs ih => rw [List.flatMap_cons, unquoteFrom_quoted (quoted_quoteChar c), ih]; rfl

theorem stringBody_flatMap_quoteChar (cs : List Char) (rest : List UInt8) :
    stringBody (cs.flatMap quoteChar ++ 0x22 :: rest) = some (cs.flatMap quoteChar, rest) := by
  induction cs with
  | nil =>
    rw [List.flatMap_nil, List.nil_append, stringBody.eq_def]
    rfl
  | cons c cs ih =>
    rw [List.flatMap_cons, List.append_assoc, (quoted_quoteChar c).stringBody, ih]
    rfl

/-- A string is read back from its text. -/
theorem parseString_quote (s : String) (rest : List UInt8) :
    parseString (s.toList.flatMap quoteChar ++ 0x22 :: rest) = some (s, rest) := by
  rw [parseString, stringBody_flatMap_quoteChar]
  simp only [unquoteFrom_flatMap_quoteChar, Option.map_some, String.ofList_toList]

theorem run_quote (s : String) (stack : List Context) (rest : List UInt8) :
    Scanner.run ⟨.inString, stack⟩ (s.toList.flatMap quoteChar ++ 0x22 :: rest) =
      Scanner.run ⟨.endValue, stack⟩ rest := by
  induction s.toList with
  | nil => rfl
  | cons c cs ih => rw [List.flatMap_cons, List.append_assoc, (quoted_quoteChar c).run, ih]

end JsonText
