import Mathlib.Data.List.Basic
import Mathlib.Tactic.Common

/-!
# Base64

The standard alphabet with padding.  Three bytes are four digits of six bits; one or two bytes at the end are two or
three digits and the padding.  A decoder skips line breaks, ignores the bits of the last digit that belong to no byte,
and reports the position of the first character that does not fit.
-/

namespace Base64

/-- The digit for six bits. -/
def digit (n : Nat) : Char :=
  if n < 26 then Char.ofNat (0x41 + n)
  else if n < 52 then Char.ofNat (0x61 + (n - 26))
  else if n < 62 then Char.ofNat (0x30 + (n - 52))
  else if n = 62 then '+'
  else '/'

def digitValue (c : Char) : Option Nat :=
  if 'A' ≤ c ∧ c ≤ 'Z' then some (c.toNat - 0x41)
  else if 'a' ≤ c ∧ c ≤ 'z' then some (c.toNat - 0x61 + 26)
  else if '0' ≤ c ∧ c ≤ '9' then some (c.toNat - 0x30 + 52)
  else if c = '+' then some 62
  else if c = '/' then some 63
  else none

def encode : List UInt8 → List Char
  | [] => []
  | [a] => [digit (a.toNat / 4), digit (a.toNat % 4 * 16), '=', '=']
  | [a, b] => [digit (a.toNat / 4), digit (a.toNat % 4 * 16 + b.toNat / 16), digit (b.toNat % 16 * 4), '=']
  | a :: b :: c :: rest =>
    digit (a.toNat / 4) :: digit (a.toNat % 4 * 16 + b.toNat / 16) :: digit (b.toNat % 16 * 4 + c.toNat / 64) ::
      digit (c.toNat % 64) :: encode rest

/-- Characters with their positions; `total` is the length of the whole input, and the error is a position in it. -/
def decodeQuanta (total : Nat) : List (Char × Nat) → Except Nat (List UInt8)
  | [] => .ok []
  | (c₀, i₀) :: rest =>
    match digitValue c₀ with
    | none => .error i₀
    | some d₀ =>
      match rest with
      | [] => .error (total - 1)
      | (c₁, i₁) :: rest =>
        match digitValue c₁ with
        | none => .error i₁
        | some d₁ =>
          match rest with
          | [] => .error (total - 2)
          | (c₂, i₂) :: rest =>
            match digitValue c₂ with
            | none =>
              if c₂ = '=' then
                match rest with
                | [] => .error total
                | (c₃, i₃) :: rest =>
                  if c₃ = '=' then
                    match rest with
                    | [] => .ok [UInt8.ofNat (d₀ * 4 + d₁ / 16)]
                    | (_, i) :: _ => .error i
                  else .error (i₃ - 1)
              else .error i₂
            | some d₂ =>
              match rest with
              | [] => .error (total - 3)
              | (c₃, i₃) :: rest =>
                match digitValue c₃ with
                | none =>
                  if c₃ = '=' then
                    match rest with
                    | [] => .ok [UInt8.ofNat (d₀ * 4 + d₁ / 16), UInt8.ofNat (d₁ % 16 * 16 + d₂ / 4)]
                    | (_, i) :: _ => .error i
                  else .error i₃
                | some d₃ =>
                  match decodeQuanta total rest with
                  | .error i => .error i
                  | .ok bytes => .ok (UInt8.ofNat (d₀ * 4 + d₁ / 16) :: UInt8.ofNat (d₁ % 16 * 16 + d₂ / 4) ::
                      UInt8.ofNat (d₂ % 4 * 64 + d₃) :: bytes)

def isLineBreak (c : Char) : Bool := c = '\n' || c = '\r'

/-- The bytes of a text, or the position of the character that does not fit. -/
def decode (text : List Char) : Except Nat (List UInt8) :=
  decodeQuanta text.length (text.zipIdx.filter fun c => !isLineBreak c.1)

example : encode [0x66, 0x6F, 0x6F, 0x62] = "Zm9vYg==".toList := by decide +kernel

example : decode "Zm\n9vYg=\r=".toList = .ok [0x66, 0x6F, 0x6F, 0x62] := by decide +kernel

example : decode "Zm9v!g==".toList = .error 4 := by decide +kernel

/-! ### What is encoded can be decoded -/

private theorem digitValue_digit_of_lt : ∀ n : Fin 64, digitValue (digit n) = some n.val := by decide

private theorem isLineBreak_digit_of_lt : ∀ n : Fin 64, isLineBreak (digit n) = false := by decide

theorem digitValue_digit {n : Nat} (h : n < 64) : digitValue (digit n) = some n := digitValue_digit_of_lt ⟨n, h⟩

theorem isLineBreak_digit {n : Nat} (h : n < 64) : isLineBreak (digit n) = false := isLineBreak_digit_of_lt ⟨n, h⟩

private theorem digitValue_padding : digitValue '=' = none := by decide

/-- The three bytes from their four digits. -/
private theorem bytes_of_digits (a b c : UInt8) :
    UInt8.ofNat (a.toNat / 4 * 4 + (a.toNat % 4 * 16 + b.toNat / 16) / 16) = a ∧
      UInt8.ofNat ((a.toNat % 4 * 16 + b.toNat / 16) % 16 * 16 + (b.toNat % 16 * 4 + c.toNat / 64) / 4) = b ∧
      UInt8.ofNat ((b.toNat % 16 * 4 + c.toNat / 64) % 4 * 64 + c.toNat % 64) = c := by
  have ha := a.toNat_lt
  have hb := b.toNat_lt
  have hc := c.toNat_lt
  refine ⟨?_, ?_, ?_⟩
  · rw [show a.toNat / 4 * 4 + (a.toNat % 4 * 16 + b.toNat / 16) / 16 = a.toNat by omega, UInt8.ofNat_toNat]
  · rw [show (a.toNat % 4 * 16 + b.toNat / 16) % 16 * 16 + (b.toNat % 16 * 4 + c.toNat / 64) / 4 = b.toNat by omega,
      UInt8.ofNat_toNat]
  · rw [show (b.toNat % 16 * 4 + c.toNat / 64) % 4 * 64 + c.toNat % 64 = c.toNat by omega, UInt8.ofNat_toNat]

/-- The digits are read back whatever their positions are. -/
private theorem decodeQuanta_encode (total : Nat) (bytes : List UInt8) (i : Nat) :
    decodeQuanta total ((encode bytes).zipIdx i) = .ok bytes := by
  induction bytes using encode.induct generalizing i with
  | case1 => rfl
  | case2 a =>
    have ha := a.toNat_lt
    have hfirst : UInt8.ofNat (a.toNat / 4 * 4 + a.toNat % 4 * 16 / 16) = a := (bytes_of_digits a 0 0).1
    simp only [encode, List.zipIdx_cons, decodeQuanta, digitValue_digit (show a.toNat / 4 < 64 by omega),
      digitValue_digit (show a.toNat % 4 * 16 < 64 by omega), digitValue_padding, if_true, List.zipIdx_nil, hfirst]
  | case3 a b =>
    have ha := a.toNat_lt
    have hb := b.toNat_lt
    obtain ⟨hfirst, hsecond, -⟩ := bytes_of_digits a b 0
    have hsecond : UInt8.ofNat ((a.toNat % 4 * 16 + b.toNat / 16) % 16 * 16 + b.toNat % 16 * 4 / 4) = b := hsecond
    simp only [encode, List.zipIdx_cons, decodeQuanta, digitValue_digit (show a.toNat / 4 < 64 by omega),
      digitValue_digit (show a.toNat % 4 * 16 + b.toNat / 16 < 64 by omega),
      digitValue_digit (show b.toNat % 16 * 4 < 64 by omega), digitValue_padding, if_true, List.zipIdx_nil, hfirst,
      hsecond]
  | case4 a b c rest ih =>
    have ha := a.toNat_lt
    have hb := b.toNat_lt
    have hc := c.toNat_lt
    obtain ⟨hfirst, hsecond, hthird⟩ := bytes_of_digits a b c
    simp only [encode, List.zipIdx_cons, decodeQuanta, digitValue_digit (show a.toNat / 4 < 64 by omega),
      digitValue_digit (show a.toNat % 4 * 16 + b.toNat / 16 < 64 by omega),
      digitValue_digit (show b.toNat % 16 * 4 + c.toNat / 64 < 64 by omega),
      digitValue_digit (show c.toNat % 64 < 64 by omega), ih, hfirst, hsecond, hthird]

private theorem isLineBreak_of_mem_encode (bytes : List UInt8) : ∀ c ∈ encode bytes, isLineBreak c = false := by
  induction bytes using encode.induct with
  | case1 => simp [encode]
  | case2 a =>
    have ha := a.toNat_lt
    simp only [encode, List.forall_mem_cons]
    exact ⟨isLineBreak_digit (by omega), isLineBreak_digit (by omega), by decide, by decide, by simp⟩
  | case3 a b =>
    have ha := a.toNat_lt
    have hb := b.toNat_lt
    simp only [encode, List.forall_mem_cons]
    exact ⟨isLineBreak_digit (by omega), isLineBreak_digit (by omega), isLineBreak_digit (by omega),
      by decide, by simp⟩
  | case4 a b c rest ih =>
    have ha := a.toNat_lt
    have hb := b.toNat_lt
    have hc := c.toNat_lt
    simp only [encode, List.forall_mem_cons]
    exact ⟨isLineBreak_digit (by omega), isLineBreak_digit (by omega), isLineBreak_digit (by omega),
      isLineBreak_digit (by omega), ih⟩

theorem decode_encode (bytes : List UInt8) : decode (encode bytes) = .ok bytes := by
  have hfilter : ((encode bytes).zipIdx.filter fun c => !isLineBreak c.1) = (encode bytes).zipIdx := by
    rw [List.filter_eq_self]
    intro c hc
    rw [isLineBreak_of_mem_encode bytes c.1 (List.fst_mem_of_mem_zipIdx hc)]
    rfl
  rw [decode, hfilter, decodeQuanta_encode]

theorem encode_injective : Function.Injective encode := by
  intro xs ys h
  have hdecode := decode_encode xs
  rw [h, decode_encode] at hdecode
  exact (Except.ok.inj hdecode).symm

example : encode "light w".toUTF8.toList = "bGlnaHQgdw==".toList := by decide +kernel

end Base64
