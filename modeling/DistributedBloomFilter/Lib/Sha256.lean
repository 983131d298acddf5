import DistributedBloomFilter.Lib.BigEndian
import Mathlib.Tactic.Common

/-!
# SHA-256, its keyed form HMAC and hexadecimal texts

The checksum of a text and the signature of a message under a secret, as bytes and as text.  Nothing is proved about
the hash but its length: what a program that compares signatures guarantees does not depend on it.
-/

namespace Sha256

/-! ### The hash -/

private def rotr (x r : UInt32) : UInt32 := (x >>> r) ||| (x <<< (32 - r))

def roundConstants : List UInt32 :=
  [0x428a2f98, 0x71374491, 0xb5c0fbcf, 0xe9b5dba5, 0x3956c25b, 0x59f111f1, 0x923f82a4, 0xab1c5ed5,
   0xd807aa98, 0x12835b01, 0x243185be, 0x550c7dc3, 0x72be5d74, 0x80deb1fe, 0x9bdc06a7, 0xc19bf174,
   0xe49b69c1, 0xefbe4786, 0x0fc19dc6, 0x240ca1cc, 0x2de92c6f, 0x4a7484aa, 0x5cb0a9dc, 0x76f988da,
   0x983e5152, 0xa831c66d, 0xb00327c8, 0xbf597fc7, 0xc6e00bf3, 0xd5a79147, 0x06ca6351, 0x14292967,
   0x27b70a85, 0x2e1b2138, 0x4d2c6dfc, 0x53380d13, 0x650a7354, 0x766a0abb, 0x81c2c92e, 0x92722c85,
   0xa2bfe8a1, 0xa81a664b, 0xc24b8b70, 0xc76c51a3, 0xd192e819, 0xd6990624, 0xf40e3585, 0x106aa070,
   0x19a4c116, 0x1e376c08, 0x2748774c, 0x34b0bcb5, 0x391c0cb3, 0x4ed8aa4a, 0x5b9cca4f, 0x682e6ff3,
   0x748f82ee, 0x78a5636f, 0x84c87814, 0x8cc70208, 0x90befffa, 0xa4506ceb, 0xbef9a3f7, 0xc67178f2]

/-- The eight words that the rounds work on. -/
structure Working where
  (a b c d e f g h : UInt32)

def initial : Working :=
  ⟨0x6a09e667, 0xbb67ae85, 0x3c6ef372, 0xa54ff53a, 0x510e527f, 0x9b05688c, 0x1f83d9ab, 0x5be0cd19⟩

/-- One more word of the message schedule; the words so far come last first. -/
def scheduleWord (words : List UInt32) : List UInt32 :=
  let w2 := words.getD 1 0
  let w15 := words.getD 14 0
  let s0 := rotr w15 7 ^^^ rotr w15 18 ^^^ (w15 >>> 3)
  let s1 := rotr w2 17 ^^^ rotr w2 19 ^^^ (w2 >>> 10)
  (words.getD 15 0 + s0 + words.getD 6 0 + s1) :: words

def roundStep (w : Working) (kw : UInt32 × UInt32) : Working :=
  let s1 := rotr w.e 6 ^^^ rotr w.e 11 ^^^ rotr w.e 25
  let ch := (w.e &&& w.f) ^^^ (~~~w.e &&& w.g)
  let t1 := w.h + s1 + ch + kw.1 + kw.2
  let s0 := rotr w.a 2 ^^^ rotr w.a 13 ^^^ rotr w.a 22
  let maj := (w.a &&& w.b) ^^^ (w.a &&& w.c) ^^^ (w.b &&& w.c)
  ⟨t1 + s0 + maj, w.a, w.b, w.c, w.d + t1, w.e, w.f, w.g⟩

/-- The words of a text, four bytes each. -/
def wordsOf : List UInt8 → List UInt32
  | a :: b :: c :: d :: rest => BigEndian.uint32 [a, b, c, d] :: wordsOf rest
  | _ => []

def compress (w : Working) (block : List UInt32) : Working :=
  let schedule := ((List.range 48).foldl (fun ws _ => scheduleWord ws) block.reverse).reverse
  let r := (roundConstants.zip schedule).foldl roundStep w
  ⟨w.a + r.a, w.b + r.b, w.c + r.c, w.d + r.d, w.e + r.e, w.f + r.f, w.g + r.g, w.h + r.h⟩

/-- The text with a one bit, zeros and its length in bits, a multiple of 64 bytes. -/
def pad (text : List UInt8) : List UInt8 :=
  let zeros := (119 - text.length % 64) % 64
  text ++ 0x80 :: List.replicate zeros 0 ++ BigEndian.putUint32 (UInt32.ofNat (text.length * 8 / 2 ^ 32)) ++
    BigEndian.putUint32 (UInt32.ofNat (text.length * 8))

def compressBlocks (w : Working) (words : List UInt32) : Nat → Working
  | 0 => w
  | blocks + 1 => compressBlocks (compress w (words.take 16)) (words.drop 16) blocks

def sum256 (text : List UInt8) : List UInt8 :=
  let padded := pad text
  let w := compressBlocks initial (wordsOf padded) (padded.length / 64)
  [w.a, w.b, w.c, w.d, w.e, w.f, w.g, w.h].flatMap BigEndian.putUint32

@[simp] theorem length_sum256 (text : List UInt8) : (sum256 text).length = 32 := rfl

/-! ### The keyed hash -/

/-- A secret as a block of 64 bytes; a longer one is hashed first. -/
def keyBlock (secret : List UInt8) : List UInt8 :=
  let key := if secret.length > 64 then sum256 secret else secret
  key ++ List.replicate (64 - key.length) 0

def hmac (secret message : List UInt8) : List UInt8 :=
  let key := keyBlock secret
  sum256 (key.map (· ^^^ 0x5c) ++ sum256 (key.map (· ^^^ 0x36) ++ message))

/-- Two messages with one HMAC. -/
def Collides (secret m n : List UInt8) : Prop := m ≠ n ∧ hmac secret m = hmac secret n

example : hmac "Jefe".toUTF8.toList "what do ya want for nothing?".toUTF8.toList =
    [0x5b, 0xdc, 0xc1, 0x46, 0xbf, 0x60, 0x75, 0x4e, 0x6a, 0x04, 0x24, 0x26, 0x08, 0x95, 0x75, 0xc7,
     0x5a, 0x00, 0x3f, 0x08, 0x9d, 0x27, 0x39, 0x83, 0x9d, 0xec, 0x58, 0xb9, 0x64, 0xec, 0x38, 0x43] := by
  decide +kernel

/-! ### Hexadecimal -/

/-- The lower-case digit of four bits. -/
def hexDigit (n : Nat) : UInt8 := if n < 10 then UInt8.ofNat (48 + n) else UInt8.ofNat (87 + n)

/-- Two digits for every byte. -/
def hex (text : List UInt8) : List UInt8 := text.flatMap fun b => [hexDigit (b.toNat / 16), hexDigit (b.toNat % 16)]

theorem length_hex (text : List UInt8) : (hex text).length = 2 * text.length := by
  induction text with
  | nil => rfl
  | cons b text ih =>
    rw [hex, List.flatMap_cons, List.length_append, ← hex, ih, List.length_cons]
    simp
    omega

theorem le_of_mem_hex {c : UInt8} {text : List UInt8} (h : c ∈ hex text) : 48 ≤ c := by
  obtain ⟨b, -, hc⟩ := List.mem_flatMap.1 h
  have hdigit : ∀ n, n < 16 → 48 ≤ hexDigit n := by decide
  have hb := b.toNat_lt
  simp only [List.mem_cons, List.not_mem_nil, or_false] at hc
  rcases hc with rfl | rfl
  · exact hdigit _ (by omega)
  · exact hdigit _ (by omega)

end Sha256
