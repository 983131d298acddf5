import Mathlib.Algebra.Group.Nat.Defs
import Mathlib.Logic.Function.Iterate
import Mathlib.Tactic.Common

/-!
# Authenticated encryption, and AES in Galois/counter mode

`Aead` is what a program may rely on: a sealed text is sixteen bytes longer than its plaintext and opens to it under
the same key and nonce.  `AesGcm.aead` is AES-GCM without additional data, for a key of 16, 24 or 32 bytes and a
nonce of 12: the keystream is XORed into the text, and the tag authenticates the result.  Neither law needs anything
of the block cipher.
-/

structure Aead where
  /-- key, nonce, plaintext -/
  sealMsg : List UInt8 → List UInt8 → List UInt8 → List UInt8
  /-- key, nonce, sealed text -/
  openMsg : List UInt8 → List UInt8 → List UInt8 → Option (List UInt8)
  length_sealMsg : ∀ key nonce p, (sealMsg key nonce p).length = p.length + 16
  openMsg_sealMsg : ∀ key nonce p, openMsg key nonce (sealMsg key nonce p) = some p

namespace AesGcm

/-! ### The block cipher -/

/-- The substitution box, in rows of sixteen. -/
def sbox : List (List UInt8) :=
  [[0x63, 0x7c, 0x77, 0x7b, 0xf2, 0x6b, 0x6f, 0xc5, 0x30, 0x01, 0x67, 0x2b, 0xfe, 0xd7, 0xab, 0x76],
   [0xca, 0x82, 0xc9, 0x7d, 0xfa, 0x59, 0x47, 0xf0, 0xad, 0xd4, 0xa2, 0xaf, 0x9c, 0xa4, 0x72, 0xc0],
   [0xb7, 0xfd, 0x93, 0x26, 0x36, 0x3f, 0xf7, 0xcc, 0x34, 0xa5, 0xe5, 0xf1, 0x71, 0xd8, 0x31, 0x15],
   [0x04, 0xc7, 0x23, 0xc3, 0x18, 0x96, 0x05, 0x9a, 0x07, 0x12, 0x80, 0xe2, 0xeb, 0x27, 0xb2, 0x75],
   [0x09, 0x83, 0x2c, 0x1a, 0x1b, 0x6e, 0x5a, 0xa0, 0x52, 0x3b, 0xd6, 0xb3, 0x29, 0xe3, 0x2f, 0x84],
   [0x53, 0xd1, 0x00, 0xed, 0x20, 0xfc, 0xb1, 0x5b, 0x6a, 0xcb, 0xbe, 0x39, 0x4a, 0x4c, 0x58, 0xcf],
   [0xd0, 0xef, 0xaa, 0xfb, 0x43, 0x4d, 0x33, 0x85, 0x45, 0xf9, 0x02, 0x7f, 0x50, 0x3c, 0x9f, 0xa8],
   [0x51, 0xa3, 0x40, 0x8f, 0x92, 0x9d, 0x38, 0xf5, 0xbc, 0xb6, 0xda, 0x21, 0x10, 0xff, 0xf3, 0xd2],
   [0xcd, 0x0c, 0x13, 0xec, 0x5f, 0x97, 0x44, 0x17, 0xc4, 0xa7, 0x7e, 0x3d, 0x64, 0x5d, 0x19, 0x73],
   [0x60, 0x81, 0x4f, 0xdc, 0x22, 0x2a, 0x90, 0x88, 0x46, 0xee, 0xb8, 0x14, 0xde, 0x5e, 0x0b, 0xdb],
   [0xe0, 0x32, 0x3a, 0x0a, 0x49, 0x06, 0x24, 0x5c, 0xc2, 0xd3, 0xac, 0x62, 0x91, 0x95, 0xe4, 0x79],
   [0xe7, 0xc8, 0x37, 0x6d, 0x8d, 0xd5, 0x4e, 0xa9, 0x6c, 0x56, 0xf4, 0xea, 0x65, 0x7a, 0xae, 0x08],
   [0xba, 0x78, 0x25, 0x2e, 0x1c, 0xa6, 0xb4, 0xc6, 0xe8, 0xdd, 0x74, 0x1f, 0x4b, 0xbd, 0x8b, 0x8a],
   [0x70, 0x3e, 0xb5, 0x66, 0x48, 0x03, 0xf6, 0x0e, 0x61, 0x35, 0x57, 0xb9, 0x86, 0xc1, 0x1d, 0x9e],
   [0xe1, 0xf8, 0x98, 0x11, 0x69, 0xd9, 0x8e, 0x94, 0x9b, 0x1e, 0x87, 0xe9, 0xce, 0x55, 0x28, 0xdf],
   [0x8c, 0xa1, 0x89, 0x0d, 0xbf, 0xe6, 0x42, 0x68, 0x41, 0x99, 0x2d, 0x0f, 0xb0, 0x54, 0xbb, 0x16]]

def subByte (b : UInt8) : UInt8 := (sbox.getD (b.toNat / 16) []).getD (b.toNat % 16) 0

def xorBytes (a b : List UInt8) : List UInt8 := List.zipWith (· ^^^ ·) a b

/-- Multiplication by `x` in the field of 256 elements. -/
def xtime (b : UInt8) : UInt8 := (b <<< 1) ^^^ (if b ≥ 128 then 0x1b else 0)

/-- One more word of the key schedule; the words so far come last first. -/
def expandWord (nk : Nat) (words : List (List UInt8)) : List (List UInt8) :=
  let i := words.length
  let last := words.headD []
  let temp :=
    if i % nk = 0 then
      xorBytes ((last.drop 1 ++ last.take 1).map subByte) [xtime^[i / nk - 1] 1, 0, 0, 0]
    else if nk > 6 ∧ i % nk = 4 then last.map subByte
    else last
  xorBytes (words.getD (nk - 1) []) temp :: words

/-- Consecutive pieces of `n` bytes. -/
def pieces (n : Nat) (bytes : List UInt8) : List (List UInt8) :=
  (List.range ((bytes.length + n - 1) / n)).map fun i => (bytes.drop (n * i)).take n

/-- The round keys, one more than there are rounds. -/
def roundKeys (key : List UInt8) : List (List UInt8) :=
  let nk := key.length / 4
  pieces 16 ((expandWord nk)^[4 * (nk + 7) - nk] (pieces 4 key).reverse).reverse.flatten

def shiftRows (state : List UInt8) : List UInt8 :=
  [0, 5, 10, 15, 4, 9, 14, 3, 8, 13, 2, 7, 12, 1, 6, 11].map fun i => state.getD i 0

def mixColumns : List UInt8 → List UInt8
  | a :: b :: c :: d :: rest =>
    (xtime a ^^^ xtime b ^^^ b ^^^ c ^^^ d) :: (a ^^^ xtime b ^^^ xtime c ^^^ c ^^^ d) ::
      (a ^^^ b ^^^ xtime c ^^^ xtime d ^^^ d) :: (xtime a ^^^ a ^^^ b ^^^ c ^^^ xtime d) :: mixColumns rest
  | short => short

/-- The rounds after the first key; the last of them does not mix the columns. -/
def rounds : List (List UInt8) → List UInt8 → List UInt8
  | [], state => state
  | [last], state => xorBytes (shiftRows (state.map subByte)) last
  | key :: keys, state => rounds keys (xorBytes (mixColumns (shiftRows (state.map subByte))) key)

def encryptBlock (keys : List (List UInt8)) (block : List UInt8) : List UInt8 :=
  rounds keys.tail (xorBytes block (keys.headD []))

/-! ### The mode -/

def ofBytes (bytes : List UInt8) : Nat := bytes.foldl (fun n b => n * 256 + b.toNat) 0

/-- The big-endian bytes of a number. -/
def toBytes (len n : Nat) : List UInt8 := (List.range len).map fun i => UInt8.ofNat (n >>> (8 * (len - 1 - i)))

/-- The product in the field of 2¹²⁸ elements, bit by bit of `x` from the highest. -/
def mulLoop : Nat → Nat → Nat → Nat → Nat
  | 0, _, _, z => z
  | i + 1, x, v, z =>
    mulLoop i x ((v >>> 1) ^^^ (if v % 2 = 1 then 0xe1 <<< 120 else 0))
      (if (x >>> i) % 2 = 1 then z ^^^ v else z)

/-- The polynomial hash of a ciphertext and its length in bits. -/
def ghash (h : Nat) (c : List UInt8) : Nat :=
  let blocks := (pieces 16 c).map fun p => ofBytes p * 256 ^ (16 - p.length)
  (blocks ++ [8 * c.length]).foldl (fun y b => mulLoop 128 (y ^^^ b) h 0) 0

/-- The text XORed with the keystream from the second counter block on. -/
def ctr (key nonce text : List UInt8) : List UInt8 :=
  let keys := roundKeys key
  let stream := (List.range ((text.length + 15) / 16)).flatMap fun i =>
    encryptBlock keys (nonce ++ toBytes 4 (i + 2))
  text.mapIdx fun i b => b ^^^ stream.getD i 0

def tag (key nonce c : List UInt8) : List UInt8 :=
  let keys := roundKeys key
  let h := ofBytes (encryptBlock keys (List.replicate 16 0))
  toBytes 16 (ghash h c ^^^ ofBytes (encryptBlock keys (nonce ++ [0, 0, 0, 1])))

def sealMsg (key nonce p : List UInt8) : List UInt8 :=
  ctr key nonce p ++ tag key nonce (ctr key nonce p)

def openMsg (key nonce s : List UInt8) : Option (List UInt8) :=
  if s.length < 16 then none
  else if s.drop (s.length - 16) = tag key nonce (s.take (s.length - 16)) then
    some (ctr key nonce (s.take (s.length - 16)))
  else none

theorem length_tag (key nonce c : List UInt8) : (tag key nonce c).length = 16 := by
  simp [tag, toBytes]

theorem length_ctr (key nonce text : List UInt8) : (ctr key nonce text).length = text.length := by
  simp [ctr]

/-- The same keystream twice is the identity. -/
theorem ctr_ctr (key nonce text : List UInt8) : ctr key nonce (ctr key nonce text) = text := by
  refine List.ext_getElem (by simp [length_ctr]) fun i hi hi' => ?_
  unfold ctr
  simp only [List.getElem_mapIdx, List.length_mapIdx]
  rw [UInt8.xor_assoc, UInt8.xor_self, UInt8.xor_zero]

theorem length_sealMsg (key nonce p : List UInt8) : (sealMsg key nonce p).length = p.length + 16 := by
  simp [sealMsg, length_ctr, length_tag]

theorem openMsg_sealMsg (key nonce p : List UInt8) : openMsg key nonce (sealMsg key nonce p) = some p := by
  have hlen : (sealMsg key nonce p).length - 16 = (ctr key nonce p).length := by
    rw [length_sealMsg, length_ctr]; omega
  unfold openMsg
  rw [if_neg (by rw [length_sealMsg]; omega), hlen]
  simp only [sealMsg, List.take_left, List.drop_left, if_pos, ctr_ctr]

def aead : Aead := { sealMsg, openMsg, length_sealMsg, openMsg_sealMsg }

example : sealMsg (List.replicate 32 0) (List.replicate 12 0) (List.replicate 16 0) =
    [0xce, 0xa7, 0x40, 0x3d, 0x4d, 0x60, 0x6b, 0x6e, 0x07, 0x4e, 0xc5, 0xd3, 0xba, 0xf3, 0x9d, 0x18,
     0xd0, 0xd1, 0xc8, 0xa7, 0x99, 0x99, 0x6b, 0xf0, 0x26, 0x5b, 0x98, 0xb5, 0xd4, 0x8a, 0xb9, 0x19] := by
  decide +kernel

end AesGcm
