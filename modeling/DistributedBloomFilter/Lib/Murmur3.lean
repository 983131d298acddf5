import Mathlib.Tactic.Common

/-!
# MurmurHash3, 32 bits, seed 0

The hash of a byte string, four bytes at a time in little-endian order.  Nothing is proved about it: every result
about a program that uses the hash is stated for an arbitrary 32-bit function, and this one is the function at
which such a result is evaluated.
-/

namespace Murmur3

private def rotl (x r : UInt32) : UInt32 := (x <<< r) ||| (x >>> (32 - r))

private def mixBlock (k : UInt32) : UInt32 := rotl (k * 0xcc9e2d51) 15 * 0x1b873593

private def word (a b c d : UInt8) : UInt32 :=
  a.toUInt32 ||| (b.toUInt32 <<< 8) ||| (c.toUInt32 <<< 16) ||| (d.toUInt32 <<< 24)

private def body (h : UInt32) : List UInt8 → UInt32
  | a :: b :: c :: d :: rest => body (rotl (h ^^^ mixBlock (word a b c d)) 13 * 5 + 0xe6546b64) rest
  | [a, b, c] => h ^^^ mixBlock (word a b c 0)
  | [a, b] => h ^^^ mixBlock (word a b 0 0)
  | [a] => h ^^^ mixBlock (word a 0 0 0)
  | [] => h

private def finalMix (h : UInt32) : UInt32 :=
  let h := (h ^^^ (h >>> 16)) * 0x85ebca6b
  let h := (h ^^^ (h >>> 13)) * 0xc2b2ae35
  h ^^^ (h >>> 16)

def sum32 (data : List UInt8) : UInt32 := finalMix (body 0 data ^^^ UInt32.ofNat data.length)

example : sum32 "hello".toUTF8.toList = 0x248bfa47 := by decide +kernel

end Murmur3
