import Mathlib.Algebra.Group.Int.Defs
import Mathlib.Algebra.Group.Nat.Defs
import Mathlib.Tactic.Common

/-!
# Bytes, times and failures

What the models of all packages share.
-/

namespace DistributedBloomFilter

abbrev Bytes := List UInt8

/-- The bytes of a Go string. -/
def utf8 (s : String) : Bytes := s.toUTF8.toList

/-- A given number of bytes, as a read of `rand.Reader` fills a buffer. -/
abbrev BytesN (n : Nat) := { b : Bytes // b.length = n }

/-- An instant of `time.Time`, in nanoseconds since 1970. -/
abbrev Time := Int

/-- The zero value of `time.Time`: the first instant of the year 1. -/
def zeroTime : Time := -62135596800000000000

/-- How a call can fail: with an error it returns, or with a panic of the runtime. -/
inductive Failure where
  | error (msg : String)
  | panic (msg : String)
deriving DecidableEq, Repr

end DistributedBloomFilter
