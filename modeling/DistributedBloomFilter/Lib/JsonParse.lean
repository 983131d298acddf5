import DistributedBloomFilter.Lib.JsonDecode
import DistributedBloomFilter.Lib.JsonText
import DistributedBloomFilter.Lib.Utf8

/-!
# The value of a JSON text

A string ends at the first quotation mark that is not escaped; an escape of a lone surrogate and a byte that begins no
character stand for the replacement character.  A number is kept as its literal.  Fuel bounds the depth of the
recursion; every two calls read a byte, so that twice the length of the text is enough.
-/

namespace JsonText

/-! ### Strings -/

def hexValue (c : UInt8) : Option Nat :=
  if isDigit c then some (c.toNat - 0x30)
  else if 0x61 ≤ c ∧ c ≤ 0x66 then some (c.toNat - 0x61 + 10)
  else if 0x41 ≤ c ∧ c ≤ 0x46 then some (c.toNat - 0x41 + 10)
  else none

/-- The number in an escape with four hexadecimal digits. -/
def getu4 : List UInt8 → Option Nat
  | s :: u :: a :: b :: c :: d :: _ =>
    if s = 0x5C ∧ u = 0x75 then
      match hexValue a, hexValue b, hexValue c, hexValue d with
      | some a, some b, some c, some d => some (a * 0x1000 + b * 0x100 + c * 0x10 + d)
      | _, _, _, _ => none
    else none
  | _ => none

/-- The character of such an escape, and how many bytes it takes; two surrogates are one character. -/
def unquoteHex (text : List UInt8) : Option (Char × Nat) :=
  match getu4 text with
  | none => none
  | some r =>
    if 0xD800 ≤ r ∧ r < 0xE000 then
      match getu4 (text.drop 6) with
      | some r₂ =>
        if r < 0xDC00 ∧ 0xDC00 ≤ r₂ ∧ r₂ < 0xE000 then
          some (Char.ofNat (0x10000 + (r - 0xD800) * 0x400 + (r₂ - 0xDC00)), 12)
        else some (Utf8.replacement, 6)
      | none => some (Utf8.replacement, 6)
    else some (Char.ofNat r, 6)

def unescape (e : UInt8) : Option Char :=
  if e = 0x22 then some '"'
  else if e = 0x5C then some '\\'
  else if e = 0x2F then some '/'
  else if e = 0x27 then some (Char.ofNat 0x27)
  else if e = 0x62 then some (Char.ofNat 0x08)
  else if e = 0x66 then some (Char.ofNat 0x0C)
  else if e = 0x6E then some '\n'
  else if e = 0x72 then some '\r'
  else if e = 0x74 then some '\t'
  else none

/-- The first character of what is between quotation marks, and how many bytes it takes. -/
def unquoteChar : List UInt8 → Option (Char × Nat)
  | [] => none
  | b :: rest =>
    if b = 0x5C then
      match rest with
      | [] => none
      | e :: _ => if e = 0x75 then unquoteHex (b :: rest) else (unescape e).map fun c => (c, 2)
    else if b = 0x22 ∨ b < 0x20 then none
    else some (Utf8.decodeRune (b :: rest))

/-- The characters of what is between quotation marks; the first bytes belong to a character read before. -/
def unquoteFrom : Nat → List UInt8 → Option (List Char)
  | _, [] => some []
  | n + 1, _ :: rest => unquoteFrom n rest
  | 0, b :: rest =>
    match unquoteChar (b :: rest) with
    | none => none
    | some (c, size) => (unquoteFrom (size - 1) rest).map fun cs => c :: cs

/-- What comes before the first quotation mark that is not escaped, and what comes after it. -/
def stringBody : List UInt8 → Option (List UInt8 × List UInt8)
  | [] => none
  | b :: rest =>
    if b = 0x22 then some ([], rest)
    else if b = 0x5C then
      match rest with
      | [] => none
      | e :: rest => (stringBody rest).map fun r => (b :: e :: r.1, r.2)
    else (stringBody rest).map fun r => (b :: r.1, r.2)

/-- A string, from behind its opening quotation mark. -/
def parseString (text : List UInt8) : Option (String × List UInt8) :=
  match stringBody text with
  | none => none
  | some (body, rest) => (unquoteFrom 0 body).map fun cs => (String.ofList cs, rest)

example : parseString "a\\n\\u00e9\\ud83d\\ude00\\\"\", 1".toUTF8.toList = some ("a\né😀\"", ", 1".toUTF8.toList) := by
  decide +kernel

/-! ### Values -/

def isNumberByte (c : UInt8) : Bool :=
  isDigit c || c = 0x2B || c = 0x2D || c = 0x2E || c = 0x45 || c = 0x65

/-- The literal of a number. -/
def isNumber (literal : List UInt8) : Bool := literal.all isNumberByte && valid literal

def skipSpace (text : List UInt8) : List UInt8 := text.dropWhile isSpace

/-- What follows a given word. -/
def dropWord (word text : List UInt8) : Option (List UInt8) :=
  if text.take word.length = word then some (text.drop word.length) else none

def parseNumber (text : List UInt8) : Option (JsonValue × List UInt8) :=
  let literal := text.takeWhile isNumberByte
  if isNumber literal then
    some (.number (String.ofList (literal.map fun b => Char.ofNat b.toNat)), text.dropWhile isNumberByte)
  else none

/-- A value that is not an object or an array. -/
def parseScalar (text : List UInt8) : Option (JsonValue × List UInt8) :=
  match text with
  | [] => none
  | c :: rest =>
    if c = 0x22 then (parseString rest).map fun r => (.string r.1, r.2)
    else if c = 0x74 then (dropWord [0x72, 0x75, 0x65] rest).map fun r => (.bool true, r)
    else if c = 0x66 then (dropWord [0x61, 0x6C, 0x73, 0x65] rest).map fun r => (.bool false, r)
    else if c = 0x6E then (dropWord [0x75, 0x6C, 0x6C] rest).map fun r => (.null, r)
    else parseNumber text

mutual

/-- The value at the start of a text, and what follows it. -/
def parseValue : Nat → List UInt8 → Option (JsonValue × List UInt8)
  | 0, _ => none
  | fuel + 1, text =>
    match skipSpace text with
    | [] => none
    | c :: rest =>
      if c = 0x7B then
        match skipSpace rest with
        | [] => none
        | d :: rest' =>
          if d = 0x7D then some (.object [], rest')
          else (parseMembers fuel rest).map fun r => (.object r.1, r.2)
      else if c = 0x5B then
        match skipSpace rest with
        | [] => none
        | d :: rest' =>
          if d = 0x5D then some (.array [], rest')
          else (parseElements fuel rest).map fun r => (.array r.1, r.2)
      else parseScalar (c :: rest)

/-- The elements of an array that has some, and what follows its closing bracket. -/
def parseElements : Nat → List UInt8 → Option (List JsonValue × List UInt8)
  | 0, _ => none
  | fuel + 1, text =>
    match parseValue fuel text with
    | none => none
    | some (v, rest) =>
      match skipSpace rest with
      | [] => none
      | c :: rest =>
        if c = 0x2C then (parseElements fuel rest).map fun r => (v :: r.1, r.2)
        else if c = 0x5D then some ([v], rest)
        else none

/-- The members of an object that has some, and what follows its closing brace. -/
def parseMembers : Nat → List UInt8 → Option (List (String × JsonValue) × List UInt8)
  | 0, _ => none
  | fuel + 1, text =>
    match skipSpace text with
    | [] => none
    | q :: rest =>
      if q = 0x22 then
        match parseString rest with
        | none => none
        | some (key, rest) =>
          match skipSpace rest with
          | [] => none
          | c :: rest =>
            if c = 0x3A then
              match parseValue fuel rest with
              | none => none
              | some (v, rest) =>
                match skipSpace rest with
                | [] => none
                | d :: rest =>
                  if d = 0x2C then (parseMembers fuel rest).map fun r => ((key, v) :: r.1, r.2)
                  else if d = 0x7D then some ([(key, v)], rest)
                  else none
            else none
      else none

end

/-- The value of a text with nothing but white space after it. -/
def parse (text : List UInt8) : Option JsonValue :=
  match parseValue (2 * text.length + 2) text with
  | none => none
  | some (v, rest) => if skipSpace rest = [] then some v else none

end JsonText
