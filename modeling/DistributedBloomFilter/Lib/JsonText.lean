import DistributedBloomFilter.Lib.Json

/-!
# JSON texts

Which byte strings are JSON texts, by the state machine a decoder checks its input with before it reads any value: a
state for every place in the grammar and a stack of the objects and arrays that are open.  A text begins with white
space or with the first byte of a value, so a string that begins with another byte is not one
(`tab_le_of_valid`).
-/

namespace JsonText

/-- What is open: an object before the colon, an object after it, or an array. -/
inductive Context where
  | objectKey
  | objectValue
  | arrayValue
deriving DecidableEq, Repr

/-- What the next byte may be. -/
inductive State where
  | beginValue
  | beginValueOrEmpty
  | beginString
  | beginStringOrEmpty
  | endValue
  | endTop
  | inString
  | inStringEsc
  | inStringEscU (hexDigits : Nat)
  | neg
  | zero
  | digits
  | dot
  | fraction
  | exp
  | expSign
  | expDigits
  | literal (rest : List UInt8)
deriving DecidableEq, Repr

structure Scanner where
  state : State
  stack : List Context
deriving DecidableEq, Repr

def isSpace (c : UInt8) : Bool := c = 0x20 || c = 0x09 || c = 0x0D || c = 0x0A

def isDigit (c : UInt8) : Bool := 0x30 ≤ c && c ≤ 0x39

def isHexDigit (c : UInt8) : Bool := isDigit c || (0x61 ≤ c && c ≤ 0x66) || (0x41 ≤ c && c ≤ 0x46)

namespace Scanner

/-- The innermost object or array is closed. -/
def pop : List Context → Scanner
  | [] => ⟨.endTop, []⟩
  | [_] => ⟨.endTop, []⟩
  | _ :: c :: stack => ⟨.endValue, c :: stack⟩

/-- After a value: white space, or what the innermost object or array goes on with. -/
def endValue (stack : List Context) (c : UInt8) : Option Scanner :=
  match stack with
  | [] => if isSpace c then some ⟨.endTop, []⟩ else none
  | top :: rest =>
    if isSpace c then some ⟨.endValue, stack⟩
    else match top with
      | .objectKey => if c = 0x3A then some ⟨.beginValue, .objectValue :: rest⟩ else none
      | .objectValue =>
        if c = 0x2C then some ⟨.beginString, .objectKey :: rest⟩
        else if c = 0x7D then some (pop stack)
        else none
      | .arrayValue =>
        if c = 0x2C then some ⟨.beginValue, stack⟩
        else if c = 0x5D then some (pop stack)
        else none

def beginValue (stack : List Context) (c : UInt8) : Option Scanner :=
  if isSpace c then some ⟨.beginValue, stack⟩
  else if c = 0x7B then some ⟨.beginStringOrEmpty, .objectKey :: stack⟩
  else if c = 0x5B then some ⟨.beginValueOrEmpty, .arrayValue :: stack⟩
  else if c = 0x22 then some ⟨.inString, stack⟩
  else if c = 0x2D then some ⟨.neg, stack⟩
  else if c = 0x30 then some ⟨.zero, stack⟩
  else if isDigit c then some ⟨.digits, stack⟩
  -- `true`, `false` and `null`
  else if c = 0x74 then some ⟨.literal [0x72, 0x75, 0x65], stack⟩
  else if c = 0x66 then some ⟨.literal [0x61, 0x6C, 0x73, 0x65], stack⟩
  else if c = 0x6E then some ⟨.literal [0x75, 0x6C, 0x6C], stack⟩
  else none

def beginString (stack : List Context) (c : UInt8) : Option Scanner :=
  if isSpace c then some ⟨.beginString, stack⟩
  else if c = 0x22 then some ⟨.inString, stack⟩
  else none

/-- After the digits of a number: a fraction where there is none yet, an exponent, or the end of the value. -/
def afterDigits (mayHaveFraction : Bool) (stack : List Context) (c : UInt8) : Option Scanner :=
  if mayHaveFraction && c = 0x2E then some ⟨.dot, stack⟩
  else if c = 0x65 || c = 0x45 then some ⟨.exp, stack⟩
  else endValue stack c

/-- One byte of the text; `none` is a syntax error. -/
def step (s : Scanner) (c : UInt8) : Option Scanner :=
  match s.state with
  | .beginValue => beginValue s.stack c
  | .beginValueOrEmpty =>
    if isSpace c then some s
    else if c = 0x5D then endValue s.stack c
    else beginValue s.stack c
  | .beginString => beginString s.stack c
  | .beginStringOrEmpty =>
    if isSpace c then some s
    else if c = 0x7D then endValue (.objectValue :: s.stack.tail) c
    else beginString s.stack c
  | .endValue => endValue s.stack c
  | .endTop => if isSpace c then some s else none
  | .inString =>
    if c = 0x22 then some ⟨.endValue, s.stack⟩
    else if c = 0x5C then some ⟨.inStringEsc, s.stack⟩
    else if c < 0x20 then none
    else some s
  | .inStringEsc =>
    if c ∈ [0x62, 0x66, 0x6E, 0x72, 0x74, 0x5C, 0x2F, 0x22] then some ⟨.inString, s.stack⟩
    else if c = 0x75 then some ⟨.inStringEscU 3, s.stack⟩
    else none
  | .inStringEscU n =>
    if isHexDigit c then some ⟨if n = 0 then .inString else .inStringEscU (n - 1), s.stack⟩ else none
  | .neg =>
    if c = 0x30 then some ⟨.zero, s.stack⟩ else if isDigit c then some ⟨.digits, s.stack⟩ else none
  | .zero => afterDigits true s.stack c
  | .digits => if isDigit c then some s else afterDigits true s.stack c
  | .dot => if isDigit c then some ⟨.fraction, s.stack⟩ else none
  | .fraction => if isDigit c then some s else afterDigits false s.stack c
  | .exp =>
    if c = 0x2B || c = 0x2D then some ⟨.expSign, s.stack⟩
    else if isDigit c then some ⟨.expDigits, s.stack⟩
    else none
  | .expSign => if isDigit c then some ⟨.expDigits, s.stack⟩ else none
  | .expDigits => if isDigit c then some s else endValue s.stack c
  | .literal [] => endValue s.stack c
  | .literal (d :: rest) =>
    if c = d then some ⟨if rest = [] then .endValue else .literal rest, s.stack⟩ else none

def run : Scanner → List UInt8 → Option Scanner
  | s, [] => some s
  | s, c :: text =>
    match s.step c with
    | none => none
    | some s' => run s' text

/-- At the end of the text a value must be complete and nothing open; a number may end here. -/
def eof (s : Scanner) : Bool :=
  match s.step 0x20 with
  | some s' => s'.state = .endTop
  | none => false

end Scanner

/-- The byte string is a JSON text. -/
def valid (text : List UInt8) : Bool :=
  match Scanner.run ⟨.beginValue, []⟩ text with
  | some s => s.eof
  | none => false

example : valid "\x7b\"a\": [1, -0.5e+3, \"\\u00e9\"], \"b\": null\x7d\n".toUTF8.toList = true := by decide +kernel

example : valid "\x7b\"a\": 1,\x7d".toUTF8.toList = false := by decide +kernel

/-- No text begins with a byte below the tab. -/
theorem tab_le_of_valid {c : UInt8} {text : List UInt8} (h : valid (c :: text) = true) : 0x09 ≤ c := by
  rcases UInt8.lt_or_le c 0x09 with hc | hc
  · have hstep : ∀ d : Fin 9, Scanner.beginValue [] (UInt8.ofNat d) = none := by decide
    have hnone : Scanner.beginValue [] c = none := by
      have hd := hstep ⟨c.toNat, UInt8.lt_iff_toNat_lt.1 hc⟩
      rwa [UInt8.ofNat_toNat] at hd
    rw [valid, Scanner.run, show Scanner.step ⟨.beginValue, []⟩ c = none from hnone] at h
    cases h
  · exact hc

end JsonText

/-- A decoder that accepts JSON texts only. -/
def Json.AcceptsOnlyTexts {α : Type} (j : Json α) : Prop :=
  ∀ text a, j.unmarshal text = .ok a → JsonText.valid text = true

theorem Json.acceptsOnlyTexts_ofTable {α : Type} [DecidableEq α] {table : List (α × List UInt8)}
    (h : ∀ e ∈ table, JsonText.valid e.2 = true) : (ofTable table).AcceptsOnlyTexts := by
  intro text a ha
  simp only [ofTable] at ha
  split at ha
  · rename_i e he
    have htext : e.2 = text := by simpa using List.find?_some he
    exact htext ▸ h e (List.mem_of_find?_eq_some he)
  · cases ha
