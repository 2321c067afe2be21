import O2Chat.Common.Json

/-!
# rapidjson's reader

`GenericReader::Parse` with the default flags, as `Document::Parse` calls it. A stream is what
is left of the text; its end is the terminating NUL, so `Peek` and `Take` of an empty one give
no byte. The values are built as the handler of `Document` builds them.

The functions that call each other take fuel, and `parse_fuel` says that `parse` gives them
enough. Doubles have no value here; that a double gets too big is the parameter `tooBig`, of
the integer it started with and the digits that have followed. Lengths stay below 2^32.
-/
namespace O2Chat.Common

namespace GenericReader

def skipWhitespace : Bytes → Bytes
  | [] => []
  | b :: s => if b = 32 ∨ b = 10 ∨ b = 13 ∨ b = 9 then skipWhitespace s else b :: s

/-- `ParseNull`, `ParseTrue` and `ParseFalse`, after the first letter. -/
def parseLiteral (letters : String) (value : Json) (s : Bytes) : Option (Json × Bytes) :=
  if s.take (bytes letters).length = bytes letters then
    some (value, s.drop (bytes letters).length)
  else none

/-! ## Strings -/

def parseHex4 : Bytes → Option (Nat × Bytes)
  | a :: b :: c :: d :: s => do
    let a ← digitValue 16 a
    let b ← digitValue 16 b
    let c ← digitValue 16 c
    let d ← digitValue 16 d
    return (((a * 16 + b) * 16 + c) * 16 + d, s)
  | _ => none

/-- `UTF8::Encode`. -/
def encode (codepoint : Nat) : Bytes :=
  if codepoint ≤ 0x7F then [UInt8.ofNat codepoint]
  else if codepoint ≤ 0x7FF then
    [UInt8.ofNat (0xC0 ||| codepoint >>> 6), UInt8.ofNat (0x80 ||| codepoint &&& 0x3F)]
  else if codepoint ≤ 0xFFFF then
    [UInt8.ofNat (0xE0 ||| codepoint >>> 12), UInt8.ofNat (0x80 ||| codepoint >>> 6 &&& 0x3F),
      UInt8.ofNat (0x80 ||| codepoint &&& 0x3F)]
  else
    [UInt8.ofNat (0xF0 ||| codepoint >>> 18), UInt8.ofNat (0x80 ||| codepoint >>> 12 &&& 0x3F),
      UInt8.ofNat (0x80 ||| codepoint >>> 6 &&& 0x3F), UInt8.ofNat (0x80 ||| codepoint &&& 0x3F)]

/-- What follows a `\u`; two surrogates make one code point. -/
def parseUnicode (s : Bytes) : Option (Bytes × Bytes) :=
  match parseHex4 s with
  | none => none
  | some (codepoint, s) =>
    if 0xD800 ≤ codepoint ∧ codepoint ≤ 0xDBFF then
      match s with
      | 92 :: 117 :: s =>
        match parseHex4 s with
        | none => none
        | some (codepoint2, s) =>
          if codepoint2 < 0xDC00 ∨ 0xDFFF < codepoint2 then none
          else some (encode (((codepoint - 0xD800) <<< 10 ||| (codepoint2 - 0xDC00)) + 0x10000), s)
      | _ => none
    else some (encode codepoint, s)

/-- The table `escape` of `ParseStringToStream`. -/
def escape (e : UInt8) : Option UInt8 :=
  if e = 34 then some 34
  else if e = 47 then some 47
  else if e = 92 then some 92
  else if e = 98 then some 8
  else if e = 102 then some 12
  else if e = 110 then some 10
  else if e = 114 then some 13
  else if e = 116 then some 9
  else none

/-- What follows a backslash. -/
def parseEscape : Bytes → Option (Bytes × Bytes)
  | [] => none
  | e :: s =>
    match escape e with
    | some c => some ([c], s)
    | none => if e = 117 then parseUnicode s else none

/-- The loop of `ParseStringToStream`; `out` are the bytes put so far. -/
def parseStringLoop : Nat → Bytes → Bytes → Option (Bytes × Bytes)
  | 0, _, _ => none
  | fuel + 1, out, s =>
    match s with
    | [] => none
    | 92 :: s =>
      match parseEscape s with
      | none => none
      | some (decoded, s) => parseStringLoop fuel (out ++ decoded) s
    | 34 :: s => some (out, s)
    | c :: s => if c < 32 then none else parseStringLoop fuel (out ++ [c]) s

/-- `ParseString`, after the opening quote. -/
def parseString (s : Bytes) : Option (Bytes × Bytes) := parseStringLoop s.length [] s

/-! ## Numbers -/

/-- The digits after the first one, as long as the number stays within `max`: the number, how
many there were, whether one did not fit, and the rest. -/
def integerLoop (max : Nat) : Nat → Nat → Bytes → Nat × Nat × Bool × Bytes
  | i, significandDigit, [] => (i, significandDigit, false, [])
  | i, significandDigit, b :: s =>
    match digitValue 10 b with
    | none => (i, significandDigit, false, b :: s)
    | some d =>
      if max < i * 10 + d then (i, significandDigit, true, b :: s)
      else integerLoop max (i * 10 + d) (significandDigit + 1) s

/-- The digits that are accumulated in a double. -/
def bigLoop (tooBig : Bytes → Bool) : Bytes → Bytes → Option Bytes
  | _, [] => some []
  | taken, b :: s =>
    if isDigit 10 b = true then
      if tooBig taken = true then none else bigLoop tooBig (taken ++ [b]) s
    else some (b :: s)

/-- The decimals that still go into `i64`: it, `-expFrac`, the significant digits, the rest. -/
def fractionLoop : Nat → Nat → Nat → Bytes → Nat × Nat × Nat × Bytes
  | i64, places, significandDigit, [] => (i64, places, significandDigit, [])
  | i64, places, significandDigit, b :: s =>
    match digitValue 10 b with
    | none => (i64, places, significandDigit, b :: s)
    | some d =>
      if 0x1FFFFFFFFFFFFF < i64 then (i64, places, significandDigit, b :: s)
      else
        let i64 := i64 * 10 + d
        fractionLoop i64 (places + 1) (if i64 ≠ 0 then significandDigit + 1 else significandDigit) s

/-- The decimals that go into a double, up to seventeen significant ones; `positive` is
`d > 0.0`. -/
def decimalLoop : Bool → Nat → Nat → Bytes → Nat × Bytes
  | _, places, _, [] => (places, [])
  | positive, places, significandDigit, b :: s =>
    match digitValue 10 b with
    | none => (places, b :: s)
    | some d =>
      if significandDigit < 17 then
        let positive := positive || d ≠ 0
        decimalLoop positive (places + 1)
          (if positive = true then significandDigit + 1 else significandDigit) s
      else decimalLoop positive places significandDigit s

/-- The digits of an exponent that may not exceed `maxExp`. -/
def exponentLoop (maxExp : Nat) : Nat → Bytes → Option Bytes
  | _, [] => some []
  | exp, b :: s =>
    match digitValue 10 b with
    | none => some (b :: s)
    | some d => if maxExp < exp * 10 + d then none else exponentLoop maxExp (exp * 10 + d) s

def parseExponentSign : Bytes → Bool × Bytes
  | 43 :: s => (false, s)
  | 45 :: s => (true, s)
  | s => (false, s)

/-- From an `e` on; any negative exponent will do. -/
def parseExponent (places : Nat) (s : Bytes) : Option Bytes :=
  match parseExponentSign s with
  | (_, []) => none
  | (negative, b :: s) =>
    match digitValue 10 b with
    | none => none
    | some exp =>
      if negative = true then some (s.dropWhile (isDigit 10)) else exponentLoop (308 + places) exp s

/-- The decimals after the point: `-expFrac` and the rest. -/
def parseFraction (i64 significandDigit : Nat) (useDouble : Bool) (s : Bytes) :
    Option (Nat × Bytes) :=
  match s with
  | [] => none
  | b :: _ =>
    if isDigit 10 b = false then none
    else if useDouble = true then some (decimalLoop true 0 significandDigit s)
    else
      let (i64, places, significandDigit, s) := fractionLoop i64 0 significandDigit s
      some (decimalLoop (i64 ≠ 0) places significandDigit s)

/-- The fraction, if there is one: whether the number is a double, `-expFrac` and the rest. -/
def parsePoint (i64 significandDigit : Nat) (useDouble : Bool) :
    Bytes → Option (Bool × Nat × Bytes)
  | 46 :: s => (parseFraction i64 significandDigit useDouble s).map fun r => (true, r)
  | s => some (useDouble, 0, s)

/-- From the end of the integer part on. -/
def parseNumberEnd (minus : Bool) (i64 significandDigit : Nat) (useDouble : Bool) (s : Bytes) :
    Option (Json × Bytes) :=
  match parsePoint i64 significandDigit useDouble s with
  | none => none
  | some (useDouble, places, s) =>
    match s with
    | 69 :: s | 101 :: s => (parseExponent places s).map fun s => (.double, s)
    | s =>
      if useDouble = true then some (.double, s)
      else some (.int (if minus = true then -(i64 : Int) else i64), s)

def parseMinus : Bytes → Bool × Bytes
  | 45 :: s => (true, s)
  | s => (false, s)

/-- The greatest integer that is kept as one, by the sign. -/
def maxInteger (minus : Bool) : Nat := if minus = true then 2 ^ 63 else 2 ^ 64 - 1

def parseNumber (tooBig : Nat → Bytes → Bool) (s : Bytes) : Option (Json × Bytes) :=
  match parseMinus s with
  | (_, []) => none
  | (minus, 48 :: s) => parseNumberEnd minus 0 0 false s
  | (minus, b :: s) =>
    match digitValue 10 b with
    | none => none
    | some d =>
      let (i64, significandDigit, useDouble, s) := integerLoop (maxInteger minus) d 0 s
      if useDouble = true then
        match bigLoop (tooBig i64) [] s with
        | none => none
        | some s => parseNumberEnd minus i64 significandDigit true s
      else parseNumberEnd minus i64 significandDigit false s

/-! ## Values -/

mutual

def parseValue (tooBig : Nat → Bytes → Bool) : Nat → Bytes → Option (Json × Bytes)
  | 0, _ => none
  | fuel + 1, s =>
    match s with
    | 110 :: s => parseLiteral "ull" .null s
    | 116 :: s => parseLiteral "rue" (.bool true) s
    | 102 :: s => parseLiteral "alse" (.bool false) s
    | 34 :: s => (parseString s).map fun r => (.string r.1, r.2)
    | 123 :: s =>
      -- `ParseObject`
      match skipWhitespace s with
      | 125 :: s => some (.object [], s)
      | s => (parseMembers tooBig fuel s).map fun r => (.object r.1, r.2)
    | 91 :: s =>
      -- `ParseArray`
      match skipWhitespace s with
      | 93 :: s => some (.array [], s)
      | s => (parseElements tooBig fuel s).map fun r => (.array r.1, r.2)
    | s => parseNumber tooBig s

/-- The loop of `ParseObject`. -/
def parseMembers (tooBig : Nat → Bytes → Bool) : Nat → Bytes → Option (List (Bytes × Json) × Bytes)
  | 0, _ => none
  | fuel + 1, s =>
    match s with
    | 34 :: s =>
      match parseString s with
      | none => none
      | some (name, s) =>
        match skipWhitespace s with
        | 58 :: s =>
          match parseValue tooBig fuel (skipWhitespace s) with
          | none => none
          | some (value, s) =>
            match skipWhitespace s with
            | 44 :: s =>
              (parseMembers tooBig fuel (skipWhitespace s)).map fun r => ((name, value) :: r.1, r.2)
            | 125 :: s => some ([(name, value)], s)
            | _ => none
        | _ => none
    | _ => none

/-- The loop of `ParseArray`. -/
def parseElements (tooBig : Nat → Bytes → Bool) : Nat → Bytes → Option (List Json × Bytes)
  | 0, _ => none
  | fuel + 1, s =>
    match parseValue tooBig fuel s with
    | none => none
    | some (value, s) =>
      match skipWhitespace s with
      | 44 :: s =>
        (parseElements tooBig fuel (skipWhitespace s)).map fun r => (value :: r.1, r.2)
      | 93 :: s => some ([value], s)
      | _ => none

end

/-- `Document::Parse`: the root value, unless there was a parse error. -/
def parse (tooBig : Nat → Bytes → Bool) (json : Bytes) : Option Json :=
  match skipWhitespace (cstr json) with
  | [] => none
  | s =>
    match parseValue tooBig (2 * s.length + 1) s with
    | none => none
    | some (value, s) => if skipWhitespace s = [] then some value else none

end GenericReader

end O2Chat.Common
