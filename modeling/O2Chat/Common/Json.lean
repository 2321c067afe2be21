import O2Chat.Common.Utils

/-!
# JSON values and the rapidjson calls made on them

Parsing is done by rapidjson and is a parameter of the development. This module
has the values it yields, the accessors with the preconditions they assert
(`none` is a failed `RAPIDJSON_ASSERT`, which aborts the process) and the text
`rapidjson::Writer` emits.
-/
namespace O2Chat.Common

/-- A parsed value. `int` is a number kept as an integer of at most 64 bits,
`double` any other number. -/
inductive Json where
  | null
  | bool (b : Bool)
  | int (n : Int)
  | double
  | string (s : Bytes)
  | array (elements : List Json)
  | object (members : List (Bytes × Json))

namespace Json

/-- `FindMember`, which asserts `IsObject()`: the value of the first such member. -/
def findMember (v : Json) (name : Bytes) : Option (Option Json) :=
  match v with
  | .object members => some ((members.find? (·.1 = name)).map (·.2))
  | _ => none

/-- The C string behind `GetString()`, read into a `std::string`. -/
def getString : Json → Option Bytes
  | .string s => some (cstr s)
  | _ => none

/-- `GetUint()` of a number that fits 32 bits. -/
def getUint : Json → Option Nat
  | .int n => if 0 ≤ n ∧ n < 2 ^ 32 then some n.toNat else none
  | _ => none

/-- `GetUint64()`, which asserts that the number is one. -/
def getUint64 : Json → Option Nat
  | .int n => if 0 ≤ n ∧ n < 2 ^ 64 then some n.toNat else none
  | _ => none

def isObject : Json → Bool
  | .object _ => true
  | _ => false

end Json

/-! ## `rapidjson::Writer` -/

namespace Writer

def hexDigit (n : Nat) : UInt8 := if n < 10 then UInt8.ofNat (48 + n) else UInt8.ofNat (55 + n)

/-- One byte of a string: the escape table of `WriteString`. -/
def escape (b : UInt8) : Bytes :=
  if b = 34 then [92, 34]
  else if b = 92 then [92, 92]
  else if b = 8 then [92, 98]
  else if b = 9 then [92, 116]
  else if b = 10 then [92, 110]
  else if b = 12 then [92, 102]
  else if b = 13 then [92, 114]
  else if b < 32 then [92, 117, 48, 48, hexDigit (b.toNat / 16), hexDigit (b.toNat % 16)]
  else [b]

/-- `writer.String(s.c_str())`. -/
def string (s : Bytes) : Bytes := 34 :: (cstr s).flatMap escape ++ [34]

/-- `writer.Uint64(n)`. -/
def uint64 (n : Nat) : Bytes := decimal n

def object (members : List (String × Bytes)) : Bytes :=
  123 :: join (members.map fun m => string (bytes m.1) ++ 58 :: m.2) [44] ++ [125]

def array (elements : List Bytes) : Bytes := 91 :: join elements [44] ++ [93]

end Writer

end O2Chat.Common
