import Mathlib.Algebra.Order.Ring.Nat
import Mathlib.Data.List.TakeWhile
import O2Chat.Lib.Search

/-!
# Byte strings and the helpers of `common/utils.cpp`

A `std::string` is a list of bytes. The character functions are those of the C
locale. `stoul` and `stoi` follow `strtoul` and `strtol`: leading blanks, a sign
and, for base 16, a `0x` prefix are accepted, and `parsed` counts what was read.
-/
namespace O2Chat.Common

open O2Chat.Lib.Search

abbrev Bytes := List UInt8

def byteOf (c : Char) : UInt8 := UInt8.ofNat c.toNat

/-- The bytes of a string literal. -/
def bytes (s : String) : Bytes := s.toList.map byteOf

def CR : UInt8 := 13
def LF : UInt8 := 10
def CRLF : Bytes := [13, 10]
def CRLFCRLF : Bytes := [13, 10, 13, 10]

/-- The C string at `s.c_str()`: it ends before the first NUL. -/
def cstr (s : Bytes) : Bytes := s.takeWhile (· ≠ 0)

def isspace (b : UInt8) : Bool := b = 32 || (9 ≤ b && b ≤ 13)

def tolower (b : UInt8) : UInt8 := if 65 ≤ b ∧ b ≤ 90 then b + 32 else b

def lowercased (s : Bytes) : Bytes := s.map tolower

/-- `strncmp(s.data(), predicate.data(), predicate.size()) == 0`. -/
def startsWith : Bytes → Bytes → Bool
  | _, [] => true
  | [], p :: _ => p == 0
  | a :: s, p :: ps => a == p && (a == 0 || startsWith s ps)

/-! ## Numbers -/

/-- `std::to_string` of an unsigned number. -/
def decimal (n : Nat) : Bytes := (Nat.toDigits 10 n).map byteOf

/-- `std::to_string` of a signed number. -/
def decimalInt (n : Int) : Bytes :=
  if n < 0 then 45 :: decimal n.natAbs else decimal n.natAbs

def digitValue (base : Nat) (b : UInt8) : Option Nat :=
  let v : Nat :=
    if 48 ≤ b ∧ b ≤ 57 then b.toNat - 48
    else if 97 ≤ b ∧ b ≤ 102 then b.toNat - 87
    else if 65 ≤ b ∧ b ≤ 70 then b.toNat - 55
    else base
  if v < base then some v else none

def isDigit (base : Nat) (b : UInt8) : Bool := (digitValue base b).isSome

/-- The number written by a list of digits. -/
def ofDigits (base : Nat) (s : Bytes) : Nat :=
  s.foldl (fun n b => n * base + (digitValue base b).getD 0) 0

/-- The exceptions of `std::stoul` and `std::stoi`. -/
inductive ConversionError
  | invalidArgument
  | outOfRange
  deriving DecidableEq, Repr

/-- What `strtoul` reads: the sign, the digits and the number of bytes read. -/
def scanNumber (base : Nat) (str : Bytes) : Bool × Bytes × Nat :=
  let s := cstr str
  let unblanked := s.dropWhile isspace
  let signed : Bool × Bytes := match unblanked with
    | 43 :: t => (false, t)
    | 45 :: t => (true, t)
    | t => (false, t)
  let body := match signed.2 with
    | 48 :: x :: d :: t =>
      if base = 16 ∧ (x = 120 ∨ x = 88) ∧ isDigit 16 d then d :: t else signed.2
    | t => t
  let digits := body.takeWhile (isDigit base)
  (signed.1, digits, s.length - (body.length - digits.length))

/-- `std::stoul(str, &parsed, base)` with a 64-bit `unsigned long`. -/
def stoul (base : Nat) (str : Bytes) : Except ConversionError (Nat × Nat) :=
  let scanned := scanNumber base str
  if scanned.2.1 = [] then .error .invalidArgument
  else
    let n := ofDigits base scanned.2.1
    if 2 ^ 64 ≤ n then .error .outOfRange
    else .ok (if scanned.1 then (2 ^ 64 - n) % 2 ^ 64 else n, scanned.2.2)

/-- `std::stoi(str)` with a 32-bit `int`. -/
def stoi (str : Bytes) : Except ConversionError Int :=
  let scanned := scanNumber 10 str
  if scanned.2.1 = [] then .error .invalidArgument
  else
    let n : Int := ofDigits 10 scanned.2.1
    let v := if scanned.1 then -n else n
    if v < -2 ^ 31 ∨ 2 ^ 31 ≤ v then .error .outOfRange else .ok v

/-! ## Splitting -/

/-- The loop of `utils::split` on the part of the line that is left. `parts` counts
the parts cut off so far; `fuel` bounds the rounds, each of which consumes bytes. -/
def splitLoop (delimiter : Bytes) (maxParts : Int) : Nat → Nat → Bytes → List Bytes
  | 0, _, rest => [rest]
  | fuel + 1, parts, rest =>
    match search delimiter rest with
    | none => [rest]
    | some pos =>
      let after := rest.drop (pos + delimiter.length)
      if ((parts + 1 : Nat) : Int) = maxParts - 1 then [rest.take pos, after]
      else rest.take pos :: splitLoop delimiter maxParts fuel (parts + 1) after

def splitMax (line delimiter : Bytes) (maxParts : Int) : List Bytes :=
  splitLoop delimiter maxParts line.length 0 line

def split (line delimiter : Bytes) : List Bytes := splitMax line delimiter (-1)

def join (vec : List Bytes) (connector : Bytes) : Bytes := connector.intercalate vec

/-! ## Facts about splitting -/

theorem splitLoop_none {delimiter rest : Bytes} {maxParts : Int} (fuel parts : Nat)
    (h : search delimiter rest = none) : splitLoop delimiter maxParts fuel parts rest = [rest] := by
  cases fuel with
  | zero => rfl
  | succ fuel => rw [splitLoop, h]

theorem length_le_intercalate {delimiter l : Bytes} (hd : delimiter ≠ []) :
    ∀ rest : List Bytes, rest.length ≤ (delimiter.intercalate (l :: rest)).length := by
  intro rest
  induction rest generalizing l with
  | nil => exact Nat.zero_le _
  | cons l' rest ih =>
    have hlen := ih (l := l')
    have hpos := List.length_pos_iff.mpr hd
    rw [List.intercalate_cons_cons, List.length_append, List.length_append, List.length_cons]
    omega

/-- A part without the delimiter's first byte is cut off as it is. -/
theorem splitLoop_part {p : UInt8} (ps : Bytes) {l : Bytes} (fuel parts : Nat) (rest : Bytes)
    (h : p ∉ l) : splitLoop (p :: ps) (-1) (fuel + 1) parts (l ++ (p :: ps ++ rest)) =
      l :: splitLoop (p :: ps) (-1) fuel (parts + 1) rest := by
  rw [splitLoop, search_after ps _ h]
  dsimp only
  rw [if_neg (by omega), List.take_left, ← List.append_assoc, ← List.length_append, List.drop_left]

theorem splitLoop_intercalate {p : UInt8} {ps : Bytes} (fuel parts : Nat) (l : Bytes)
    (rest : List Bytes) (h : ∀ part ∈ l :: rest, p ∉ part) (hfuel : rest.length ≤ fuel) :
    splitLoop (p :: ps) (-1) fuel parts ((p :: ps).intercalate (l :: rest)) = l :: rest := by
  induction rest generalizing l fuel parts with
  | nil =>
    have hnone := search_eq_none_of_notMem ps (h l List.mem_cons_self)
    rw [List.intercalate_singleton]
    exact splitLoop_none fuel parts hnone
  | cons l' rest ih =>
    cases fuel with
    | zero => exact absurd hfuel (by simp)
    | succ fuel =>
      have hnext := ih fuel (parts + 1) l' (fun part hp => h part (List.mem_cons_of_mem _ hp))
        (by simpa using hfuel)
      rw [List.intercalate_cons_cons, List.append_assoc,
        splitLoop_part ps fuel parts _ (h l List.mem_cons_self), hnext]

/-- `utils::split` undoes joining parts that do not have the delimiter's first byte. -/
theorem split_intercalate {p : UInt8} {ps : Bytes} {parts : List Bytes} (hne : parts ≠ [])
    (h : ∀ part ∈ parts, p ∉ part) : split ((p :: ps).intercalate parts) (p :: ps) = parts := by
  obtain ⟨l, rest, rfl⟩ := List.exists_cons_of_ne_nil hne
  exact splitLoop_intercalate _ 0 l rest h (length_le_intercalate (by simp) rest)

/-! ## Facts about written numbers -/

/-- The text of a number in a base up to sixteen. -/
def numeral (base n : Nat) : Bytes := (Nat.toDigits base n).map byteOf

theorem digitChar_value :
    ∀ base ≤ 16, ∀ d < base, digitValue base (byteOf (Nat.digitChar d)) = some d := by
  decide

theorem numeral_of_lt {base n : Nat} (h : n < base) :
    numeral base n = [byteOf (Nat.digitChar n)] := by
  simp [numeral, Nat.toDigits_of_lt_base h]

theorem numeral_of_le {base n : Nat} (hbase : 1 < base) (h : base ≤ n) :
    numeral base n = numeral base (n / base) ++ [byteOf (Nat.digitChar (n % base))] := by
  simp [numeral, Nat.toDigits_of_base_le hbase h]

theorem numeral_ne_nil (base n : Nat) : numeral base n ≠ [] := by
  simp [numeral, Nat.toDigits_ne_nil]

theorem ofDigits_append_singleton (base : Nat) (s : Bytes) (b : UInt8) :
    ofDigits base (s ++ [b]) = ofDigits base s * base + (digitValue base b).getD 0 := by
  simp [ofDigits]

/-- Writing a number and reading its digits gives the number back. -/
theorem ofDigits_numeral {base : Nat} (hbase : 1 < base) (hle : base ≤ 16) (n : Nat) :
    ofDigits base (numeral base n) = n := by
  induction n using Nat.strongRecOn with
  | ind n ih =>
    by_cases h : n < base
    · rw [numeral_of_lt h]
      simp [ofDigits, digitChar_value base hle n h]
    · have hn : base ≤ n := by omega
      rw [numeral_of_le hbase hn, ofDigits_append_singleton,
        ih (n / base) (Nat.div_lt_self (by omega) hbase),
        digitChar_value base hle (n % base) (Nat.mod_lt n (by omega)), Option.getD_some]
      exact Nat.div_add_mod' n base

theorem isDigit_of_mem_numeral {base : Nat} (hbase : 1 < base) (hle : base ≤ 16) {n : Nat} :
    ∀ b ∈ numeral base n, isDigit base b = true := by
  induction n using Nat.strongRecOn with
  | ind n ih =>
    intro b hb
    by_cases h : n < base
    · rw [numeral_of_lt h, List.mem_singleton] at hb
      subst hb
      simp [isDigit, digitChar_value base hle n h]
    · have hn : base ≤ n := by omega
      rw [numeral_of_le hbase hn, List.mem_append, List.mem_singleton] at hb
      rcases hb with hb | rfl
      · exact ih (n / base) (Nat.div_lt_self (by omega) hbase) b hb
      · simp [isDigit, digitChar_value base hle (n % base) (Nat.mod_lt n (by omega))]

theorem decimal_ne_nil (n : Nat) : decimal n ≠ [] := numeral_ne_nil 10 n

theorem ofDigits_decimal (n : Nat) : ofDigits 10 (decimal n) = n :=
  ofDigits_numeral (by decide) (by decide) n

theorem isDigit_of_mem_decimal {n : Nat} : ∀ b ∈ decimal n, isDigit 10 b = true :=
  isDigit_of_mem_numeral (by decide) (by decide)

theorem decimal_injective {m n : Nat} (h : decimal m = decimal n) : m = n := by
  rw [← ofDigits_decimal m, h, ofDigits_decimal]

/-- Different signed numbers are printed differently. -/
theorem decimalInt_injective {a b : Int} (h : decimalInt a = decimalInt b) : a = b := by
  have hsign : ∀ n l, decimal n ≠ 45 :: l := by
    intro n l heq
    have hdigit := isDigit_of_mem_decimal (n := n) 45 (by simp [heq])
    exact absurd hdigit (by decide)
  unfold decimalInt at h
  by_cases ha : a < 0
  · by_cases hb : b < 0
    · rw [if_pos ha, if_pos hb] at h
      have := decimal_injective (List.cons.inj h).2
      omega
    · rw [if_pos ha, if_neg hb] at h
      exact absurd h.symm (hsign _ _)
  · by_cases hb : b < 0
    · rw [if_neg ha, if_pos hb] at h
      exact absurd h (hsign _ _)
    · rw [if_neg ha, if_neg hb] at h
      have := decimal_injective h
      omega

theorem forall_byte {p : UInt8 → Prop} (h : ∀ n < 256, p (UInt8.ofNat n)) (b : UInt8) : p b := by
  have hb := h b.toNat b.toNat_lt
  rwa [UInt8.ofNat_toNat] at hb

/-- A digit in a smaller base is a hexadecimal digit. -/
theorem isDigit_hex {base : Nat} (hle : base ≤ 16) {b : UInt8} (h : isDigit base b = true) :
    isDigit 16 b = true := by
  revert h
  simp only [isDigit, digitValue, Option.isSome_ite]
  split
  · omega
  · split
    · omega
    · split <;> omega

/-- A digit is no blank and no sign, it does not end a text or a line, and it is not the
second character of a prefix. -/
theorem of_isDigit_hex : ∀ b : UInt8, isDigit 16 b = true →
    isspace b = false ∧ b ≠ 0 ∧ b ≠ 13 ∧ b ≠ 43 ∧ b ≠ 45 ∧ b ≠ 120 ∧ b ≠ 88 :=
  forall_byte (by decide +kernel)

theorem isspace_of_isDigit {b : UInt8} (h : isDigit 10 b = true) : isspace b = false :=
  (of_isDigit_hex b (isDigit_hex (by decide) h)).1

/-- A text of digits is read to its end. -/
theorem scanNumber_digits {base : Nat} (hle : base ≤ 16) {s : Bytes} (hne : s ≠ [])
    (h : ∀ b ∈ s, isDigit base b = true) : scanNumber base s = (false, s, s.length) := by
  have hhex : ∀ b ∈ s, isspace b = false ∧ b ≠ 0 ∧ b ≠ 13 ∧ b ≠ 43 ∧ b ≠ 45 ∧ b ≠ 120 ∧ b ≠ 88 :=
    fun b hb => of_isDigit_hex b (isDigit_hex hle (h b hb))
  have hcstr : cstr s = s := by
    apply List.takeWhile_eq_self_iff.mpr
    intro b hb
    simpa using (hhex b hb).2.1
  have hdigits : s.takeWhile (isDigit base) = s := List.takeWhile_eq_self_iff.mpr h
  obtain ⟨d, t, rfl⟩ := List.exists_cons_of_ne_nil hne
  obtain ⟨hblank, -, -, hplus, hminus, -, -⟩ := hhex d List.mem_cons_self
  have hspace : (d :: t).dropWhile isspace = d :: t := by
    rw [List.dropWhile_cons, hblank]
    rfl
  unfold scanNumber
  simp only [hcstr, hspace]
  have hsign : (match d :: t with
      | 43 :: t => (false, t)
      | 45 :: t => (true, t)
      | t => (false, t)) = (false, d :: t) := by
    split
    · rename_i heq
      exact absurd (List.cons.inj heq).1 hplus
    · rename_i heq
      exact absurd (List.cons.inj heq).1 hminus
    · rfl
  rw [hsign]
  dsimp only
  split
  · rename_i x _ _ heq
    have hx : x ∈ d :: t := by
      rw [heq]
      exact List.mem_cons_of_mem _ List.mem_cons_self
    obtain ⟨-, -, -, -, -, hlow, hup⟩ := hhex x hx
    rw [if_neg (fun hprefix => hprefix.2.1.elim hlow hup), hdigits, Nat.sub_self, Nat.sub_zero]
  · rw [hdigits, Nat.sub_self, Nat.sub_zero]

/-- A text of digits is the number it writes. -/
theorem stoul_digits {base : Nat} (hle : base ≤ 16) {s : Bytes} (hne : s ≠ [])
    (h : ∀ b ∈ s, isDigit base b = true) (hlt : ofDigits base s < 2 ^ 64) :
    stoul base s = .ok (ofDigits base s, s.length) := by
  unfold stoul
  rw [scanNumber_digits hle hne h]
  dsimp only
  rw [if_neg hne, if_neg (Nat.not_le.mpr hlt)]
  rfl

theorem stoul_lt {base n parsed : Nat} {s : Bytes} (h : stoul base s = .ok (n, parsed)) :
    n < 2 ^ 64 := by
  unfold stoul at h
  dsimp only at h
  split at h
  · cases h
  · split at h
    · cases h
    · rename_i hfits
      obtain ⟨rfl, -⟩ := Prod.mk.inj (Except.ok.inj h)
      split
      · exact Nat.mod_lt _ (by decide)
      · exact Nat.not_le.mp hfits

/-- `std::stoul` undoes `std::to_string`. -/
theorem stoul_decimal {n : Nat} (h : n < 2 ^ 64) :
    stoul 10 (decimal n) = .ok (n, (decimal n).length) := by
  rw [stoul_digits (by decide) (decimal_ne_nil n) isDigit_of_mem_decimal
    (by rwa [ofDigits_decimal]), ofDigits_decimal]

end O2Chat.Common
