import O2Chat.Common.ReaderSpec

/-!
# What rapidjson's writer writes

`rapidjson::Writer` gets a document call by call and keeps, for each object and array that is
open, how many values it has written there. The texts that `Writer.object` and `Writer.array`
put together in one piece are what these calls leave in the buffer, and the reader reads such a
text back.
-/
namespace O2Chat.Common

namespace Writer

/-- The calls that the program makes; `Key` is `String`. -/
inductive Event
  | string (s : Bytes)
  | uint64 (n : UInt64)
  | startObject
  | endObject
  | startArray
  | endArray

structure Level where
  valueCount : Nat
  inArray : Bool

/-- The buffer, the open objects and arrays with the innermost first, and `hasRoot_`. -/
structure State where
  os : Bytes
  levelStack : List Level
  hasRoot : Bool

def start : State := ⟨[], [], false⟩

def State.put (w : State) (s : Bytes) : State := { w with os := w.os ++ s }

def Level.separator (level : Level) : Bytes :=
  if level.valueCount = 0 then []
  else if level.inArray = true then [44]
  else if level.valueCount % 2 = 0 then [44]
  else [58]

/-- `Prefix`; `none` is a failed assertion. -/
def State.beginValue (w : State) (isString : Bool) : Option State :=
  match w.levelStack with
  | [] => if w.hasRoot = true then none else some { w with hasRoot := true }
  | level :: levels =>
    if level.inArray = false ∧ level.valueCount % 2 = 0 ∧ isString = false then none
    else
      some { w with
        os := w.os ++ level.separator
        levelStack := { level with valueCount := level.valueCount + 1 } :: levels }

def step (w : State) : Event → Option State
  | .string s => (w.beginValue true).map (·.put (string s))
  | .uint64 n => (w.beginValue false).map (·.put (uint64 n.toNat))
  | .startObject => (w.beginValue false).map fun w =>
    { w with os := w.os ++ [123], levelStack := ⟨0, false⟩ :: w.levelStack }
  | .startArray => (w.beginValue false).map fun w =>
    { w with os := w.os ++ [91], levelStack := ⟨0, true⟩ :: w.levelStack }
  | .endObject =>
    match w.levelStack with
    | ⟨_, false⟩ :: levels => some { w with os := w.os ++ [125], levelStack := levels }
    | _ => none
  | .endArray =>
    match w.levelStack with
    | ⟨_, true⟩ :: levels => some { w with os := w.os ++ [93], levelStack := levels }
    | _ => none

def run (w : State) (events : List Event) : Option State := events.foldlM step w

def State.isComplete (w : State) : Bool := w.hasRoot && w.levelStack.isEmpty

/-- A document as the program writes one: the names of members are literals. -/
inductive Doc
  | string (s : Bytes)
  | uint64 (n : UInt64)
  | object (members : List (String × Doc))
  | array (elements : List Doc)

namespace Doc

mutual

/-- The calls that write a document. -/
def events : Doc → List Event
  | .string s => [.string s]
  | .uint64 n => [.uint64 n]
  | .object members => .startObject :: memberEvents members ++ [.endObject]
  | .array elements => .startArray :: elementEvents elements ++ [.endArray]

def memberEvents : List (String × Doc) → List Event
  | [] => []
  | (name, d) :: members => .string (bytes name) :: d.events ++ memberEvents members

def elementEvents : List Doc → List Event
  | [] => []
  | d :: elements => d.events ++ elementEvents elements

end

mutual

def text : Doc → Bytes
  | .string s => Writer.string s
  | .uint64 n => Writer.uint64 n.toNat
  | .object members => Writer.object (memberTexts members)
  | .array elements => Writer.array (elementTexts elements)

def memberTexts : List (String × Doc) → List (String × Bytes)
  | [] => []
  | (name, d) :: members => (name, d.text) :: memberTexts members

def elementTexts : List Doc → List Bytes
  | [] => []
  | d :: elements => d.text :: elementTexts elements

end

mutual

/-- What the reader makes of it. -/
def value : Doc → Json
  | .string s => .string (cstr s)
  | .uint64 n => .int n.toNat
  | .object members => .object (memberValues members)
  | .array elements => .array (elementValues elements)

def memberValues : List (String × Doc) → List (Bytes × Json)
  | [] => []
  | (name, d) :: members => (cstr (bytes name), d.value) :: memberValues members

def elementValues : List Doc → List Json
  | [] => []
  | d :: elements => d.value :: elementValues elements

end

def isString : Doc → Bool
  | .string _ => true
  | _ => false

theorem memberTexts_eq (members : List (String × Doc)) :
    memberTexts members = members.map fun m => (m.1, m.2.text) := by
  induction members with
  | nil => rfl
  | cons m members ih => rw [memberTexts, ih, List.map_cons]

theorem elementTexts_eq (elements : List Doc) : elementTexts elements = elements.map text := by
  induction elements with
  | nil => rfl
  | cons d elements ih => rw [elementTexts, ih, List.map_cons]

theorem memberValues_eq (members : List (String × Doc)) :
    memberValues members = members.map fun m => (cstr (bytes m.1), m.2.value) := by
  induction members with
  | nil => rfl
  | cons m members ih => rw [memberValues, ih, List.map_cons]

theorem elementValues_eq (elements : List Doc) : elementValues elements = elements.map value := by
  induction elements with
  | nil => rfl
  | cons d elements ih => rw [elementValues, ih, List.map_cons]

end Doc

/-! ## The calls leave the text of the document -/

/-- Texts with commas between them, after `n` values. -/
def separated (n : Nat) (texts : List Bytes) : Bytes :=
  if n = 0 then join texts [44] else texts.flatMap (44 :: ·)

theorem join_cons (x : Bytes) (xs : List Bytes) :
    join (x :: xs) [44] = x ++ xs.flatMap (44 :: ·) := by
  induction xs generalizing x with
  | nil => simp [join]
  | cons y xs ih =>
    have hnext := ih y
    simp only [join] at hnext ⊢
    rw [List.intercalate_cons_cons, hnext]
    simp

@[simp]
theorem separated_nil (n : Nat) : separated n [] = [] := by
  simp [separated, join]

theorem separated_cons (n k : Nat) (x : Bytes) (xs : List Bytes) :
    separated n (x :: xs) = (if n = 0 then [] else [44]) ++ x ++ separated (n + k + 1) xs := by
  by_cases hn : n = 0
  · simp [separated, hn, join_cons]
  · simp [separated, hn]

def memberText (m : String × Bytes) : Bytes := string (bytes m.1) ++ 58 :: m.2

theorem object_eq (members : List (String × Bytes)) :
    object members = 123 :: separated 0 (members.map memberText) ++ [125] := rfl

theorem array_eq (elements : List Bytes) : array elements = 91 :: separated 0 elements ++ [93] := rfl

theorem run_append {w w' : State} {s : List Event} (h : run w s = some w') (t : List Event) :
    run w (s ++ t) = run w' t := by
  rw [run, List.foldlM_append, show s.foldlM step w = some w' from h]
  rfl

theorem run_cons {w w' : State} {e : Event} (h : step w e = some w') (s : List Event) :
    run w (e :: s) = run w' s := by
  rw [run, List.foldlM_cons, h]
  rfl

mutual

/-- A value is written after what `Prefix` puts. -/
theorem run_events : ∀ (d : Doc) (w w' : State), w.beginValue d.isString = some w' →
    run w d.events = some (w'.put d.text)
  | .string s, w, w', h => by
    have hstep : step w (.string s) = some (w'.put (string s)) := congrArg (Option.map _) h
    rw [Doc.events, run_cons hstep]
    rfl
  | .uint64 n, w, w', h => by
    have hstep : step w (.uint64 n) = some (w'.put (uint64 n.toNat)) := congrArg (Option.map _) h
    rw [Doc.events, run_cons hstep]
    rfl
  | .object members, w, w', h => by
    have hstart : step w .startObject =
        some { w' with os := w'.os ++ [123], levelStack := ⟨0, false⟩ :: w'.levelStack } :=
      congrArg (Option.map _) h
    have hmembers := run_memberEvents members (w'.os ++ [123]) 0 (by decide) w'.levelStack w'.hasRoot
    rw [Doc.events, List.cons_append, run_cons hstart, run_append hmembers]
    simp [run, step, State.put, Doc.text, object_eq]
  | .array elements, w, w', h => by
    have hstart : step w .startArray =
        some { w' with os := w'.os ++ [91], levelStack := ⟨0, true⟩ :: w'.levelStack } :=
      congrArg (Option.map _) h
    have helements := run_elementEvents elements (w'.os ++ [91]) 0 w'.levelStack w'.hasRoot
    rw [Doc.events, List.cons_append, run_cons hstart, run_append helements]
    simp [run, step, State.put, Doc.text, array_eq]

/-- Between two members an even number of values has been written. -/
theorem run_memberEvents : ∀ (members : List (String × Doc)) (os : Bytes) (n : Nat), n % 2 = 0 →
    ∀ (levels : List Level) (hasRoot : Bool),
    run ⟨os, ⟨n, false⟩ :: levels, hasRoot⟩ (Doc.memberEvents members) =
      some ⟨os ++ separated n ((Doc.memberTexts members).map memberText),
        ⟨n + 2 * members.length, false⟩ :: levels, hasRoot⟩
  | [], os, n, _, levels, hasRoot => by
    simp [Doc.memberEvents, run, Doc.memberTexts]
  | (name, d) :: members, os, n, hn, levels, hasRoot => by
    have hname : step ⟨os, ⟨n, false⟩ :: levels, hasRoot⟩ (.string (bytes name)) =
        some ⟨os ++ (if n = 0 then [] else [44]) ++ string (bytes name),
          ⟨n + 1, false⟩ :: levels, hasRoot⟩ := by
      simp [step, State.beginValue, State.put, Level.separator, hn]
    have hodd : (n + 1) % 2 = 1 := by omega
    have hvalue := run_events d
      ⟨os ++ (if n = 0 then [] else [44]) ++ string (bytes name), ⟨n + 1, false⟩ :: levels, hasRoot⟩
      ⟨os ++ (if n = 0 then [] else [44]) ++ string (bytes name) ++ [58],
        ⟨n + 2, false⟩ :: levels, hasRoot⟩ (by simp [State.beginValue, Level.separator, hodd])
    have hnext := run_memberEvents members
      (os ++ (if n = 0 then [] else [44]) ++ string (bytes name) ++ [58] ++ d.text) (n + 2)
      (by omega) levels hasRoot
    rw [Doc.memberEvents, List.cons_append, run_cons hname, run_append hvalue]
    refine hnext.trans ?_
    have hcount : n + 2 + 2 * members.length = n + 2 * (members.length + 1) := by omega
    rw [Doc.memberTexts, List.map_cons, separated_cons n 1, List.length_cons, hcount]
    simp [memberText]

theorem run_elementEvents : ∀ (elements : List Doc) (os : Bytes) (n : Nat)
    (levels : List Level) (hasRoot : Bool),
    run ⟨os, ⟨n, true⟩ :: levels, hasRoot⟩ (Doc.elementEvents elements) =
      some ⟨os ++ separated n (Doc.elementTexts elements), ⟨n + elements.length, true⟩ :: levels,
        hasRoot⟩
  | [], os, n, levels, hasRoot => by
    simp [Doc.elementEvents, run, Doc.elementTexts]
  | d :: elements, os, n, levels, hasRoot => by
    have hvalue := run_events d ⟨os, ⟨n, true⟩ :: levels, hasRoot⟩
      ⟨os ++ (if n = 0 then [] else [44]), ⟨n + 1, true⟩ :: levels, hasRoot⟩
      (by simp [State.beginValue, Level.separator])
    have hnext := run_elementEvents elements (os ++ (if n = 0 then [] else [44]) ++ d.text) (n + 1)
      levels hasRoot
    rw [Doc.elementEvents, run_append hvalue]
    refine hnext.trans ?_
    rw [Doc.elementTexts, separated_cons n 0, List.length_cons]
    simp [Nat.add_assoc, Nat.add_comm 1]

end

/-! ## The text of a document is a text of its value -/

open Json

theorem parseHex4_hexDigit : ∀ b : UInt8, b < 32 → GenericReader.parseHex4
    [48, 48, hexDigit (b.toNat / 16), hexDigit (b.toNat % 16)] = some (b.toNat, []) :=
  forall_byte (by decide +kernel)

theorem stringText_escape (b : UInt8) : StringText [b] (escape b) := by
  unfold escape
  split_ifs with h34 h92 h8 h9 h10 h12 h13 h32
  · subst h34
    exact .escape rfl .nil
  · subst h92
    exact .escape rfl .nil
  · subst h8
    exact .escape rfl .nil
  · subst h9
    exact .escape rfl .nil
  · subst h10
    exact .escape rfl .nil
  · subst h12
    exact .escape rfl .nil
  · subst h13
    exact .escape rfl .nil
  · have hlt : b.toNat < 32 := h32
    have htext := StringText.unicode (parseHex4_hexDigit b h32) (by omega) .nil
    have hencode : GenericReader.encode b.toNat = [b] := by
      rw [GenericReader.encode, if_pos (by omega), UInt8.ofNat_toNat]
    rw [hencode] at htext
    exact htext
  · exact .plain (UInt8.not_lt.mp h32) h34 h92 .nil

theorem StringText.append {s t s' t' : Bytes} (h : StringText s t) (h' : StringText s' t') :
    StringText (s ++ s') (t ++ t') := by
  induction h with
  | nil => exact h'
  | plain hc hquote hslash _ ih => exact .plain hc hquote hslash ih
  | escape he _ ih => exact .escape he ih
  | unicode hu hc _ ih => simpa using StringText.unicode hu hc ih
  | surrogates hu hhigh hv hlow _ ih => simpa using StringText.surrogates hu hhigh hv hlow ih

theorem stringText_flatMap (s : Bytes) : StringText s (s.flatMap escape) := by
  induction s with
  | nil => exact .nil
  | cons b s ih => exact StringText.append (stringText_escape b) ih

/-- A number is written without leading zeros. -/
theorem head?_decimal {n : Nat} (hn : n ≠ 0) : (decimal n).head? ≠ some 48 := by
  show (numeral 10 n).head? ≠ some 48
  induction n using Nat.strongRecOn with
  | ind n ih =>
    by_cases h : n < 10
    · rw [numeral_of_lt h]
      have hdigit : ∀ d < 10, d ≠ 0 → byteOf (Nat.digitChar d) ≠ 48 := by decide
      simpa using hdigit n h hn
    · have hdiv := ih (n / 10) (by omega) (by omega)
      rw [numeral_of_le (by decide) (by omega), List.head?_append]
      obtain ⟨b, s, hs⟩ := List.exists_cons_of_ne_nil (numeral_ne_nil 10 (n / 10))
      rw [hs] at hdiv ⊢
      exact hdiv

theorem integerText_decimal (n : Nat) : IntegerText n (decimal n) := by
  by_cases hn : n = 0
  · subst hn
    exact .zero
  · have h := IntegerText.digits ⟨decimal_ne_nil n, isDigit_of_mem_decimal⟩ (head?_decimal hn)
    rwa [ofDigits_decimal] at h

theorem separated_cons_cons (x y : Bytes) (xs : List Bytes) :
    separated 0 (x :: y :: xs) = x ++ 44 :: separated 0 (y :: xs) := by
  simp [separated, join_cons]

mutual

theorem text_value : ∀ d : Doc, Text d.value d.text
  | .string s => .string (stringText_flatMap (cstr s))
  | .uint64 n => by
    have hn : n.toNat ≤ 2 ^ 64 - 1 := Nat.le_sub_one_of_lt n.toNat_lt
    exact .number (.integer false (integerText_decimal n.toNat) hn)
  | .object [] => .emptyObject .nil
  | .object (m :: members) => by
    have h := Text.object Blank.nil (memberTexts_value (m :: members) (by simp))
    rw [Doc.value, Doc.text, object_eq]
    simpa using h
  | .array [] => .emptyArray .nil
  | .array (d :: elements) => by
    have h := Text.array Blank.nil (elementTexts_value (d :: elements) (by simp))
    rw [Doc.value, Doc.text, array_eq]
    simpa using h

theorem memberTexts_value : ∀ members : List (String × Doc), members ≠ [] →
    MembersText (Doc.memberValues members) (separated 0 ((Doc.memberTexts members).map memberText))
  | [], h => absurd rfl h
  | [(name, d)], _ => by
    have h := MembersText.last (stringText_flatMap (cstr (bytes name))) .nil .nil (text_value d) .nil
    simpa [Doc.memberValues, Doc.memberTexts, separated, join, memberText, string] using h
  | (name, d) :: m :: members, _ => by
    have hnext := memberTexts_value (m :: members) (by simp)
    have h := MembersText.cons (stringText_flatMap (cstr (bytes name))) .nil .nil (text_value d) .nil
      .nil hnext
    simpa [Doc.memberValues, Doc.memberTexts, separated_cons_cons, memberText, string] using h

theorem elementTexts_value : ∀ elements : List Doc, elements ≠ [] →
    ElementsText (Doc.elementValues elements) (separated 0 (Doc.elementTexts elements))
  | [], h => absurd rfl h
  | [d], _ => by
    have h := ElementsText.last (text_value d) .nil
    simpa [Doc.elementValues, Doc.elementTexts, separated, join] using h
  | d :: d' :: elements, _ => by
    have hnext := elementTexts_value (d' :: elements) (by simp)
    have h := ElementsText.cons (text_value d) .nil .nil hnext
    simpa [Doc.elementValues, Doc.elementTexts, separated_cons_cons] using h

end

mutual

theorem integral_value : ∀ d : Doc, Integral d.value
  | .string s => .string (cstr s)
  | .uint64 n => .int n.toNat
  | .object members => .object (integral_memberValues members)
  | .array elements => .array (integral_elementValues elements)

theorem integral_memberValues : ∀ members : List (String × Doc),
    ∀ m ∈ Doc.memberValues members, Integral m.2
  | [] => by simp [Doc.memberValues]
  | (_, d) :: members =>
    List.forall_mem_cons.mpr ⟨integral_value d, integral_memberValues members⟩

theorem integral_elementValues : ∀ elements : List Doc, ∀ v ∈ Doc.elementValues elements, Integral v
  | [] => by simp [Doc.elementValues]
  | d :: elements =>
    List.forall_mem_cons.mpr ⟨integral_value d, integral_elementValues elements⟩

end

theorem parse_text (tooBig : Nat → Bytes → Bool) (d : Doc) :
    GenericReader.parse tooBig d.text = some d.value := by
  have ht := text_value d
  exact GenericReader.parse_text (integral_value d) .nil .nil ht (by simpa using ht.cstr_eq)

/-- The calls of any document leave a complete text in the buffer, the one put together in one
piece, and the reader reads the document back from it. -/
theorem reader_reads_writer (tooBig : Nat → Bytes → Bool) (d : Doc) :
    ∃ w, run start d.events = some w ∧ w.isComplete = true ∧ w.os = d.text ∧
      GenericReader.parse tooBig w.os = some d.value := by
  have hrun := run_events d start ⟨[], [], true⟩ rfl
  exact ⟨_, hrun, rfl, rfl, parse_text tooBig d⟩

end Writer

end O2Chat.Common
