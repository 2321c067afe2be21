import O2Chat.Common.GenericReader

/-!
# JSON texts

The grammar of JSON, as a relation between a value and a text without the blanks around it.
`StringText`, `NumberText` and the functions of the reader that take strings and numbers off the
front of the input are related here.
-/
namespace O2Chat.Common

namespace Json

def IsBlank (b : UInt8) : Prop := b = 32 ∨ b = 10 ∨ b = 13 ∨ b = 9

/-- Blanks between two tokens. -/
def Blank (w : Bytes) : Prop := ∀ b ∈ w, IsBlank b

def Digits (s : Bytes) : Prop := s ≠ [] ∧ ∀ b ∈ s, isDigit 10 b = true

/-- An unsigned integer without leading zeros. -/
inductive IntegerText : Nat → Bytes → Prop
  | zero : IntegerText 0 [48]
  | digits {s : Bytes} (h : Digits s) (h0 : s.head? ≠ some 48) : IntegerText (ofDigits 10 s) s

def FractionText (s : Bytes) : Prop := s = [] ∨ ∃ d, Digits d ∧ s = 46 :: d

def ExponentText (s : Bytes) : Prop :=
  s = [] ∨ ∃ e sign d, (e = 69 ∨ e = 101) ∧ (sign = [] ∨ sign = [43] ∨ sign = [45]) ∧
    Digits d ∧ s = e :: sign ++ d

def sign (minus : Bool) : Bytes := if minus = true then [45] else []

def signed (minus : Bool) (n : Nat) : Json := .int (if minus = true then -(n : Int) else n)

inductive NumberText : Json → Bytes → Prop
  | integer (minus : Bool) {n : Nat} {s : Bytes} (h : IntegerText n s) (hn : n ≤ GenericReader.maxInteger minus) :
    NumberText (signed minus n) (sign minus ++ s)
  | double (minus : Bool) {n : Nat} {i f e : Bytes} (hi : IntegerText n i) (hf : FractionText f)
    (he : ExponentText e) (h : GenericReader.maxInteger minus < n ∨ f ++ e ≠ []) :
    NumberText .double (sign minus ++ i ++ f ++ e)

/-- What stands between the quotes, and the bytes it stands for. -/
inductive StringText : Bytes → Bytes → Prop
  | nil : StringText [] []
  | plain {c : UInt8} {s t : Bytes} (hc : 32 ≤ c) (hquote : c ≠ 34) (hslash : c ≠ 92)
    (h : StringText s t) : StringText (c :: s) (c :: t)
  | escape {e c : UInt8} {s t : Bytes} (he : GenericReader.escape e = some c)
    (h : StringText s t) : StringText (c :: s) (92 :: e :: t)
  | unicode {u s t : Bytes} {codepoint : Nat} (hu : GenericReader.parseHex4 u = some (codepoint, []))
    (hc : ¬ (0xD800 ≤ codepoint ∧ codepoint ≤ 0xDBFF)) (h : StringText s t) :
    StringText (GenericReader.encode codepoint ++ s) (92 :: 117 :: u ++ t)
  | surrogates {u v s t : Bytes} {high low : Nat} (hu : GenericReader.parseHex4 u = some (high, []))
    (hhigh : 0xD800 ≤ high ∧ high ≤ 0xDBFF) (hv : GenericReader.parseHex4 v = some (low, []))
    (hlow : 0xDC00 ≤ low ∧ low ≤ 0xDFFF) (h : StringText s t) :
    StringText (GenericReader.encode (((high - 0xD800) <<< 10 ||| (low - 0xDC00)) + 0x10000) ++ s)
      (92 :: 117 :: u ++ 92 :: 117 :: v ++ t)

mutual

inductive Text : Json → Bytes → Prop
  | null : Text .null (bytes "null")
  | true : Text (.bool Bool.true) (bytes "true")
  | false : Text (.bool Bool.false) (bytes "false")
  | number {v : Json} {t : Bytes} (h : NumberText v t) : Text v t
  | string {s t : Bytes} (h : StringText s t) : Text (.string s) (34 :: t ++ [34])
  | emptyObject {w : Bytes} (hw : Blank w) : Text (.object []) (123 :: w ++ [125])
  | object {w t : Bytes} {members : List (Bytes × Json)} (hw : Blank w) (h : MembersText members t) :
    Text (.object members) (123 :: w ++ t ++ [125])
  | emptyArray {w : Bytes} (hw : Blank w) : Text (.array []) (91 :: w ++ [93])
  | array {w t : Bytes} {elements : List Json} (hw : Blank w) (h : ElementsText elements t) :
    Text (.array elements) (91 :: w ++ t ++ [93])

/-- The members of an object, with the blanks before the closing brace. -/
inductive MembersText : List (Bytes × Json) → Bytes → Prop
  | last {name n w1 w2 t w3 : Bytes} {v : Json} (hn : StringText name n) (h1 : Blank w1)
    (h2 : Blank w2) (hv : Text v t) (h3 : Blank w3) :
    MembersText [(name, v)] (34 :: n ++ 34 :: w1 ++ 58 :: w2 ++ t ++ w3)
  | cons {name n w1 w2 t w3 w4 ts : Bytes} {v : Json} {members : List (Bytes × Json)}
    (hn : StringText name n) (h1 : Blank w1) (h2 : Blank w2) (hv : Text v t) (h3 : Blank w3)
    (h4 : Blank w4) (h : MembersText members ts) :
    MembersText ((name, v) :: members)
      (34 :: n ++ 34 :: w1 ++ 58 :: w2 ++ t ++ w3 ++ 44 :: w4 ++ ts)

/-- The elements of an array, with the blanks before the closing bracket. -/
inductive ElementsText : List Json → Bytes → Prop
  | last {t w : Bytes} {v : Json} (hv : Text v t) (hw : Blank w) : ElementsText [v] (t ++ w)
  | cons {t w1 w2 ts : Bytes} {v : Json} {elements : List Json} (hv : Text v t) (h1 : Blank w1)
    (h2 : Blank w2) (h : ElementsText elements ts) :
    ElementsText (v :: elements) (t ++ w1 ++ 44 :: w2 ++ ts)

end

end Json

namespace GenericReader

open Json

/-! ## Blanks -/

theorem skipWhitespace_eq (s : Bytes) : ∃ w, Blank w ∧ s = w ++ skipWhitespace s := by
  induction s with
  | nil => exact ⟨[], by simp [Blank], rfl⟩
  | cons b s ih =>
    rw [skipWhitespace]
    split
    · rename_i hb
      obtain ⟨w, hw, hs⟩ := ih
      refine ⟨b :: w, ?_, by rw [List.cons_append, ← hs]⟩
      intro c hc
      rcases List.mem_cons.mp hc with rfl | hc
      · exact hb
      · exact hw c hc
    · exact ⟨[], by simp [Blank], rfl⟩

theorem skipWhitespace_append {w : Bytes} (hw : Blank w) (s : Bytes) :
    skipWhitespace (w ++ s) = skipWhitespace s := by
  induction w with
  | nil => rfl
  | cons b w ih =>
    have hb : IsBlank b := hw b List.mem_cons_self
    rw [List.cons_append, skipWhitespace]
    refine (if_pos hb).trans ?_
    exact ih fun c hc => hw c (List.mem_cons_of_mem _ hc)

theorem skipWhitespace_cons {b : UInt8} (hb : ¬ IsBlank b) (s : Bytes) :
    skipWhitespace (b :: s) = b :: s := by
  rw [skipWhitespace]
  exact if_neg hb

theorem skipWhitespace_blank {w : Bytes} (hw : Blank w) : skipWhitespace w = [] := by
  simpa [skipWhitespace] using skipWhitespace_append hw []

theorem length_skipWhitespace_le (s : Bytes) : (skipWhitespace s).length ≤ s.length := by
  obtain ⟨w, -, hs⟩ := skipWhitespace_eq s
  have := congrArg List.length hs
  rw [List.length_append] at this
  omega

theorem parseLiteral_eq_some {letters : String} {value v : Json} {s rest : Bytes}
    (h : parseLiteral letters value s = some (v, rest)) :
    v = value ∧ s = bytes letters ++ rest := by
  obtain ⟨htake, heq⟩ := Option.ite_some_none_eq_some.mp h
  obtain ⟨rfl, rfl⟩ := Prod.mk.inj heq
  refine ⟨rfl, ?_⟩
  conv_lhs => rw [← List.take_append_drop (bytes letters).length s, htake]

theorem parseLiteral_append (letters : String) (value : Json) (rest : Bytes) :
    parseLiteral letters value (bytes letters ++ rest) = some (value, rest) := by
  simp [parseLiteral]

/-! ## Strings -/

theorem parseHex4_append {u : Bytes} {codepoint : Nat} (h : parseHex4 u = some (codepoint, []))
    (s : Bytes) : parseHex4 (u ++ s) = some (codepoint, s) := by
  match u with
  | [] | [_] | [_, _] | [_, _, _] => simp [parseHex4] at h
  | a :: b :: c :: d :: u =>
    simp only [parseHex4, Option.bind_eq_bind, Option.pure_def, Option.bind_eq_some_iff,
      Option.some.injEq, Prod.mk.injEq] at h
    obtain ⟨a', ha, b', hb, c', hc, d', hd, rfl, rfl⟩ := h
    simp [parseHex4, ha, hb, hc, hd]

theorem parseHex4_eq_some {s rest : Bytes} {codepoint : Nat}
    (h : parseHex4 s = some (codepoint, rest)) :
    ∃ u, parseHex4 u = some (codepoint, []) ∧ s = u ++ rest := by
  match s with
  | [] | [_] | [_, _] | [_, _, _] => simp [parseHex4] at h
  | a :: b :: c :: d :: s =>
    simp only [parseHex4, Option.bind_eq_bind, Option.pure_def, Option.bind_eq_some_iff,
      Option.some.injEq, Prod.mk.injEq] at h
    obtain ⟨a', ha, b', hb, c', hc, d', hd, rfl, rfl⟩ := h
    exact ⟨[a, b, c, d], by simp [parseHex4, ha, hb, hc, hd], rfl⟩

/-- What an escape decodes to is one step of `StringText`. -/
theorem parseEscape_eq_some {s decoded rest : Bytes} (h : parseEscape s = some (decoded, rest)) :
    ∃ t, s = t ++ rest ∧ ∀ s' t', StringText s' t' → StringText (decoded ++ s') (92 :: t ++ t') := by
  match s with
  | [] => simp [parseEscape] at h
  | e :: s =>
    rw [parseEscape] at h
    split at h
    · rename_i c hc
      obtain ⟨rfl, rfl⟩ := Prod.mk.inj (Option.some.inj h)
      exact ⟨[e], rfl, fun s' t' h' => .escape hc h'⟩
    split at h
    · rename_i he
      subst he
      rw [parseUnicode] at h
      split at h
      · cases h
      rename_i codepoint s1 hcode
      obtain ⟨u, hu, rfl⟩ := parseHex4_eq_some hcode
      split at h
      · rename_i hhigh
        split at h
        · split at h
          · cases h
          rename_i codepoint2 s2 hcode2
          obtain ⟨v, hv, rfl⟩ := parseHex4_eq_some hcode2
          split at h
          · cases h
          rename_i hlow
          obtain ⟨rfl, rfl⟩ := Prod.mk.inj (Option.some.inj h)
          refine ⟨117 :: u ++ 92 :: 117 :: v, by simp, ?_⟩
          intro s' t' h'
          have := StringText.surrogates hu hhigh hv (by omega) h'
          simpa using this
        · cases h
      · rename_i hlow
        obtain ⟨rfl, rfl⟩ := Prod.mk.inj (Option.some.inj h)
        refine ⟨117 :: u, by simp, ?_⟩
        intro s' t' h'
        have := StringText.unicode hu hlow h'
        simpa using this
    · cases h

theorem parseStringLoop_eq_some {fuel : Nat} {out s out' rest : Bytes}
    (h : parseStringLoop fuel out s = some (out', rest)) :
    ∃ decoded t, out' = out ++ decoded ∧ s = t ++ 34 :: rest ∧ StringText decoded t := by
  induction fuel generalizing out s with
  | zero => simp [parseStringLoop] at h
  | succ fuel ih =>
    unfold parseStringLoop at h
    split at h
    · cases h
    · split at h
      · cases h
      rename_i decoded s1 hesc
      obtain ⟨t1, rfl, hstep⟩ := parseEscape_eq_some hesc
      obtain ⟨decoded', t, rfl, rfl, ht⟩ := ih h
      exact ⟨decoded ++ decoded', 92 :: t1 ++ t, by simp, by simp, hstep _ _ ht⟩
    · obtain ⟨rfl, rfl⟩ := Prod.mk.inj (Option.some.inj h)
      exact ⟨[], [], by simp, rfl, .nil⟩
    · rename_i c s1 hslash hquote
      split at h
      · cases h
      rename_i hc
      obtain ⟨decoded, t, rfl, rfl, ht⟩ := ih h
      refine ⟨c :: decoded, c :: t, by simp, rfl, ?_⟩
      exact .plain (UInt8.not_lt.mp hc) hquote hslash ht

/-- The loop reads a string text to its closing quote. -/
theorem parseStringLoop_text {decoded t : Bytes} (h : StringText decoded t) {fuel : Nat}
    (hfuel : t.length < fuel) (out rest : Bytes) :
    parseStringLoop fuel out (t ++ 34 :: rest) = some (out ++ decoded, rest) := by
  induction h generalizing fuel out with
  | nil =>
    obtain ⟨fuel, rfl⟩ := Nat.exists_eq_succ_of_ne_zero (Nat.ne_zero_of_lt hfuel)
    simp [parseStringLoop]
  | @plain c s t hc hquote hslash _ ih =>
    obtain ⟨fuel, rfl⟩ := Nat.exists_eq_succ_of_ne_zero (Nat.ne_zero_of_lt hfuel)
    have hnext := @ih fuel (by simpa using hfuel) (out ++ [c])
    simp [parseStringLoop, UInt8.not_lt.mpr hc, hnext]
  | @escape e c s t he _ ih =>
    obtain ⟨fuel, rfl⟩ := Nat.exists_eq_succ_of_ne_zero (Nat.ne_zero_of_lt hfuel)
    have hnext := @ih fuel (by simp only [List.length_cons] at hfuel; omega) (out ++ [c])
    simp [parseStringLoop, parseEscape, he, hnext]
  | @unicode u s t codepoint hu hc _ ih =>
    obtain ⟨fuel, rfl⟩ := Nat.exists_eq_succ_of_ne_zero (Nat.ne_zero_of_lt hfuel)
    have hnext := @ih fuel
      (by simp only [List.length_cons, List.length_append] at hfuel; omega) (out ++ encode codepoint)
    simp [parseStringLoop, parseEscape, show escape 117 = none from rfl, parseUnicode,
      parseHex4_append hu, hc, hnext]
  | @surrogates u v s t high low hu hhigh hv hlow _ ih =>
    obtain ⟨fuel, rfl⟩ := Nat.exists_eq_succ_of_ne_zero (Nat.ne_zero_of_lt hfuel)
    have hnext := @ih fuel
      (by simp only [List.length_cons, List.length_append] at hfuel; omega)
      (out ++ encode (((high - 0xD800) <<< 10 ||| (low - 0xDC00)) + 0x10000))
    have hlow' : ¬ (low < 0xDC00 ∨ 0xDFFF < low) := by omega
    simp [parseStringLoop, parseEscape, show escape 117 = none from rfl, parseUnicode,
      parseHex4_append hu, parseHex4_append hv, hhigh, hlow', hnext]

theorem parseString_eq_some {s decoded rest : Bytes} (h : parseString s = some (decoded, rest)) :
    ∃ t, s = t ++ 34 :: rest ∧ StringText decoded t := by
  obtain ⟨decoded', t, rfl, hs, ht⟩ := parseStringLoop_eq_some h
  exact ⟨t, hs, by simpa using ht⟩

theorem parseString_text {decoded t : Bytes} (h : StringText decoded t) (rest : Bytes) :
    parseString (t ++ 34 :: rest) = some (decoded, rest) := by
  have hfuel : t.length < (t ++ 34 :: rest).length := by simp
  exact parseStringLoop_text h hfuel [] rest

/-! ## Numbers -/

/-- The number that digits make of the number read before them. -/
def digitsFrom (i : Nat) (s : Bytes) : Nat :=
  s.foldl (fun n b => n * 10 + (digitValue 10 b).getD 0) i

@[simp]
theorem digitsFrom_nil (i : Nat) : digitsFrom i [] = i := rfl

theorem digitsFrom_cons {b : UInt8} {d : Nat} (hb : digitValue 10 b = some d) (i : Nat) (s : Bytes) :
    digitsFrom i (b :: s) = digitsFrom (i * 10 + d) s := by
  simp [digitsFrom, hb]

theorem digitsFrom_append (i : Nat) (s t : Bytes) :
    digitsFrom i (s ++ t) = digitsFrom (digitsFrom i s) t := List.foldl_append

theorem le_digitsFrom (i : Nat) (s : Bytes) : i ≤ digitsFrom i s := by
  induction s generalizing i with
  | nil => exact Nat.le_refl i
  | cons b s ih =>
    have hstep : i ≤ i * 10 + (digitValue 10 b).getD 0 := by omega
    exact Nat.le_trans hstep (ih _)

theorem ofDigits_cons {b : UInt8} {d : Nat} (hb : digitValue 10 b = some d) (s : Bytes) :
    ofDigits 10 (b :: s) = digitsFrom d s := by
  simp [ofDigits, digitsFrom, hb]

def AllDigits (s : Bytes) : Prop := ∀ b ∈ s, isDigit 10 b = true

theorem AllDigits.cons {b : UInt8} {s : Bytes} (hb : isDigit 10 b = true) (hs : AllDigits s) :
    AllDigits (b :: s) := List.forall_mem_cons.mpr ⟨hb, hs⟩

theorem AllDigits.append {s t : Bytes} (hs : AllDigits s) (ht : AllDigits t) :
    AllDigits (s ++ t) := List.forall_mem_append.mpr ⟨hs, ht⟩

def NoDigit (s : Bytes) : Prop := ∀ b, s.head? = some b → isDigit 10 b = false

theorem isDigit_of_digitValue {b : UInt8} {d : Nat} (h : digitValue 10 b = some d) :
    isDigit 10 b = true := by
  simp [isDigit, h]

theorem noDigit_cons {b : UInt8} (h : digitValue 10 b = none) (s : Bytes) : NoDigit (b :: s) := by
  intro c hc
  obtain rfl := Option.some.inj hc
  simp [isDigit, h]

theorem noDigit_nil : NoDigit [] := by simp [NoDigit]

theorem digitValue_le {b : UInt8} {d : Nat} (h : digitValue 10 b = some d) : d ≤ 9 := by
  obtain ⟨hlt, rfl⟩ := Option.ite_some_none_eq_some.mp h
  omega

/-- What `integerLoop` takes off the input. -/
theorem integerLoop_eq (max i k : Nat) (s : Bytes) {n k' : Nat} {big : Bool} {rest : Bytes}
    (h : integerLoop max i k s = (n, k', big, rest)) :
    ∃ d, AllDigits d ∧ s = d ++ rest ∧ n = digitsFrom i d ∧ (i ≤ max → n ≤ max) ∧
      (big = true → ∃ b t v, rest = b :: t ∧ digitValue 10 b = some v ∧ max < n * 10 + v) ∧
      (big = false → NoDigit rest) := by
  have hall : AllDigits [] := by simp [AllDigits]
  induction s generalizing i k with
  | nil =>
    obtain ⟨rfl, -, rfl, rfl⟩ : i = n ∧ k = k' ∧ false = big ∧ [] = rest := by
      simpa [integerLoop] using h
    exact ⟨[], hall, rfl, rfl, id, by simp, fun _ => noDigit_nil⟩
  | cons b s ih =>
    rw [integerLoop] at h
    split at h
    · rename_i hb
      obtain ⟨rfl, -, rfl, rfl⟩ : i = n ∧ k = k' ∧ false = big ∧ b :: s = rest := by simpa using h
      exact ⟨[], hall, rfl, rfl, id, by simp, fun _ => noDigit_cons hb s⟩
    rename_i v hb
    split at h
    · rename_i hmax
      obtain ⟨rfl, -, rfl, rfl⟩ : i = n ∧ k = k' ∧ true = big ∧ b :: s = rest := by simpa using h
      exact ⟨[], hall, rfl, rfl, id, fun _ => ⟨b, s, v, rfl, hb, hmax⟩, by simp⟩
    · rename_i hmax
      obtain ⟨d, hd, rfl, hn, hle, hbig, hsmall⟩ := ih _ _ h
      refine ⟨b :: d, hd.cons (isDigit_of_digitValue hb), rfl, ?_, fun _ => hle (by omega), hbig,
        hsmall⟩
      rw [hn, digitsFrom_cons hb]

/-- Digits that make a number within the bound are all taken. -/
theorem integerLoop_digits {max : Nat} {rest : Bytes} (hrest : NoDigit rest) {d : Bytes}
    (hd : AllDigits d) (i k : Nat) (hmax : digitsFrom i d ≤ max) :
    integerLoop max i k (d ++ rest) = (digitsFrom i d, k + d.length, false, rest) := by
  induction d generalizing i k with
  | nil =>
    cases rest with
    | nil => rfl
    | cons b rest =>
      have hb : digitValue 10 b = none := by simpa [isDigit] using hrest b rfl
      simp [integerLoop, hb]
  | cons b d ih =>
    obtain ⟨hb, hd⟩ := List.forall_mem_cons.mp hd
    obtain ⟨v, hv⟩ := Option.isSome_iff_exists.mp hb
    rw [digitsFrom_cons hv] at hmax ⊢
    have hstep : ¬ max < i * 10 + v := by
      have := le_digitsFrom (i * 10 + v) d
      omega
    rw [List.cons_append, integerLoop, hv]
    simp only [if_neg hstep]
    rw [ih hd _ _ hmax, List.length_cons, Nat.add_assoc, Nat.add_comm 1]

theorem bigLoop_eq_some {tooBig : Bytes → Bool} {taken s rest : Bytes}
    (h : bigLoop tooBig taken s = some rest) :
    ∃ d, AllDigits d ∧ s = d ++ rest ∧ NoDigit rest := by
  have hall : AllDigits [] := by simp [AllDigits]
  induction s generalizing taken with
  | nil =>
    obtain rfl := Option.some.inj h
    exact ⟨[], hall, rfl, noDigit_nil⟩
  | cons b s ih =>
    rw [bigLoop] at h
    split at h
    · rename_i hb
      split at h
      · cases h
      obtain ⟨d, hd, rfl, hrest⟩ := ih h
      exact ⟨b :: d, hd.cons hb, rfl, hrest⟩
    · rename_i hb
      obtain rfl := Option.some.inj h
      refine ⟨[], hall, rfl, ?_⟩
      intro c hc
      obtain rfl := Option.some.inj hc
      exact Bool.eq_false_of_not_eq_true hb

theorem fractionLoop_eq (i64 places k : Nat) (s : Bytes) :
    ∃ d, AllDigits d ∧ s = d ++ (fractionLoop i64 places k s).2.2.2 := by
  induction s generalizing i64 places k with
  | nil => exact ⟨[], by simp [AllDigits], rfl⟩
  | cons b s ih =>
    rw [fractionLoop]
    split
    · exact ⟨[], by simp [AllDigits], rfl⟩
    rename_i v hb
    split
    · exact ⟨[], by simp [AllDigits], rfl⟩
    · obtain ⟨d, hd, hs⟩ := ih (i64 * 10 + v) (places + 1) (if i64 * 10 + v ≠ 0 then k + 1 else k)
      exact ⟨b :: d, hd.cons (isDigit_of_digitValue hb), by rw [List.cons_append, ← hs]⟩

theorem decimalLoop_eq (positive : Bool) (places k : Nat) (s : Bytes) :
    ∃ d, AllDigits d ∧ s = d ++ (decimalLoop positive places k s).2 ∧
      NoDigit (decimalLoop positive places k s).2 := by
  induction s generalizing positive places k with
  | nil => exact ⟨[], by simp [AllDigits], rfl, noDigit_nil⟩
  | cons b s ih =>
    rw [decimalLoop]
    split
    · rename_i hb
      exact ⟨[], by simp [AllDigits], rfl, noDigit_cons hb s⟩
    rename_i v hb
    split
    · obtain ⟨d, hd, hs, hrest⟩ := ih (positive || v ≠ 0) (places + 1)
        (if (positive || v ≠ 0) = true then k + 1 else k)
      exact ⟨b :: d, hd.cons (isDigit_of_digitValue hb), by rw [List.cons_append, ← hs], hrest⟩
    · obtain ⟨d, hd, hs, hrest⟩ := ih positive places k
      exact ⟨b :: d, hd.cons (isDigit_of_digitValue hb), by rw [List.cons_append, ← hs], hrest⟩

theorem exponentLoop_eq_some {maxExp exp : Nat} {s rest : Bytes}
    (h : exponentLoop maxExp exp s = some rest) : ∃ d, AllDigits d ∧ s = d ++ rest := by
  induction s generalizing exp with
  | nil =>
    obtain rfl := Option.some.inj h
    exact ⟨[], by simp [AllDigits], rfl⟩
  | cons b s ih =>
    rw [exponentLoop] at h
    split at h
    · obtain rfl := Option.some.inj h
      exact ⟨[], by simp [AllDigits], rfl⟩
    rename_i v hb
    split at h
    · cases h
    · obtain ⟨d, hd, rfl⟩ := ih h
      exact ⟨b :: d, hd.cons (isDigit_of_digitValue hb), rfl⟩

theorem parseExponentSign_eq (s : Bytes) :
    ∃ sign, (sign = [] ∨ sign = [43] ∨ sign = [45]) ∧ s = sign ++ (parseExponentSign s).2 := by
  unfold parseExponentSign
  split
  · exact ⟨[43], by simp, rfl⟩
  · exact ⟨[45], by simp, rfl⟩
  · exact ⟨[], by simp, rfl⟩

theorem parseExponent_eq_some {places : Nat} {s rest : Bytes}
    (h : parseExponent places s = some rest) :
    ∃ sign d, (sign = [] ∨ sign = [43] ∨ sign = [45]) ∧ Digits d ∧ s = sign ++ d ++ rest := by
  obtain ⟨sign, hsign, hs⟩ := parseExponentSign_eq s
  unfold parseExponent at h
  split at h
  · cases h
  rename_i negative b s1 heq
  rw [heq] at hs
  split at h
  · cases h
  rename_i v hb
  have hdigits : ∃ d, AllDigits d ∧ s1 = d ++ rest := by
    split at h
    · obtain rfl := Option.some.inj h
      exact ⟨s1.takeWhile (isDigit 10), List.all_eq_true.mp List.all_takeWhile,
        List.takeWhile_append_dropWhile.symm⟩
    · exact exponentLoop_eq_some h
  obtain ⟨d, hd, rfl⟩ := hdigits
  exact ⟨sign, b :: d, hsign, ⟨by simp, hd.cons (isDigit_of_digitValue hb)⟩, by simpa using hs⟩

theorem parseFraction_eq_some {i64 k places : Nat} {useDouble : Bool} {s rest : Bytes}
    (h : parseFraction i64 k useDouble s = some (places, rest)) :
    ∃ d, Digits d ∧ s = d ++ rest := by
  unfold parseFraction at h
  split at h
  · cases h
  rename_i b s
  split at h
  · cases h
  rename_i hb
  have hdigit : isDigit 10 b = true := by simpa using hb
  -- The digits end where `decimalLoop` stops, so the one in front has been taken.
  have hdigits : ∃ d, AllDigits d ∧ b :: s = d ++ rest ∧ NoDigit rest := by
    split at h
    · obtain ⟨d, hd, hs, hrest⟩ := decimalLoop_eq true 0 k (b :: s)
      rw [Option.some.inj h] at hs hrest
      exact ⟨d, hd, hs, hrest⟩
    · obtain ⟨d1, hd1, hs1⟩ := fractionLoop_eq i64 0 k (b :: s)
      generalize fractionLoop i64 0 k (b :: s) = r at h hs1
      obtain ⟨i64', places', k', s'⟩ := r
      obtain ⟨d2, hd2, hs2, hrest⟩ := decimalLoop_eq (i64' ≠ 0) places' k' s'
      rw [Option.some.inj h] at hs2 hrest
      exact ⟨d1 ++ d2, hd1.append hd2, by rw [hs1, hs2, List.append_assoc], hrest⟩
  obtain ⟨d, hd, hs, hrest⟩ := hdigits
  refine ⟨d, ⟨?_, hd⟩, hs⟩
  rintro rfl
  rw [hrest b (by rw [← List.nil_append rest, ← hs]; rfl)] at hdigit
  cases hdigit

theorem parsePoint_eq_some {i64 k places : Nat} {useDouble double : Bool} {s rest : Bytes}
    (h : parsePoint i64 k useDouble s = some (double, places, rest)) :
    ∃ f, FractionText f ∧ s = f ++ rest ∧
      ((f = [] ∧ double = useDouble) ∨ (f ≠ [] ∧ double = true)) := by
  unfold parsePoint at h
  split at h
  · obtain ⟨r, hr, heq⟩ := Option.map_eq_some_iff.mp h
    obtain ⟨rfl, rfl⟩ := Prod.mk.inj heq
    obtain ⟨d, hd, rfl⟩ := parseFraction_eq_some hr
    exact ⟨46 :: d, .inr ⟨d, hd, rfl⟩, rfl, .inr ⟨by simp, rfl⟩⟩
  · obtain ⟨rfl, -, rfl⟩ : useDouble = double ∧ 0 = places ∧ s = rest := by simpa using h
    exact ⟨[], .inl rfl, rfl, .inl ⟨rfl, rfl⟩⟩

/-- After the integer part: a fraction and an exponent, and the number is a double if it was one
or if there is any of them. -/
theorem parseNumberEnd_eq_some {minus useDouble : Bool} {i64 k : Nat} {s rest : Bytes} {v : Json}
    (h : parseNumberEnd minus i64 k useDouble s = some (v, rest)) :
    ∃ f e, FractionText f ∧ ExponentText e ∧ s = f ++ e ++ rest ∧
      ((v = .double ∧ (useDouble = true ∨ f ++ e ≠ [])) ∨
        (v = signed minus i64 ∧ useDouble = false ∧ f = [] ∧ e = [])) := by
  unfold parseNumberEnd at h
  split at h
  · cases h
  rename_i double places s1 hpoint
  obtain ⟨f, hf, rfl, hdouble⟩ := parsePoint_eq_some hpoint
  have hexponent : ∀ b s2, b = 69 ∨ b = 101 → s1 = b :: s2 →
      (parseExponent places s2).map (fun s => (Json.double, s)) = some (v, rest) →
      ∃ f' e, FractionText f' ∧ ExponentText e ∧ f ++ s1 = f' ++ e ++ rest ∧
        ((v = .double ∧ (useDouble = true ∨ f' ++ e ≠ [])) ∨
          (v = signed minus i64 ∧ useDouble = false ∧ f' = [] ∧ e = [])) := by
    rintro b s2 hb rfl h
    obtain ⟨s3, hs3, heq⟩ := Option.map_eq_some_iff.mp h
    obtain ⟨rfl, rfl⟩ := Prod.mk.inj heq
    obtain ⟨sign, d, hsign, hd, rfl⟩ := parseExponent_eq_some hs3
    exact ⟨f, b :: sign ++ d, hf, .inr ⟨b, sign, d, hb, hsign, hd, rfl⟩, by simp,
      .inl ⟨rfl, .inr (by simp)⟩⟩
  split at h
  · exact hexponent 69 _ (by simp) rfl h
  · exact hexponent 101 _ (by simp) rfl h
  -- No exponent: only a fraction makes it a double.
  refine ⟨f, [], hf, .inl rfl, ?_⟩
  split at h
  · rename_i hd
    obtain ⟨rfl, rfl⟩ := Prod.mk.inj (Option.some.inj h)
    refine ⟨by simp, .inl ⟨rfl, ?_⟩⟩
    obtain ⟨-, rfl⟩ | ⟨hne, -⟩ := hdouble
    · exact .inl hd
    · exact .inr (by simpa using hne)
  · rename_i hd
    obtain ⟨rfl, rfl⟩ := Prod.mk.inj (Option.some.inj h)
    refine ⟨by simp, .inr ⟨rfl, ?_⟩⟩
    obtain ⟨rfl, rfl⟩ | ⟨-, hdouble⟩ := hdouble
    · exact ⟨by simpa using hd, rfl, rfl⟩
    · exact absurd hdouble hd

theorem parseMinus_eq {s s' : Bytes} {minus : Bool} (h : parseMinus s = (minus, s')) :
    s = sign minus ++ s' := by
  unfold parseMinus at h
  split at h
  · obtain ⟨rfl, rfl⟩ := Prod.mk.inj h
    rfl
  · obtain ⟨rfl, rfl⟩ := Prod.mk.inj h
    rfl

theorem integerText_digits {b : UInt8} {v : Nat} (hb : digitValue 10 b = some v) (h0 : b ≠ 48)
    {d : Bytes} (hd : AllDigits d) : IntegerText (digitsFrom v d) (b :: d) := by
  rw [← ofDigits_cons hb]
  exact .digits ⟨by simp, hd.cons (isDigit_of_digitValue hb)⟩ (by simpa using h0)

/-- What `parseNumber` takes off the input is a number, with the value it has. -/
theorem parseNumber_eq_some {tooBig : Nat → Bytes → Bool} {s rest : Bytes} {v : Json}
    (h : parseNumber tooBig s = some (v, rest)) : ∃ t, NumberText v t ∧ s = t ++ rest := by
  unfold parseNumber at h
  split at h
  · cases h
  · rename_i minus s1 hminus
    obtain rfl := parseMinus_eq hminus
    obtain ⟨f, e, hf, he, rfl, hv⟩ := parseNumberEnd_eq_some h
    obtain ⟨rfl, hne⟩ | ⟨rfl, -, rfl, rfl⟩ := hv
    · exact ⟨_, .double minus .zero hf he (by simpa using hne), by simp⟩
    · exact ⟨_, .integer minus .zero (Nat.zero_le _), by simp⟩
  · rename_i minus b s1 h0 hminus
    obtain rfl := parseMinus_eq hminus
    split at h
    · cases h
    rename_i d hb
    generalize hloop : integerLoop (maxInteger minus) d 0 s1 = r at h
    obtain ⟨n, k, big, s2⟩ := r
    obtain ⟨ds, hds, rfl, rfl, hle, hbig, -⟩ := integerLoop_eq _ _ _ _ hloop
    have hd : d ≤ maxInteger minus := by
      have h9 : 9 ≤ maxInteger minus := by cases minus <;> decide
      exact Nat.le_trans (digitValue_le hb) h9
    dsimp only at h
    split at h
    · rename_i hb1
      obtain ⟨b', t', v', rfl, hv', hmax⟩ := hbig hb1
      split at h
      · cases h
      rename_i s3 hs3
      obtain ⟨ds', hds', heq, hrest⟩ := bigLoop_eq_some hs3
      obtain ⟨f, e, hf, he, rfl, hv⟩ := parseNumberEnd_eq_some h
      have hdouble : v = .double := by
        obtain ⟨hv, -⟩ | ⟨-, hfalse, -⟩ := hv
        · exact hv
        · cases hfalse
      -- The digit that did not fit is the first one that `bigLoop` takes.
      cases ds' with
      | nil =>
        have hfirst := hrest b' (by rw [← List.nil_append (f ++ e ++ rest), ← heq]; rfl)
        rw [isDigit_of_digitValue hv'] at hfirst
        cases hfirst
      | cons b'' ds' =>
        obtain ⟨rfl, rfl⟩ := List.cons.inj heq
        have hi := integerText_digits hb h0 (hds.append hds')
        have hgreat : maxInteger minus < digitsFrom d (ds ++ b' :: ds') := by
          rw [digitsFrom_append, digitsFrom_cons hv']
          exact Nat.lt_of_lt_of_le hmax (le_digitsFrom _ _)
        rw [hdouble]
        exact ⟨_, .double minus hi hf he (.inl hgreat), by simp⟩
    · rename_i hb1
      obtain ⟨f, e, hf, he, rfl, hv⟩ := parseNumberEnd_eq_some h
      have hi := integerText_digits hb h0 hds
      obtain ⟨rfl, hne⟩ | ⟨rfl, -, rfl, rfl⟩ := hv
      · exact ⟨_, .double minus hi hf he (.inr (by simpa using hne)), by simp⟩
      · exact ⟨_, .integer minus hi (hle hd), by simp⟩

/-- What may not follow a number: it would go on. -/
def Stops (rest : Bytes) : Prop :=
  ∀ b, rest.head? = some b → isDigit 10 b = false ∧ b ≠ 46 ∧ b ≠ 69 ∧ b ≠ 101

theorem Stops.noDigit {rest : Bytes} (h : Stops rest) : NoDigit rest := fun b hb => (h b hb).1

theorem parseNumberEnd_stops {rest : Bytes} (h : Stops rest) (minus : Bool) (i64 k : Nat) :
    parseNumberEnd minus i64 k false rest = some (signed minus i64, rest) := by
  cases rest with
  | nil => rfl
  | cons b rest =>
    obtain ⟨-, hpoint, hE, he⟩ := h b rfl
    have hfraction : parsePoint i64 k false (b :: rest) = some (false, 0, b :: rest) := by
      unfold parsePoint
      split
      · rename_i heq
        exact absurd (List.cons.inj heq).1 hpoint
      · rfl
    unfold parseNumberEnd
    rw [hfraction]
    dsimp only
    split
    · rename_i heq
      exact absurd (List.cons.inj heq).1 hE
    · rename_i heq
      exact absurd (List.cons.inj heq).1 he
    · rfl

theorem parseMinus_append (minus : Bool) {b : UInt8} (hb : b ≠ 45) (s : Bytes) :
    parseMinus (sign minus ++ b :: s) = (minus, b :: s) := by
  cases minus with
  | true => rfl
  | false =>
    show parseMinus (b :: s) = (false, b :: s)
    unfold parseMinus
    split
    · rename_i heq
      exact absurd (List.cons.inj heq).1 hb
    · rfl

/-- An integer that is kept as one is read to its end. -/
theorem parseNumber_integer (tooBig : Nat → Bytes → Bool) (minus : Bool) {n : Nat} {s : Bytes}
    (h : IntegerText n s) (hn : n ≤ maxInteger minus) {rest : Bytes} (hrest : Stops rest) :
    parseNumber tooBig (sign minus ++ s ++ rest) = some (signed minus n, rest) := by
  cases h with
  | zero =>
    have hminus : parseMinus (sign minus ++ [48] ++ rest) = (minus, 48 :: rest) := by
      simpa using parseMinus_append minus (b := 48) (by decide) rest
    unfold parseNumber
    rw [hminus]
    exact parseNumberEnd_stops hrest minus 0 0
  | digits hd h0 =>
    obtain ⟨hne, hd⟩ := hd
    obtain ⟨b, d, rfl⟩ := List.exists_cons_of_ne_nil hne
    obtain ⟨hb, hd⟩ := List.forall_mem_cons.mp hd
    obtain ⟨v, hv⟩ := Option.isSome_iff_exists.mp hb
    have h48 : b ≠ 48 := by simpa using h0
    have hsign : b ≠ 45 := by
      rintro rfl
      cases hv
    have hminus : parseMinus (sign minus ++ b :: d ++ rest) = (minus, b :: (d ++ rest)) := by
      simpa using parseMinus_append minus hsign (d ++ rest)
    rw [ofDigits_cons hv] at hn ⊢
    unfold parseNumber
    rw [hminus]
    split
    · rename_i heq
      cases heq
    · rename_i heq
      obtain ⟨-, heq⟩ := Prod.mk.inj heq
      exact absurd (List.cons.inj heq).1 h48
    · rename_i heq
      obtain ⟨rfl, hcons⟩ := Prod.mk.inj heq
      obtain ⟨rfl, rfl⟩ := List.cons.inj hcons
      rw [hv]
      dsimp only
      rw [integerLoop_digits hrest.noDigit hd v 0 hn]
      exact parseNumberEnd_stops hrest minus _ _

end GenericReader

end O2Chat.Common
