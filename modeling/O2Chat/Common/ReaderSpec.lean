import O2Chat.Common.JsonText

/-!
# What rapidjson's reader accepts

`Document::Parse` against the grammar of `JsonText`: a value it returns stands in the text, and a
text of a value without doubles is accepted with that value. What `rapidjson::Writer` writes is
such a text.
-/
namespace O2Chat.Common

namespace Json

theorem Blank.nil : Blank [] := by simp [Blank]

theorem NumberText.exists_cons {v : Json} {t : Bytes} (h : NumberText v t) :
    ∃ b s, t = b :: s ∧ (b = 45 ∨ isDigit 10 b = true) := by
  have hint : ∀ {n : Nat} {i : Bytes}, IntegerText n i → ∃ b s, i = b :: s ∧ isDigit 10 b = true := by
    intro n i hi
    cases hi with
    | zero => exact ⟨48, [], rfl, rfl⟩
    | digits hd _ =>
      obtain ⟨b, s, rfl⟩ := List.exists_cons_of_ne_nil hd.1
      exact ⟨b, s, rfl, hd.2 b List.mem_cons_self⟩
  cases h with
  | integer minus hi _ =>
    obtain ⟨b, s, rfl, hb⟩ := hint hi
    cases minus with
    | true => exact ⟨45, b :: s, rfl, .inl rfl⟩
    | false => exact ⟨b, s, rfl, .inr hb⟩
  | @double minus n i f e hi _ _ _ =>
    obtain ⟨b, s, rfl, hb⟩ := hint hi
    cases minus with
    | true => exact ⟨45, b :: s ++ f ++ e, rfl, .inl rfl⟩
    | false => exact ⟨b, s ++ f ++ e, rfl, .inr hb⟩

/-- The bytes a number begins with are all below the letters and above the quotes. -/
theorem number_byte : ∀ b : UInt8, b = 45 ∨ isDigit 10 b = true → 45 ≤ b.toNat ∧ b.toNat ≤ 57 :=
  forall_byte (by decide +kernel)

theorem ne_of_number_byte {b : UInt8} (hb : b = 45 ∨ isDigit 10 b = true) {c : UInt8}
    (hc : c.toNat < 45 ∨ 57 < c.toNat) : b ≠ c := by
  rintro rfl
  have := number_byte b hb
  omega

/-- A value begins with its first byte: a blank or a closing bracket is none. -/
theorem Text.exists_cons {v : Json} {t : Bytes} (h : Text v t) :
    ∃ b s, t = b :: s ∧ ¬ IsBlank b ∧ b ≠ 93 ∧ b ≠ 125 := by
  have hbyte : ∀ {b : UInt8} {s : Bytes}, ¬ IsBlank b ∧ b ≠ 93 ∧ b ≠ 125 →
      ∃ b' s', b :: s = b' :: s' ∧ ¬ IsBlank b' ∧ b' ≠ 93 ∧ b' ≠ 125 :=
    fun hb => ⟨_, _, rfl, hb⟩
  cases h with
  | number h =>
    obtain ⟨b, s, rfl, hb⟩ := h.exists_cons
    have hne {c : UInt8} (hc : c.toNat < 45 ∨ 57 < c.toNat) : b ≠ c := ne_of_number_byte hb hc
    refine hbyte ⟨?_, hne (by decide), hne (by decide)⟩
    rintro (rfl | rfl | rfl | rfl)
    all_goals exact hne (by decide) rfl
  | null | true | false => exact hbyte (by simp [IsBlank]; decide)
  | _ => exact hbyte (by simp [IsBlank])

theorem ElementsText.exists_cons {elements : List Json} {t : Bytes} (h : ElementsText elements t) :
    ∃ b s, t = b :: s ∧ ¬ IsBlank b ∧ b ≠ 93 := by
  cases h with
  | last hv _ | cons hv _ _ _ =>
    obtain ⟨b, s, rfl, hblank, h93, -⟩ := hv.exists_cons
    exact ⟨b, _, rfl, hblank, h93⟩

theorem MembersText.exists_cons {members : List (Bytes × Json)} {t : Bytes}
    (h : MembersText members t) : ∃ s, t = 34 :: s := by
  cases h <;> exact ⟨_, rfl⟩

/-! ## A text has no NUL -/

theorem Blank.nul_notMem {w : Bytes} (hw : Blank w) : 0 ∉ w := by
  intro h
  rcases hw 0 h with h | h | h | h <;> cases h

theorem digits_nul_notMem {s : Bytes} (hs : ∀ b ∈ s, isDigit 10 b = true) : 0 ∉ s := by
  intro h
  have := hs 0 h
  revert this
  decide

theorem hex4_nul_notMem {u : Bytes} {codepoint : Nat}
    (hu : GenericReader.parseHex4 u = some (codepoint, [])) : 0 ∉ u := by
  match u with
  | [] | [_] | [_, _] | [_, _, _] => simp [GenericReader.parseHex4] at hu
  | a :: b :: c :: d :: u =>
    simp only [GenericReader.parseHex4, Option.bind_eq_bind, Option.pure_def,
      Option.bind_eq_some_iff, Option.some.injEq, Prod.mk.injEq] at hu
    obtain ⟨a', ha, b', hb, c', hc, d', hd, -, rfl⟩ := hu
    have hne {x : UInt8} {n : Nat} (hx : digitValue 16 x = some n) : ¬ (0 = x) := by
      rintro rfl
      cases hx
    simp [hne ha, hne hb, hne hc, hne hd]

theorem StringText.nul_notMem {s t : Bytes} (h : StringText s t) : 0 ∉ t := by
  induction h with
  | nil => exact List.not_mem_nil
  | @plain c _ _ hc _ _ _ ih =>
    have hne : ¬ (0 = c) := by
      rintro rfl
      exact absurd hc (by decide)
    simp [hne, ih]
  | @escape e _ _ _ he _ ih =>
    have hne : ¬ (0 = e) := by
      rintro rfl
      cases he
    simp [hne, ih]
  | unicode hu _ _ ih => simp [hex4_nul_notMem hu, ih]
  | surrogates hu _ hv _ _ ih => simp [hex4_nul_notMem hu, hex4_nul_notMem hv, ih]

theorem NumberText.nul_notMem {v : Json} {t : Bytes} (h : NumberText v t) : 0 ∉ t := by
  have hint : ∀ {n : Nat} {i : Bytes}, IntegerText n i → 0 ∉ i := by
    intro n i hi
    cases hi with
    | zero => simp
    | digits hd _ => exact digits_nul_notMem hd.2
  have hsign : ∀ minus : Bool, 0 ∉ sign minus := by decide
  cases h with
  | integer minus hi _ => simp [hsign minus, hint hi]
  | @double minus n i f e hi hf he _ =>
    have hf : 0 ∉ f := by
      rcases hf with rfl | ⟨d, hd, rfl⟩
      · exact List.not_mem_nil
      · simp [digits_nul_notMem hd.2]
    have he : 0 ∉ e := by
      obtain rfl | ⟨e, s, d, he, hs, hd, rfl⟩ := he
      · exact List.not_mem_nil
      · rcases he with rfl | rfl <;> rcases hs with rfl | rfl | rfl <;> simp [digits_nul_notMem hd.2]
    simp [hsign minus, hint hi, hf, he]

mutual

theorem Text.nul_notMem : ∀ {v : Json} {t : Bytes}, Text v t → 0 ∉ t
  | _, _, .null => by decide
  | _, _, .true => by decide
  | _, _, .false => by decide
  | _, _, .number h => h.nul_notMem
  | _, _, .string h => by simp [h.nul_notMem]
  | _, _, .emptyObject hw => by simp [hw.nul_notMem]
  | _, _, .object hw h => by simp [hw.nul_notMem, h.nul_notMem]
  | _, _, .emptyArray hw => by simp [hw.nul_notMem]
  | _, _, .array hw h => by simp [hw.nul_notMem, h.nul_notMem]

theorem MembersText.nul_notMem : ∀ {members : List (Bytes × Json)} {t : Bytes},
    MembersText members t → 0 ∉ t
  | _, _, .last hn h1 h2 hv h3 => by simp [hn.nul_notMem, h1.nul_notMem, h2.nul_notMem, hv.nul_notMem, h3.nul_notMem]
  | _, _, .cons hn h1 h2 hv h3 h4 h => by
    simp [hn.nul_notMem, h1.nul_notMem, h2.nul_notMem, hv.nul_notMem, h3.nul_notMem, h4.nul_notMem, h.nul_notMem]

theorem ElementsText.nul_notMem : ∀ {elements : List Json} {t : Bytes}, ElementsText elements t → 0 ∉ t
  | _, _, .last hv hw => by simp [hv.nul_notMem, hw.nul_notMem]
  | _, _, .cons hv h1 h2 h => by simp [hv.nul_notMem, h1.nul_notMem, h2.nul_notMem, h.nul_notMem]

end

theorem Text.cstr_eq {v : Json} {t : Bytes} (h : Text v t) : Common.cstr t = t := by
  apply List.takeWhile_eq_self_iff.mpr
  intro b hb
  have hne : b ≠ 0 := by
    rintro rfl
    exact h.nul_notMem hb
  simpa using hne

/-- No number in the value is a double. -/
inductive Integral : Json → Prop
  | null : Integral .null
  | bool (b : Bool) : Integral (.bool b)
  | int (n : Int) : Integral (.int n)
  | string (s : Bytes) : Integral (.string s)
  | array {elements : List Json} (h : ∀ v ∈ elements, Integral v) : Integral (.array elements)
  | object {members : List (Bytes × Json)} (h : ∀ m ∈ members, Integral m.2) :
    Integral (.object members)

end Json

namespace GenericReader

open Json

/-! ## What is accepted is a text of the value -/

section
variable {tooBig : Nat → Bytes → Bool}

/-- What the three functions that call each other take off the input with this fuel. -/
structure Sound (tooBig : Nat → Bytes → Bool) (fuel : Nat) : Prop where
  value : ∀ {s v rest}, parseValue tooBig fuel s = some (v, rest) → ∃ t, Text v t ∧ s = t ++ rest
  members : ∀ {s members rest}, parseMembers tooBig fuel s = some (members, rest) →
    ∃ t, MembersText members t ∧ s = t ++ 125 :: rest
  elements : ∀ {s elements rest}, parseElements tooBig fuel s = some (elements, rest) →
    ∃ t, ElementsText elements t ∧ s = t ++ 93 :: rest

theorem Sound.parseValue {fuel : Nat} (ih : Sound tooBig fuel) {s rest : Bytes} {v : Json}
    (h : parseValue tooBig (fuel + 1) s = some (v, rest)) : ∃ t, Text v t ∧ s = t ++ rest := by
  unfold GenericReader.parseValue at h
  split at h
  · obtain ⟨rfl, rfl⟩ := parseLiteral_eq_some h
    exact ⟨_, .null, rfl⟩
  · obtain ⟨rfl, rfl⟩ := parseLiteral_eq_some h
    exact ⟨_, .true, rfl⟩
  · obtain ⟨rfl, rfl⟩ := parseLiteral_eq_some h
    exact ⟨_, .false, rfl⟩
  · obtain ⟨r, hr, heq⟩ := Option.map_eq_some_iff.mp h
    obtain ⟨rfl, rfl⟩ := Prod.mk.inj heq
    obtain ⟨t, rfl, ht⟩ := parseString_eq_some hr
    exact ⟨_, .string ht, by simp⟩
  · rename_i s1
    obtain ⟨w, hw, hs⟩ := skipWhitespace_eq s1
    split at h
    · rename_i s2 heq
      obtain ⟨rfl, rfl⟩ := Prod.mk.inj (Option.some.inj h)
      exact ⟨_, .emptyObject hw, by rw [hs, heq]; simp⟩
    · obtain ⟨r, hr, heq⟩ := Option.map_eq_some_iff.mp h
      obtain ⟨rfl, rfl⟩ := Prod.mk.inj heq
      obtain ⟨t, ht, heq⟩ := ih.members hr
      exact ⟨_, .object hw ht, by rw [hs, heq]; simp⟩
  · rename_i s1
    obtain ⟨w, hw, hs⟩ := skipWhitespace_eq s1
    split at h
    · rename_i s2 heq
      obtain ⟨rfl, rfl⟩ := Prod.mk.inj (Option.some.inj h)
      exact ⟨_, .emptyArray hw, by rw [hs, heq]; simp⟩
    · obtain ⟨r, hr, heq⟩ := Option.map_eq_some_iff.mp h
      obtain ⟨rfl, rfl⟩ := Prod.mk.inj heq
      obtain ⟨t, ht, heq⟩ := ih.elements hr
      exact ⟨_, .array hw ht, by rw [hs, heq]; simp⟩
  · obtain ⟨t, ht, rfl⟩ := parseNumber_eq_some h
    exact ⟨t, .number ht, rfl⟩

theorem Sound.parseMembers {fuel : Nat} (ih : Sound tooBig fuel) {s rest : Bytes}
    {members : List (Bytes × Json)}
    (h : parseMembers tooBig (fuel + 1) s = some (members, rest)) :
    ∃ t, MembersText members t ∧ s = t ++ 125 :: rest := by
  unfold GenericReader.parseMembers at h
  split at h
  case h_2 => cases h
  split at h
  · cases h
  rename_i name s2 hname
  obtain ⟨n, rfl, hn⟩ := parseString_eq_some hname
  obtain ⟨w1, hw1, hs2⟩ := skipWhitespace_eq s2
  split at h
  case h_2 => cases h
  rename_i s3 hcolon
  obtain ⟨w2, hw2, hs3⟩ := skipWhitespace_eq s3
  split at h
  · cases h
  rename_i v s4 hvalue
  obtain ⟨t, ht, hs3'⟩ := ih.value hvalue
  obtain ⟨w3, hw3, hs4⟩ := skipWhitespace_eq s4
  split at h
  · rename_i s5 hcomma
    obtain ⟨w4, hw4, hs5⟩ := skipWhitespace_eq s5
    obtain ⟨r, hr, heq⟩ := Option.map_eq_some_iff.mp h
    obtain ⟨rfl, rfl⟩ := Prod.mk.inj heq
    obtain ⟨ts, hts, heq⟩ := ih.members hr
    refine ⟨_, .cons hn hw1 hw2 ht hw3 hw4 hts, ?_⟩
    rw [hs2, hcolon, hs3, hs3', hs4, hcomma, hs5, heq]
    simp
  · rename_i s5 hbrace
    obtain ⟨rfl, rfl⟩ := Prod.mk.inj (Option.some.inj h)
    refine ⟨_, .last hn hw1 hw2 ht hw3, ?_⟩
    rw [hs2, hcolon, hs3, hs3', hs4, hbrace]
    simp
  · cases h

theorem Sound.parseElements {fuel : Nat} (ih : Sound tooBig fuel) {s rest : Bytes}
    {elements : List Json} (h : parseElements tooBig (fuel + 1) s = some (elements, rest)) :
    ∃ t, ElementsText elements t ∧ s = t ++ 93 :: rest := by
  unfold GenericReader.parseElements at h
  split at h
  · cases h
  rename_i v s1 hvalue
  obtain ⟨t, ht, rfl⟩ := ih.value hvalue
  obtain ⟨w1, hw1, hs1⟩ := skipWhitespace_eq s1
  split at h
  · rename_i s2 hcomma
    obtain ⟨w2, hw2, hs2⟩ := skipWhitespace_eq s2
    obtain ⟨r, hr, heq⟩ := Option.map_eq_some_iff.mp h
    obtain ⟨rfl, rfl⟩ := Prod.mk.inj heq
    obtain ⟨ts, hts, heq⟩ := ih.elements hr
    refine ⟨_, .cons ht hw1 hw2 hts, ?_⟩
    rw [hs1, hcomma, hs2, heq]
    simp
  · rename_i s2 hbracket
    obtain ⟨rfl, rfl⟩ := Prod.mk.inj (Option.some.inj h)
    refine ⟨_, .last ht hw1, ?_⟩
    rw [hs1, hbracket]
    simp
  · cases h

theorem sound (tooBig : Nat → Bytes → Bool) (fuel : Nat) : Sound tooBig fuel := by
  induction fuel with
  | zero =>
    constructor
    · intro s v rest h
      simp [parseValue] at h
    · intro s members rest h
      simp [parseMembers] at h
    · intro s elements rest h
      simp [parseElements] at h
  | succ fuel ih => exact ⟨ih.parseValue, ih.parseMembers, ih.parseElements⟩

/-! ## A text of a value is accepted -/

theorem stops_blank {w : Bytes} (hw : Blank w) {c : UInt8} (hc : c = 44 ∨ c = 93 ∨ c = 125)
    (rest : Bytes) : Stops (w ++ c :: rest) := by
  intro b hb
  cases w with
  | nil =>
    obtain rfl := Option.some.inj hb
    rcases hc with rfl | rfl | rfl <;> decide
  | cons c' w =>
    obtain rfl := Option.some.inj hb
    rcases hw c' List.mem_cons_self with rfl | rfl | rfl | rfl <;> decide

theorem stops_of_blank {w : Bytes} (hw : Blank w) : Stops w := by
  intro b hb
  rcases hw b (List.mem_of_mem_head? hb) with rfl | rfl | rfl | rfl <;> decide

/-- Blanks in front of a token are skipped. -/
theorem skipWhitespace_token {w : Bytes} (hw : Blank w) {b : UInt8} (hb : ¬ IsBlank b) (s : Bytes) :
    skipWhitespace (w ++ b :: s) = b :: s :=
  (skipWhitespace_append hw _).trans (skipWhitespace_cons hb s)

theorem not_isBlank {b : UInt8} (hb : b = 34 ∨ b = 44 ∨ b = 58 ∨ b = 93 ∨ b = 125) :
    ¬ IsBlank b := by
  unfold IsBlank
  rcases hb with rfl | rfl | rfl | rfl | rfl <;> decide

theorem skipWhitespace_value {w : Bytes} (hw : Blank w) {v : Json} {t : Bytes} (ht : Text v t)
    (s : Bytes) : skipWhitespace (w ++ t ++ s) = t ++ s := by
  obtain ⟨b, t, rfl, hb, -⟩ := ht.exists_cons
  rw [List.append_assoc]
  exact skipWhitespace_token hw hb _

theorem parseValue_number {fuel : Nat} {v : Json} {t rest : Bytes} (h : NumberText v t)
    (hv : Integral v) (hrest : Stops rest) :
    parseValue tooBig (fuel + 1) (t ++ rest) = some (v, rest) := by
  obtain ⟨b, s, rfl, hb⟩ := h.exists_cons
  have hne {c : UInt8} (hc : c.toNat < 45 ∨ 57 < c.toNat) : b ≠ c := ne_of_number_byte hb hc
  have hnumber : parseNumber tooBig (b :: s ++ rest) = some (v, rest) := by
    generalize b :: s = t at h
    cases h with
    | integer minus hi hn => exact parseNumber_integer tooBig minus hi hn hrest
    | double => cases hv
  rw [← hnumber, parseValue]
  all_goals
    intro s' heq
    exact hne (by decide) (List.cons.inj heq).1

theorem parseValue_array {fuel : Nat} {s : Bytes} (h : ∀ s', skipWhitespace s ≠ 93 :: s') :
    parseValue tooBig (fuel + 1) (91 :: s) =
      (parseElements tooBig fuel (skipWhitespace s)).map fun r => (.array r.1, r.2) := by
  rw [parseValue]
  split
  · rename_i heq
    exact absurd heq (h _)
  · rfl

mutual

/-- A text of a value without doubles is read to its end, if a number in front would stop. -/
theorem parseValue_text : ∀ {v : Json} {t : Bytes}, Text v t → Integral v → ∀ fuel : Nat,
    2 * t.length < fuel → ∀ {rest : Bytes}, Stops rest →
    parseValue tooBig fuel (t ++ rest) = some (v, rest)
  | _, _, .null, _, fuel + 1, _, rest, _ => parseLiteral_append "ull" .null rest
  | _, _, .true, _, fuel + 1, _, rest, _ => parseLiteral_append "rue" (.bool true) rest
  | _, _, .false, _, fuel + 1, _, rest, _ => parseLiteral_append "alse" (.bool false) rest
  | _, _, .number h, hv, fuel + 1, _, rest, hrest => parseValue_number h hv hrest
  | _, _, .string h, _, fuel + 1, _, rest, _ => by
    simp [parseValue, parseString_text h]
  | _, _, .emptyObject (w := w) hw, _, fuel + 1, _, rest, _ => by
    have hskip : skipWhitespace (w ++ 125 :: rest) = 125 :: rest :=
      skipWhitespace_token hw (not_isBlank (by simp)) rest
    simp [parseValue, hskip]
  | _, _, .emptyArray (w := w) hw, _, fuel + 1, _, rest, _ => by
    have hskip : skipWhitespace (w ++ 93 :: rest) = 93 :: rest :=
      skipWhitespace_token hw (not_isBlank (by simp)) rest
    simp [parseValue, hskip]
  | _, _, .object (w := w) (t := t) hw h, .object hv, fuel + 1, hfuel, rest, _ => by
    have hmembers := parseMembers_text h hv fuel
      (by simp only [List.length_append, List.length_cons, List.length_nil] at hfuel; omega) rest
    obtain ⟨s, rfl⟩ := h.exists_cons
    have hskip : skipWhitespace (w ++ 34 :: (s ++ 125 :: rest)) = 34 :: (s ++ 125 :: rest) :=
      skipWhitespace_token hw (not_isBlank (by simp)) _
    rw [List.cons_append] at hmembers
    simp [parseValue, hskip, hmembers]
  | _, _, .array (w := w) (t := t) hw h, .array hv, fuel + 1, hfuel, rest, _ => by
    have helements := parseElements_text h hv fuel
      (by simp only [List.length_append, List.length_cons, List.length_nil] at hfuel; omega) rest
    obtain ⟨b, s, rfl, hb, h93⟩ := h.exists_cons
    have hskip : skipWhitespace (w ++ b :: (s ++ 93 :: rest)) = b :: (s ++ 93 :: rest) :=
      skipWhitespace_token hw hb _
    have hne : ∀ s', skipWhitespace (w ++ b :: (s ++ 93 :: rest)) ≠ 93 :: s' := by
      intro s' heq
      rw [hskip] at heq
      exact h93 (List.cons.inj heq).1
    have htext : 91 :: w ++ b :: s ++ [93] ++ rest = 91 :: (w ++ b :: (s ++ 93 :: rest)) := by simp
    rw [htext, parseValue_array hne, hskip, ← List.cons_append, helements]
    rfl

theorem parseMembers_text : ∀ {members : List (Bytes × Json)} {t : Bytes},
    MembersText members t → (∀ m ∈ members, Integral m.2) → ∀ fuel : Nat,
    2 * t.length + 1 < fuel → ∀ rest : Bytes,
    parseMembers tooBig fuel (t ++ 125 :: rest) = some (members, rest)
  | _, _, @MembersText.last name n w1 w2 t w3 v hn h1 h2 hv h3, hm, fuel + 1, hfuel, rest => by
    have hvalue := parseValue_text hv (hm _ List.mem_cons_self) fuel
      (by simp only [List.length_append, List.length_cons] at hfuel; omega)
      (stops_blank h3 (c := 125) (by simp) rest)
    have hname := parseString_text hn (w1 ++ 58 :: (w2 ++ t ++ (w3 ++ 125 :: rest)))
    have htext : 34 :: n ++ 34 :: w1 ++ 58 :: w2 ++ t ++ w3 ++ 125 :: rest =
        34 :: (n ++ 34 :: (w1 ++ 58 :: (w2 ++ t ++ (w3 ++ 125 :: rest)))) := by simp
    have hcolon := skipWhitespace_token h1 (b := 58) (not_isBlank (by simp))
      (w2 ++ t ++ (w3 ++ 125 :: rest))
    have hbrace := skipWhitespace_token h3 (b := 125) (not_isBlank (by simp)) rest
    rw [htext, parseMembers, hname]
    simp only [hcolon, skipWhitespace_value h2 hv, hvalue, hbrace]
  | _, _, @MembersText.cons name n w1 w2 t w3 w4 ts v members hn h1 h2 hv h3 h4 h, hm, fuel + 1,
      hfuel, rest => by
    obtain ⟨hfuelv, hfuels⟩ : 2 * t.length < fuel ∧ 2 * ts.length + 1 < fuel := by
      simp only [List.length_append, List.length_cons] at hfuel
      omega
    have hnext := parseMembers_text h (fun m hmem => hm m (List.mem_cons_of_mem _ hmem)) fuel
      hfuels rest
    have hskip : skipWhitespace (w4 ++ (ts ++ 125 :: rest)) = ts ++ 125 :: rest := by
      obtain ⟨s, rfl⟩ := h.exists_cons
      exact skipWhitespace_token h4 (not_isBlank (by simp)) _
    have hvalue := parseValue_text hv (hm _ List.mem_cons_self) fuel hfuelv
      (stops_blank h3 (c := 44) (by simp) (w4 ++ (ts ++ 125 :: rest)))
    have hname := parseString_text hn
      (w1 ++ 58 :: (w2 ++ t ++ (w3 ++ 44 :: (w4 ++ (ts ++ 125 :: rest)))))
    have htext : 34 :: n ++ 34 :: w1 ++ 58 :: w2 ++ t ++ w3 ++ 44 :: w4 ++ ts ++ 125 :: rest =
        34 :: (n ++ 34 :: (w1 ++ 58 :: (w2 ++ t ++ (w3 ++ 44 :: (w4 ++ (ts ++ 125 :: rest)))))) := by
      simp
    have hcolon := skipWhitespace_token h1 (b := 58) (not_isBlank (by simp))
      (w2 ++ t ++ (w3 ++ 44 :: (w4 ++ (ts ++ 125 :: rest))))
    have hcomma := skipWhitespace_token h3 (b := 44) (not_isBlank (by simp))
      (w4 ++ (ts ++ 125 :: rest))
    rw [htext, parseMembers, hname]
    simp only [hcolon, skipWhitespace_value h2 hv, hvalue, hcomma, hskip, hnext, Option.map_some]

theorem parseElements_text : ∀ {elements : List Json} {t : Bytes},
    ElementsText elements t → (∀ v ∈ elements, Integral v) → ∀ fuel : Nat,
    2 * t.length + 1 < fuel → ∀ rest : Bytes,
    parseElements tooBig fuel (t ++ 93 :: rest) = some (elements, rest)
  | _, _, @ElementsText.last t w v hv hw, hm, fuel + 1, hfuel, rest => by
    have hvalue := parseValue_text hv (hm _ List.mem_cons_self) fuel
      (by simp only [List.length_append] at hfuel; omega)
      (stops_blank hw (c := 93) (by simp) rest)
    have hbracket := skipWhitespace_token hw (b := 93) (not_isBlank (by simp)) rest
    rw [List.append_assoc, parseElements, hvalue]
    simp only [hbracket]
  | _, _, @ElementsText.cons t w1 w2 ts v elements hv h1 h2 h, hm, fuel + 1, hfuel, rest => by
    obtain ⟨hfuelv, hfuels⟩ : 2 * t.length < fuel ∧ 2 * ts.length + 1 < fuel := by
      simp only [List.length_append, List.length_cons] at hfuel
      omega
    have hnext := parseElements_text h (fun v hmem => hm v (List.mem_cons_of_mem _ hmem)) fuel
      hfuels rest
    have hskip : skipWhitespace (w2 ++ (ts ++ 93 :: rest)) = ts ++ 93 :: rest := by
      obtain ⟨b, s, rfl, hb, -⟩ := h.exists_cons
      exact skipWhitespace_token h2 hb _
    have hvalue := parseValue_text hv (hm _ List.mem_cons_self) fuel hfuelv
      (stops_blank h1 (c := 44) (by simp) (w2 ++ (ts ++ 93 :: rest)))
    have htext : t ++ w1 ++ 44 :: w2 ++ ts ++ 93 :: rest =
        t ++ (w1 ++ 44 :: (w2 ++ (ts ++ 93 :: rest))) := by simp
    have hcomma := skipWhitespace_token h1 (b := 44) (not_isBlank (by simp))
      (w2 ++ (ts ++ 93 :: rest))
    rw [htext, parseElements, hvalue]
    simp only [hcomma, hskip, hnext, Option.map_some]

end

/-! ## The fuel is enough -/

theorem length_parseString_lt {s decoded rest : Bytes} (h : parseString s = some (decoded, rest)) :
    rest.length < s.length := by
  obtain ⟨t, rfl, -⟩ := parseString_eq_some h
  simp only [List.length_append, List.length_cons]
  omega

theorem length_parseValue_lt {fuel : Nat} {s rest : Bytes} {v : Json}
    (h : parseValue tooBig fuel s = some (v, rest)) : rest.length < s.length := by
  obtain ⟨t, ht, rfl⟩ := (sound tooBig fuel).value h
  obtain ⟨b, t, rfl, -⟩ := ht.exists_cons
  simp only [List.length_append, List.length_cons]
  omega

/-- With this much fuel, more of it changes nothing. -/
structure Enough (tooBig : Nat → Bytes → Bool) (fuel : Nat) : Prop where
  value : ∀ s, 2 * s.length < fuel → parseValue tooBig (fuel + 1) s = parseValue tooBig fuel s
  members : ∀ s, 2 * s.length + 1 < fuel →
    parseMembers tooBig (fuel + 1) s = parseMembers tooBig fuel s
  elements : ∀ s, 2 * s.length + 1 < fuel →
    parseElements tooBig (fuel + 1) s = parseElements tooBig fuel s

theorem Enough.parseValue {fuel : Nat} (ih : Enough tooBig fuel) (s : Bytes)
    (hfuel : 2 * s.length < fuel + 1) :
    parseValue tooBig (fuel + 1 + 1) s = parseValue tooBig (fuel + 1) s := by
  have hinner : ∀ {b : UInt8} {s1 : Bytes}, s = b :: s1 → 2 * (skipWhitespace s1).length + 1 < fuel := by
    rintro b s1 rfl
    have := length_skipWhitespace_le s1
    rw [List.length_cons] at hfuel
    omega
  unfold GenericReader.parseValue
  split
  case h_5 s1 =>
    have hmembers := ih.members _ (hinner rfl)
    split
    · rfl
    · rw [hmembers]
  case h_6 s1 =>
    have helements := ih.elements _ (hinner rfl)
    split
    · rfl
    · rw [helements]
  all_goals rfl

theorem Enough.parseMembers {fuel : Nat} (ih : Enough tooBig fuel) (s : Bytes)
    (hfuel : 2 * s.length + 1 < fuel + 1) :
    parseMembers tooBig (fuel + 1 + 1) s = parseMembers tooBig (fuel + 1) s := by
  unfold GenericReader.parseMembers
  split
  case h_2 => rfl
  rename_i s1
  cases hname : parseString s1 with
  | none => rfl
  | some r =>
    obtain ⟨name, s2⟩ := r
    have hs2 := length_parseString_lt hname
    have hw2 := length_skipWhitespace_le s2
    dsimp only
    split
    case h_2 => rfl
    rename_i s3 hcolon
    have hw3 := length_skipWhitespace_le s3
    rw [hcolon, List.length_cons] at hw2
    rw [List.length_cons] at hfuel
    rw [ih.value _ (by omega)]
    cases hvalue : GenericReader.parseValue tooBig fuel (skipWhitespace s3) with
    | none => rfl
    | some r =>
      obtain ⟨v, s4⟩ := r
      have hs4 := length_parseValue_lt hvalue
      have hw4 := length_skipWhitespace_le s4
      dsimp only
      split
      case h_1 s5 hcomma =>
        have hw5 := length_skipWhitespace_le s5
        rw [hcomma, List.length_cons] at hw4
        rw [ih.members _ (by omega)]
      all_goals rfl

theorem Enough.parseElements {fuel : Nat} (ih : Enough tooBig fuel) (s : Bytes)
    (hfuel : 2 * s.length + 1 < fuel + 1) :
    parseElements tooBig (fuel + 1 + 1) s = parseElements tooBig (fuel + 1) s := by
  unfold GenericReader.parseElements
  rw [ih.value s (by omega)]
  cases hvalue : GenericReader.parseValue tooBig fuel s with
  | none => rfl
  | some r =>
    obtain ⟨v, s1⟩ := r
    have hs1 := length_parseValue_lt hvalue
    have hw1 := length_skipWhitespace_le s1
    dsimp only
    split
    case h_1 s2 hcomma =>
      have hw2 := length_skipWhitespace_le s2
      rw [hcomma, List.length_cons] at hw1
      rw [ih.elements _ (by omega)]
    all_goals rfl

theorem enough (tooBig : Nat → Bytes → Bool) (fuel : Nat) : Enough tooBig fuel := by
  induction fuel with
  | zero => constructor <;> intros <;> omega
  | succ fuel ih => exact ⟨ih.parseValue, ih.parseMembers, ih.parseElements⟩

/-- `parse` gives enough fuel. -/
theorem parse_fuel {s : Bytes} {fuel : Nat} (h : 2 * s.length < fuel) :
    parseValue tooBig fuel s = parseValue tooBig (2 * s.length + 1) s := by
  induction fuel, h using Nat.le_induction with
  | base => rfl
  | succ fuel h ih => exact ((enough tooBig fuel).value s h).trans ih

/-! ## Documents -/

theorem parse_text {v : Json} (hv : Integral v) {w t w' : Bytes} (hw : Blank w) (hw' : Blank w')
    (ht : Text v t) {json : Bytes} (hjson : cstr json = w ++ t ++ w') :
    parse tooBig json = some v := by
  have hskip := skipWhitespace_value hw ht w'
  have hvalue := @parseValue_text tooBig _ _ ht hv (2 * (t ++ w').length + 1)
    (by simp only [List.length_append]; omega) _ (stops_of_blank hw')
  unfold parse
  rw [hjson, hskip]
  split
  · rename_i heq
    obtain ⟨b, s, rfl, -⟩ := ht.exists_cons
    cases heq
  · rw [hvalue]
    exact if_pos (skipWhitespace_blank hw')

end

end GenericReader

end O2Chat.Common
