import O2Chat.Client.Answers

/-!
# Replies that the client can read

The readers of `Answers` ask rapidjson for members and for numbers and strings without
asking first what they have. `AnswerReadable` and `MsgsReadable` say of a document what
they rely on: a document that is otherwise aborts the client.
-/
namespace O2Chat.Client

open O2Chat.Common

/-! ## What a document holds -/

/-- An integer of 64 bits without a sign. -/
def IsUint64 : Json → Prop
  | .int n => 0 ≤ n ∧ n < 2 ^ 64
  | _ => False

def IsString : Json → Prop
  | .string _ => True
  | _ => False

/-- The first member of this name, where there is one, is of this kind. -/
def WherePresent (members : List (Bytes × Json)) (name : String) (kind : Json → Prop) : Prop :=
  ∀ member, members.find? (·.1 = bytes name) = some member → kind member.2

/-- A document that `parse_response_aswer` reads. -/
def AnswerReadable (document : Json) : Prop :=
  ∃ members, document = .object members ∧
    ∀ name ∈ ["id", "chatid", "heartbit", "server_ts"], WherePresent members name IsUint64

/-- An element of `msgs` that `parse_msg_response` reads. -/
def MsgReadable (element : Json) : Prop :=
  ∃ members, element = .object members ∧ WherePresent members "ts" IsUint64 ∧
    ∀ name ∈ ["from", "to", "message"], WherePresent members name IsString

/-- A document that `parse_msg_response` reads: the first element that is no object ends it. -/
def MsgsReadable (document : Json) : Prop :=
  ∃ members, document = .object members ∧
    WherePresent members "msgs" fun msgs =>
      ∀ elements, msgs = .array elements → ∀ v ∈ elements.takeWhile Json.isObject, MsgReadable v

/-! ## What the accessors assert -/

theorem getUint64_ne_none (v : Json) : v.getUint64 ≠ none ↔ IsUint64 v := by
  cases v with
  | int n =>
    unfold Json.getUint64 IsUint64
    split <;> simp_all
  | _ => simp [Json.getUint64, IsUint64]

theorem getString_ne_none (v : Json) : v.getString ≠ none ↔ IsString v := by
  cases v <;> simp [Json.getString, IsString]

theorem findMember_object (members : List (Bytes × Json)) (name : Bytes) :
    (Json.object members).findMember name = some ((members.find? (·.1 = name)).map (·.2)) := rfl

theorem memberOr_ne_none {α : Type} {get : Json → Option α} {kind : Json → Prop}
    (hget : ∀ v, get v ≠ none ↔ kind v) (members : List (Bytes × Json)) (name : String)
    (default : α) :
    memberOr (.object members) name get default ≠ none ↔ WherePresent members name kind := by
  unfold memberOr WherePresent
  rw [findMember_object]
  cases members.find? (·.1 = bytes name) with
  | none => simp
  | some member => simpa using hget member.2

theorem memberOr_no_object {α : Type} {v : Json} (h : v.isObject = false) (name : String)
    (get : Json → Option α) (default : α) : memberOr v name get default = none := by
  cases v with
  | object members => cases h
  | _ => rfl

/-- Four reads succeed if each of them does. -/
theorem four_reads {α β γ δ ε : Type} (a : Option α) (b : Option β) (c : Option γ) (d : Option δ)
    (f : α → β → γ → δ → ε) :
    (a.bind fun w => b.bind fun x => c.bind fun y => d.bind fun z => some (f w x y z)) ≠ none ↔
      a ≠ none ∧ b ≠ none ∧ c ≠ none ∧ d ≠ none := by
  cases a <;> cases b <;> cases c <;> cases d <;> simp

theorem four_reads_some {α β γ δ ε : Type} {a : Option α} {b : Option β} {c : Option γ} {d : Option δ}
    {f : α → β → γ → δ → ε} {e : ε}
    (h : (a.bind fun w => b.bind fun x => c.bind fun y => d.bind fun z => some (f w x y z)) = some e) :
    ∃ w x y z, e = f w x y z := by
  obtain ⟨w, -, h⟩ := Option.bind_eq_some_iff.mp h
  obtain ⟨x, -, h⟩ := Option.bind_eq_some_iff.mp h
  obtain ⟨y, -, h⟩ := Option.bind_eq_some_iff.mp h
  obtain ⟨z, -, h⟩ := Option.bind_eq_some_iff.mp h
  exact ⟨w, x, y, z, (Option.some.inj h).symm⟩

theorem isObject_iff (v : Json) : v.isObject = true ↔ ∃ members, v = .object members := by
  cases v <;> simp [Json.isObject]

/-- An object is readable by its own members. -/
theorem exists_members_iff (members : List (Bytes × Json)) (P : List (Bytes × Json) → Prop) :
    (∃ members', Json.object members = .object members' ∧ P members') ↔ P members := by
  simp

/-! ## `parse_response_aswer` -/

theorem answer_object (parse : Bytes → Option Json) {json : Bytes} {members : List (Bytes × Json)}
    (hparse : parse (cstr json) = some (.object members)) :
    parseResponseAswer parse json ≠ none ↔ AnswerReadable (.object members) := by
  have hnumber := fun name => memberOr_ne_none getUint64_ne_none members name 0
  unfold AnswerReadable
  rw [exists_members_iff]
  unfold parseResponseAswer
  rw [hparse]
  refine (four_reads _ _ _ _ _).trans ?_
  rw [hnumber, hnumber, hnumber, hnumber]
  simp

theorem answer_no_object (parse : Bytes → Option Json) {json : Bytes} {document : Json}
    (hparse : parse (cstr json) = some document) (h : document.isObject = false) :
    parseResponseAswer parse json = none := by
  unfold parseResponseAswer
  rw [hparse]
  dsimp only
  rw [memberOr_no_object h]
  rfl

/-! ## `parse_msg_response` -/

theorem parseMsg_object (members : List (Bytes × Json)) :
    parseMsg (.object members) ≠ none ↔ MsgReadable (.object members) := by
  have hnumber := fun name => memberOr_ne_none getUint64_ne_none members name 0
  have hstring := fun name => memberOr_ne_none getString_ne_none members name []
  unfold MsgReadable
  rw [exists_members_iff]
  refine (four_reads _ _ _ _ _).trans ?_
  rw [hnumber, hstring, hstring, hstring]
  simp

/-- An object is read to its end or not at all. -/
theorem parseMsg_ok {members : List (Bytes × Json)} {result : Except Bytes MsgResponse}
    (h : parseMsg (.object members) = some result) : ∃ r, result = .ok r := by
  obtain ⟨ts, fromUser, toUser, msg, heq⟩ := four_reads_some (show Option.bind _ _ = some result from h)
  exact ⟨_, heq⟩

theorem parseMsg_no_object {v : Json} (h : v.isObject = false) :
    parseMsg v = some (.error (bytes "bad format")) := if_pos h

/-- The elements are read up to the first that is no object. -/
theorem parseMsgs_iff (elements : List Json) :
    parseMsgs elements ≠ none ↔ ∀ v ∈ elements.takeWhile Json.isObject, MsgReadable v := by
  induction elements with
  | nil => simp [parseMsgs]
  | cons v vs ih =>
    rw [parseMsgs]
    cases hobject : v.isObject with
    | false =>
      rw [parseMsg_no_object hobject, List.takeWhile_cons_of_neg (by rw [hobject]; decide)]
      simp
    | true =>
      rw [List.takeWhile_cons_of_pos hobject, List.forall_mem_cons, ← ih]
      obtain ⟨members, rfl⟩ := (isObject_iff v).mp hobject
      rw [← parseMsg_object]
      cases hmsg : parseMsg (.object members) with
      | none => simp
      | some result =>
        obtain ⟨r, rfl⟩ := parseMsg_ok hmsg
        simp

/-- What is read of the messages: the elements, if it is an array. -/
theorem msgs_object (parse : Bytes → Option Json) {json : Bytes} {members : List (Bytes × Json)}
    (hparse : parse (cstr json) = some (.object members)) :
    parseMsgResponse parse json ≠ none ↔ MsgsReadable (.object members) := by
  unfold MsgsReadable
  rw [exists_members_iff]
  unfold parseMsgResponse WherePresent
  rw [hparse]
  dsimp only
  rw [findMember_object]
  cases members.find? (·.1 = bytes "msgs") with
  | none => simp
  | some member =>
    obtain ⟨name, value⟩ := member
    cases value with
    | array elements => simpa using parseMsgs_iff elements
    | _ => simp

theorem msgs_no_object (parse : Bytes → Option Json) {json : Bytes} {document : Json}
    (hparse : parse (cstr json) = some document) (h : document.isObject = false) :
    parseMsgResponse parse json = none := by
  unfold parseMsgResponse
  rw [hparse]
  cases document with
  | object members => cases h
  | _ => rfl

/-! ## Bodies of replies -/

/-- A reader that reads an object by its members, and nothing else, reads a text exactly if that
is no document or a document of this kind. -/
theorem reader_iff {α : Type} {read : Option α} {document : Option Json} {kind : Json → Prop}
    (htext : document = none → read ≠ none) (hkind : ∀ v, kind v → v.isObject = true)
    (hobject : ∀ members, document = some (.object members) → (read ≠ none ↔ kind (.object members)))
    (hother : ∀ v, document = some v → v.isObject = false → read = none) :
    read ≠ none ↔ ∀ v, document = some v → kind v := by
  cases document with
  | none => exact iff_of_true (htext rfl) nofun
  | some v =>
    have hthis : (∀ v', some v = some v' → kind v') ↔ kind v := by simp
    rw [hthis]
    cases h : v.isObject with
    | false =>
      exact iff_of_false (not_not_intro (hother v rfl h)) fun hv => by
        rw [hkind v hv] at h
        cases h
    | true =>
      obtain ⟨members, rfl⟩ := (isObject_iff v).mp h
      exact hobject members rfl

/-- Each of the two readers aborts the client exactly on a document that is not readable. -/
theorem answer_bodies_iff (parse : Bytes → Option Json) (body : Bytes) :
    (parseMsgResponse parse body ≠ none ↔
      ∀ document, parse (cstr body) = some document → MsgsReadable document) ∧
    (parseResponseAswer parse body ≠ none ↔
      ∀ document, parse (cstr body) = some document → AnswerReadable document) := by
  constructor
  · apply reader_iff
    · intro hparse
      unfold parseMsgResponse
      rw [hparse]
      exact nofun
    · rintro v ⟨members, rfl, -⟩
      rfl
    · exact fun _ => msgs_object parse
    · exact fun _ => msgs_no_object parse
  · apply reader_iff
    · intro hparse
      unfold parseResponseAswer
      rw [hparse]
      exact nofun
    · rintro v ⟨members, rfl, -⟩
      rfl
    · exact fun _ => answer_object parse
    · exact fun _ => answer_no_object parse

namespace Sample

/-- rapidjson, as far as it is asked here. -/
def parseFew (text : Bytes) : Option Json :=
  if text = bytes "[]" then some (.array [])
  else if text = bytes "\x7b\"id\":\"x\"\x7d" then some (.object [(bytes "id", .string (bytes "x"))])
  else none

end Sample

/-- An array for an object, and a text for a number. -/
theorem array_aborts : parseMsgResponse Sample.parseFew (bytes "[]") = none ∧
    parseResponseAswer Sample.parseFew (bytes "[]") = none ∧
    parseResponseAswer Sample.parseFew (bytes "\x7b\"id\":\"x\"\x7d") = none := by
  decide +kernel

end O2Chat.Client
