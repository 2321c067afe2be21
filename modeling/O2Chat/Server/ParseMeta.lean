import O2Chat.Server.Request

/-!
# `parse_meta`, call by call

`parseMeta` treats a parameter that is looked up, checked and read as one thing. Here it
is one call into rapidjson after the other, each of which fails when the precondition it
asserts does not hold. Only the first lookup can fail, on a document that is no object.
-/
namespace O2Chat.Server

open O2Chat.Common

/-- The precondition that a call breaks. -/
inductive Violation
  /-- `FindMember` of a value that is not an object -/
  | notObject
  /-- `GetString` of a value that is not a string -/
  | notString
  /-- `GetUint` of a value that is not an unsigned 32-bit number -/
  | notUint
  /-- `it->value` of `MemberEnd()` -/
  | atEnd
  deriving DecidableEq, Repr

/-- A member iterator: the value it points to, or the end. -/
abbrev MemberIterator : Type := Option Json

namespace Asserting

def findMember (v : Json) (name : Bytes) : Except Violation MemberIterator :=
  match v.findMember name with
  | none => .error .notObject
  | some it => .ok it

def value (it : MemberIterator) : Except Violation Json :=
  match it with
  | none => .error .atEnd
  | some v => .ok v

def isString : Json → Bool
  | .string _ => true
  | _ => false

def isUint : Json → Bool
  | .int n => 0 ≤ n ∧ n < 2 ^ 32
  | _ => false

def getString (v : Json) : Except Violation Bytes :=
  match v.getString with
  | none => .error .notString
  | some s => .ok s

def getUint (v : Json) : Except Violation Nat :=
  match v.getUint with
  | none => .error .notUint
  | some n => .ok n

/-- The iterator may be invalid when there is an error text. -/
def findRequiredStringParam (doc : Json) (pattern : String) :
    Except Violation (MemberIterator × Bytes) := do
  let it ← findMember doc (bytes pattern)
  if it.isNone then
    return (it, bytes "bad request, " ++ bytes pattern ++ bytes " required")
  if isString (← value it) = false then
    return (it, bytes "bad request, " ++ bytes pattern ++ bytes " is not string")
  if (← getString (← value it)) = [] then
    return (it, bytes "bad request, " ++ bytes pattern ++ bytes " is empty")
  return (it, [])

def findRequiredUintParam (doc : Json) (pattern : String) :
    Except Violation (MemberIterator × Bytes) := do
  let it ← findMember doc (bytes pattern)
  if it.isNone then
    return (it, bytes "bad request, " ++ bytes pattern ++ bytes " required")
  if isUint (← value it) = false then
    return (it, bytes "bad request, " ++ bytes pattern ++ bytes " is not uint")
  return (it, [])

/-- Look a string up, return when there is an error text, read it otherwise. -/
def requiredString (doc : Json) (pattern : String) (params : Params)
    (k : Bytes → Except Violation (Bytes × Params)) : Except Violation (Bytes × Params) := do
  let (it, fatalError) ← findRequiredStringParam doc pattern
  if fatalError ≠ [] then return (fatalError, params)
  k (← getString (← value it))

def requiredUint (doc : Json) (pattern : String) (params : Params)
    (k : Nat → Except Violation (Bytes × Params)) : Except Violation (Bytes × Params) := do
  let (it, fatalError) ← findRequiredUintParam doc pattern
  if fatalError ≠ [] then return (fatalError, params)
  k (← getUint (← value it))

/-- Look a number up and read it unless there is an error text. -/
def optionalUint (doc : Json) (pattern : String) (k : Option Nat → Except Violation (Bytes × Params)) :
    Except Violation (Bytes × Params) := do
  let (it, fatalError) ← findRequiredUintParam doc pattern
  if fatalError = [] then k (some (← getUint (← value it)))
  else k none

/-- `parse_meta`: the error text and the parameters, or the precondition that was broken. -/
def parseMeta (env : Extern) (params : Params) (json : Bytes) (command : Cmd) :
    Except Violation (Bytes × Params) :=
  match env.parse (cstr json) with
  | none => .ok (bytes "bad request, invalid json", params)
  | some document =>
    requiredString document "password" params fun password =>
    let params := { params with password }
    if command = .userCreate ∨ command = .userLogin then
      requiredString document "user" params fun user =>
      let params := { params with user }
      if command = .userCreate ∧ passwordCheck password (minPassLen env) = false then
        .ok (bytes "weak password", params)
      else .ok ([], params)
    else
      requiredUint document "uid" params fun uid =>
      let params := { params with uid }
      if command = .chatCreate ∨ command = .chatAdduser then
        requiredString document "chatname" params fun name =>
        let params := { params with chatName := name }
        if command = .chatAdduser then
          requiredString document "adduser" params fun adduser =>
          .ok ([], { params with chatAdduser := adduser })
        else .ok ([], params)
      else if command = .idle then
        optionalUint document "heartbit" fun heartbit =>
        .ok ([], { params with ts := heartbit.getD params.ts })
      else if command = .userHistory ∨ command = .userStatus then
        requiredString document "user" params fun user =>
        let params := { params with user }
        optionalUint document "count" fun count =>
        .ok ([], { params with count := count.getD params.count })
      else if command = .messageSend ∨ command = .messageSendChat then
        requiredString document "message" params fun message =>
        let params := { params with message }
        if command = .messageSend then
          requiredString document "to" params fun toUser =>
          .ok ([], { params with toUser })
        else
          requiredString document "chatname" params fun name =>
          .ok ([], { params with chatName := name })
      else .ok ([], params)

/-! ## The calls compute `parseMeta` -/

/-- A result of `parseMeta`, whose only failure is a lookup in what is no object. -/
def ofOption {α : Type} : Option α → Except Violation α
  | none => .error .notObject
  | some a => .ok a

theorem isString_eq (v : Json) : isString v = v.getString.isSome := by
  cases v <;> rfl

theorem isUint_eq (v : Json) : isUint v = v.getUint.isSome := by
  cases v with
  | int n =>
    show decide (0 ≤ n ∧ n < 2 ^ 32) = (if 0 ≤ n ∧ n < 2 ^ 32 then some n.toNat else none).isSome
    by_cases h : 0 ≤ n ∧ n < 2 ^ 32
    · rw [if_pos h, decide_eq_true h]
      rfl
    · rw [if_neg h, decide_eq_false h]
      rfl
  | _ => rfl

/-- The lookup finds what is found without the calls; a value that was found without an error
text can be read. -/
def Finds {α : Type} (get : Json → Option α) (result : Except Violation (MemberIterator × Bytes)) :
    Option (Except Bytes α) → Prop
  | none => result = .error .notObject
  | some (.error fatal) => fatal ≠ [] ∧ ∃ it, result = .ok (it, fatal)
  | some (.ok a) => ∃ v, get v = some a ∧ result = .ok (some v, [])

theorem findRequiredStringParam_eq (doc : Json) (pattern : String) :
    Finds Json.getString (findRequiredStringParam doc pattern)
      (Server.findRequiredStringParam doc pattern) := by
  unfold Server.findRequiredStringParam findRequiredStringParam findMember
  rcases doc.findMember (bytes pattern) with _ | _ | v
  · rfl
  · exact ⟨badRequest_ne_nil _ _, none, rfl⟩
  · cases hs : v.getString with
    | none =>
      have hnot : isString v = false := by rw [isString_eq, hs]; rfl
      simp only [hs]
      refine ⟨badRequest_ne_nil _ _, some v, ?_⟩
      simp [bind, Except.bind, pure, Except.pure, value, hnot]
    | some text =>
      have hstring : isString v = true := by rw [isString_eq, hs]; rfl
      cases text with
      | nil =>
        simp only [hs]
        refine ⟨badRequest_ne_nil _ _, some v, ?_⟩
        simp [bind, Except.bind, pure, Except.pure, value, getString, hstring, hs]
      | cons b text =>
        simp only [hs]
        refine ⟨v, hs, ?_⟩
        simp [bind, Except.bind, pure, Except.pure, value, getString, hstring, hs]

theorem findRequiredUintParam_eq (doc : Json) (pattern : String) :
    Finds Json.getUint (findRequiredUintParam doc pattern)
      (Server.findRequiredUintParam doc pattern) := by
  unfold Server.findRequiredUintParam findRequiredUintParam findMember
  rcases doc.findMember (bytes pattern) with _ | _ | v
  · rfl
  · exact ⟨badRequest_ne_nil _ _, none, rfl⟩
  · cases hn : v.getUint with
    | none =>
      have hnot : isUint v = false := by rw [isUint_eq, hn]; rfl
      simp only [hn]
      refine ⟨badRequest_ne_nil _ _, some v, ?_⟩
      simp [bind, Except.bind, pure, Except.pure, value, hnot]
    | some n =>
      have huint : isUint v = true := by rw [isUint_eq, hn]; rfl
      simp only [hn]
      refine ⟨v, hn, ?_⟩
      simp [bind, Except.bind, pure, Except.pure, value, huint]

theorem requiredString_eq (doc : Json) (pattern : String) (params : Params)
    {k : Bytes → Except Violation (Bytes × Params)} {k' : Bytes → Option (Bytes × Params)}
    (hk : ∀ s, k s = ofOption (k' s)) : requiredString doc pattern params k =
      ofOption (required (Server.findRequiredStringParam doc pattern) params k') := by
  have hfound := findRequiredStringParam_eq doc pattern
  unfold requiredString
  rcases hs : Server.findRequiredStringParam doc pattern with _ | (fatal | text) <;>
    rw [hs] at hfound
  · rw [hfound]
    rfl
  · obtain ⟨hne, it, hit⟩ := hfound
    rw [hit]
    exact if_pos hne
  · obtain ⟨v, hv, hit⟩ := hfound
    rw [hit]
    simp [bind, Except.bind, value, getString, hv, hk, required]

theorem requiredUint_eq (doc : Json) (pattern : String) (params : Params)
    {k : Nat → Except Violation (Bytes × Params)} {k' : Nat → Option (Bytes × Params)}
    (hk : ∀ n, k n = ofOption (k' n)) : requiredUint doc pattern params k =
      ofOption (required (Server.findRequiredUintParam doc pattern) params k') := by
  have hfound := findRequiredUintParam_eq doc pattern
  unfold requiredUint
  rcases hn : Server.findRequiredUintParam doc pattern with _ | (fatal | n) <;>
    rw [hn] at hfound
  · rw [hfound]
    rfl
  · obtain ⟨hne, it, hit⟩ := hfound
    rw [hit]
    exact if_pos hne
  · obtain ⟨v, hv, hit⟩ := hfound
    rw [hit]
    simp [bind, Except.bind, value, getUint, hv, hk, required]

theorem optionalUint_eq (doc : Json) (pattern : String)
    {k : Option Nat → Except Violation (Bytes × Params)} {k' : Option Nat → Option (Bytes × Params)}
    (hk : ∀ n, k n = ofOption (k' n)) : optionalUint doc pattern k =
      ofOption (optional (Server.findRequiredUintParam doc pattern) k') := by
  have hfound := findRequiredUintParam_eq doc pattern
  unfold optionalUint
  rcases hn : Server.findRequiredUintParam doc pattern with _ | (fatal | n) <;>
    rw [hn] at hfound
  · rw [hfound]
    rfl
  · obtain ⟨hne, it, hit⟩ := hfound
    rw [hit]
    exact (if_neg hne).trans (hk none)
  · obtain ⟨v, hv, hit⟩ := hfound
    rw [hit]
    simp [bind, Except.bind, value, getUint, hv, hk, optional]

/-- The calls give what `parseMeta` says, and break a precondition when it aborts. -/
theorem parseMeta_eq (env : Extern) (params : Params) (json : Bytes) (command : Cmd) :
    parseMeta env params json command = ofOption (Server.parseMeta env params json command) := by
  unfold parseMeta Server.parseMeta
  cases env.parse (cstr json) with
  | none => rfl
  | some document =>
    refine requiredString_eq _ _ _ fun password => ?_
    split
    · refine requiredString_eq _ _ _ fun user => ?_
      split <;> rfl
    refine requiredUint_eq _ _ _ fun uid => ?_
    split
    · refine requiredString_eq _ _ _ fun name => ?_
      split
      · exact requiredString_eq _ _ _ fun adduser => rfl
      · rfl
    split
    · exact optionalUint_eq _ _ fun heartbit => rfl
    split
    · refine requiredString_eq _ _ _ fun user => ?_
      exact optionalUint_eq _ _ fun count => rfl
    split
    · refine requiredString_eq _ _ _ fun message => ?_
      split
      · exact requiredString_eq _ _ _ fun toUser => rfl
      · exact requiredString_eq _ _ _ fun name => rfl
    · rfl

end Asserting

/-- For every body and every command, `parse_meta` keeps the preconditions of all its calls
into rapidjson, and so returns, exactly when the body is no JSON text or an object. -/
theorem parseMeta_returns_iff (env : Extern) (params : Params) (json : Bytes) (command : Cmd) :
    (∃ error params', Asserting.parseMeta env params json command = .ok (error, params')) ↔
      ∀ doc, env.parse (cstr json) = some doc → doc.isObject = true := by
  have hnone := parseMeta_eq_none_iff env params json command
  rw [Asserting.parseMeta_eq]
  cases hp : parseMeta env params json command with
  | none =>
    obtain ⟨doc, hdoc, hobj⟩ := hnone.mp hp
    constructor
    · rintro ⟨error, params', heq⟩
      cases heq
    · intro hall
      rw [hall doc hdoc] at hobj
      cases hobj
  | some result =>
    refine iff_of_true ⟨result.1, result.2, rfl⟩ ?_
    intro doc hdoc
    by_contra hnot
    have habort := hnone.mpr ⟨doc, hdoc, by simpa using hnot⟩
    rw [hp] at habort
    cases habort

/-- The body `[]` of a login is a JSON text, but no object to look the password up in. -/
theorem array_body_aborts : ∃ env : Extern, env.parse (bytes "[]") = some (.array []) ∧
    Asserting.parseMeta env {} (bytes "[]") .userLogin = .error .notObject := by
  refine ⟨.sample fun text => if text = bytes "[]" then some (.array []) else none, ?_, ?_⟩
  · show (if bytes "[]" = bytes "[]" then some (Json.array []) else none) = _
    exact if_pos rfl
  · rfl

end O2Chat.Server
