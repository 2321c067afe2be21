import Mathlib.Data.List.Sort
import O2Chat.Common.Api
import O2Chat.Common.Json
import O2Chat.Db.Storage

/-!
# Requests and tasks

`RequestDetails` of `request.hpp`, `db::Task` of `database.hpp` and the parsing of
a request body (`parse_meta`). `Extern` collects what the server takes from outside
the repository: boost's CRC, rapidjson's parser, `std::sort` and the `pass_len` option.
-/
namespace O2Chat.Server

open O2Chat.Common O2Chat.Db

structure Extern where
  /-- `boost::crc_32_type` over the bytes of a string. -/
  crc32Type : Bytes → UInt32
  /-- `Document::Parse` of a C string; `none` is `HasParseError`. -/
  parse : Bytes → Option Json
  /-- The integer option `pass_len`. -/
  passLen : Int
  /-- `std::sort` by descending `ts`; the order of equal elements is not specified. -/
  sortByTs : List Message → List Message
  sortByTs_perm : ∀ l, (sortByTs l).Perm l
  sortByTs_sorted : ∀ l, (sortByTs l).Pairwise fun a b => b.ts ≤ a.ts

/-- `utils::crc32` returns the checksum as a 32-bit `int`. -/
def crc32 (env : Extern) (data : Bytes) : Int := (env.crc32Type data).toBitVec.toInt

/-- An environment that can be evaluated. Its checksums are right for the passwords
`password` and `12345678`. -/
def Extern.sample (parse : Bytes → Option Json) : Extern where
  crc32Type data := if data = bytes "password" then 901924565 else
    if data = bytes "12345678" then 2598427311 else 0
  parse
  passLen := 8
  sortByTs := List.insertionSort fun a b : Message => b.ts ≤ a.ts
  sortByTs_perm := List.perm_insertionSort _
  sortByTs_sorted l :=
    have : Std.Total fun a b : Message => b.ts ≤ a.ts := ⟨fun a b => Nat.le_total b.ts a.ts⟩
    have : IsTrans Message fun a b => b.ts ≤ a.ts := ⟨fun _ _ _ h h' => Nat.le_trans h' h⟩
    List.pairwise_insertionSort _ l

structure Params where
  uid : Nat := 0
  ts : Nat := 0
  count : Nat := 0
  message : Bytes := []
  toUser : Bytes := []
  user : Bytes := []
  password : Bytes := []
  chatName : Bytes := []
  chatAdduser : Bytes := []
  deriving DecidableEq, Repr

/-- The source leaves `command` uninitialised; it is first read after it was set. -/
structure RequestDetails where
  params : Params := {}
  command : Cmd := .cmdLast
  resource : Bytes := []
  method : Bytes := []
  deriving DecidableEq, Repr

/-- `client` is the number of the connection. -/
structure Task where
  ping : Bool := false
  cmd : Cmd
  request : Params
  client : Nat
  storage : Bytes := []
  deriving DecidableEq, Repr

/-- `std::to_string(utils::crc32(task.request.password))`. -/
def encryptedPass (env : Extern) (password : Bytes) : Bytes := decimalInt (crc32 env password)

/-! ## `parse_meta` -/

/-- The value of a string member or the error text; `none` is a failed assertion. -/
def findRequiredStringParam (doc : Json) (pattern : String) : Option (Except Bytes Bytes) :=
  match doc.findMember (bytes pattern) with
  | none => none
  | some none => some (.error (bytes "bad request, " ++ bytes pattern ++ bytes " required"))
  | some (some value) =>
    match value.getString with
    | none => some (.error (bytes "bad request, " ++ bytes pattern ++ bytes " is not string"))
    | some [] => some (.error (bytes "bad request, " ++ bytes pattern ++ bytes " is empty"))
    | some (b :: s) => some (.ok (b :: s))

def findRequiredUintParam (doc : Json) (pattern : String) : Option (Except Bytes Nat) :=
  match doc.findMember (bytes pattern) with
  | none => none
  | some none => some (.error (bytes "bad request, " ++ bytes pattern ++ bytes " required"))
  | some (some value) =>
    match value.getUint with
    | none => some (.error (bytes "bad request, " ++ bytes pattern ++ bytes " is not uint"))
    | some n => some (.ok n)

/-- A fatal error is returned with the parameters as they are so far. -/
def required {α : Type} (found : Option (Except Bytes α)) (params : Params)
    (k : α → Option (Bytes × Params)) : Option (Bytes × Params) :=
  match found with
  | none => none
  | some (.error fatal) => some (fatal, params)
  | some (.ok value) => k value

/-- The source computes an error for this parameter and drops it. -/
def optional {α : Type} (found : Option (Except Bytes α)) (k : Option α → Option (Bytes × Params)) :
    Option (Bytes × Params) :=
  match found with
  | none => none
  | some (.error _) => k none
  | some (.ok value) => k (some value)

/-- `^[a-zA-Z0-9_]*$`. -/
def isWordByte (b : UInt8) : Bool :=
  (97 ≤ b && b ≤ 122) || (65 ≤ b && b ≤ 90) || (48 ≤ b && b ≤ 57) || b = 95

def passwordCheck (password : Bytes) (minLen : Nat) : Bool :=
  if password.length < minLen then false else password.all isWordByte

def minPassLen (env : Extern) : Nat := if env.passLen < 0 then 8 else env.passLen.toNat

/-- The error text (empty when there is none) and the parameters, which the source
fills in as it goes; `none` when an assertion of rapidjson fails. -/
def parseMeta (env : Extern) (params : Params) (json : Bytes) (command : Cmd) :
    Option (Bytes × Params) :=
  match env.parse (cstr json) with
  | none => some (bytes "bad request, invalid json", params)
  | some document =>
    required (findRequiredStringParam document "password") params fun password =>
    let params := { params with password }
    if command = .userCreate ∨ command = .userLogin then
      required (findRequiredStringParam document "user") params fun user =>
      let params := { params with user }
      if command = .userCreate ∧ passwordCheck password (minPassLen env) = false then
        some (bytes "weak password", params)
      else some ([], params)
    else
      required (findRequiredUintParam document "uid") params fun uid =>
      let params := { params with uid }
      if command = .chatCreate ∨ command = .chatAdduser then
        required (findRequiredStringParam document "chatname") params fun name =>
        let params := { params with chatName := name }
        if command = .chatAdduser then
          required (findRequiredStringParam document "adduser") params fun adduser =>
          some ([], { params with chatAdduser := adduser })
        else some ([], params)
      else if command = .idle then
        optional (findRequiredUintParam document "heartbit") fun heartbit =>
        some ([], { params with ts := heartbit.getD params.ts })
      else if command = .userHistory ∨ command = .userStatus then
        required (findRequiredStringParam document "user") params fun user =>
        let params := { params with user }
        optional (findRequiredUintParam document "count") fun count =>
        some ([], { params with count := count.getD params.count })
      else if command = .messageSend ∨ command = .messageSendChat then
        required (findRequiredStringParam document "message") params fun message =>
        let params := { params with message }
        if command = .messageSend then
          required (findRequiredStringParam document "to") params fun toUser =>
          some ([], { params with toUser })
        else
          required (findRequiredStringParam document "chatname") params fun name =>
          some ([], { params with chatName := name })
      else some ([], params)

/-! ## When an assertion fails -/

theorem findRequiredStringParam_isSome {doc : Json} (h : doc.isObject = true) (pattern : String) :
    (findRequiredStringParam doc pattern).isSome = true := by
  cases doc <;> simp only [Json.isObject, Bool.false_eq_true] at h
  rename_i members
  unfold findRequiredStringParam
  simp only [Json.findMember]
  split
  · rename_i heq
    cases heq
  · rfl
  · split <;> rfl

theorem findRequiredUintParam_isSome {doc : Json} (h : doc.isObject = true) (pattern : String) :
    (findRequiredUintParam doc pattern).isSome = true := by
  cases doc <;> simp only [Json.isObject, Bool.false_eq_true] at h
  rename_i members
  unfold findRequiredUintParam
  simp only [Json.findMember]
  split
  · rename_i heq
    cases heq
  · rfl
  · split <;> rfl

theorem required_isSome {α : Type} {found : Option (Except Bytes α)} {params : Params}
    {k : α → Option (Bytes × Params)} (h : found.isSome = true)
    (hk : ∀ value, (k value).isSome = true) : (required found params k).isSome = true := by
  rcases found with _ | (_ | value)
  · cases h
  · rfl
  · exact hk value

theorem optional_isSome {α : Type} {found : Option (Except Bytes α)}
    {k : Option α → Option (Bytes × Params)} (h : found.isSome = true)
    (hk : ∀ value, (k value).isSome = true) : (optional found k).isSome = true := by
  rcases found with _ | (_ | value)
  · cases h
  · exact hk none
  · exact hk (some value)

/-- Parsing aborts exactly when the body is a JSON text that is not an object. -/
theorem parseMeta_eq_none_iff (env : Extern) (params : Params) (json : Bytes) (command : Cmd) :
    parseMeta env params json command = none ↔
      ∃ doc, env.parse (cstr json) = some doc ∧ doc.isObject = false := by
  unfold parseMeta
  cases env.parse (cstr json) with
  | none => simp
  | some doc =>
    simp only [Option.some.injEq, exists_eq_left']
    cases hobj : doc.isObject with
    | false =>
      have hnone : doc.findMember (bytes "password") = none := by
        cases doc <;> simp_all [Json.findMember, Json.isObject]
      simp [findRequiredStringParam, hnone, required]
    | true =>
      have hs := findRequiredStringParam_isSome hobj
      have hu := findRequiredUintParam_isSome hobj
      simp only [Bool.true_eq_false, iff_false, ← ne_eq]
      rw [← Option.isSome_iff_ne_none]
      refine required_isSome (hs _) fun password => ?_
      split
      · refine required_isSome (hs _) fun user => ?_
        split <;> rfl
      refine required_isSome (hu _) fun uid => ?_
      split
      · refine required_isSome (hs _) fun name => ?_
        split
        · exact required_isSome (hs _) fun adduser => rfl
        · rfl
      split
      · exact optional_isSome (hu _) fun heartbit => rfl
      split
      · exact required_isSome (hs _) fun user => optional_isSome (hu _) fun count => rfl
      split
      · refine required_isSome (hs _) fun message => ?_
        split
        · exact required_isSome (hs _) fun toUser => rfl
        · exact required_isSome (hs _) fun name => rfl
      · rfl

/-! ## What an accepted request has passed -/

section

variable {params params' : Params} {doc : Json}

theorem required_ok {α : Type} {found : Option (Except Bytes α)}
    {k : α → Option (Bytes × Params)} (herror : ∀ fatal, found = some (.error fatal) → fatal ≠ [])
    (h : required found params k = some ([], params')) :
    ∃ value, found = some (.ok value) ∧ k value = some ([], params') := by
  unfold required at h
  split at h
  · cases h
  · rename_i fatal
    obtain ⟨rfl, -⟩ := Prod.mk.inj (Option.some.inj h)
    exact absurd rfl (herror [] rfl)
  · rename_i value
    exact ⟨value, rfl, h⟩

theorem badRequest_ne_nil (pattern text : String) :
    bytes "bad request, " ++ bytes pattern ++ bytes text ≠ [] := by
  have hbad : bytes "bad request, " ≠ [] := by decide
  rw [List.append_assoc]
  exact List.append_ne_nil_of_left_ne_nil hbad _

theorem stringParam_error {name : String} {fatal : Bytes}
    (h : findRequiredStringParam doc name = some (.error fatal)) : fatal ≠ [] := by
  unfold findRequiredStringParam at h
  split at h
  · cases h
  · obtain rfl := Except.error.inj (Option.some.inj h)
    exact badRequest_ne_nil _ _
  · split at h
    · obtain rfl := Except.error.inj (Option.some.inj h)
      exact badRequest_ne_nil _ _
    · obtain rfl := Except.error.inj (Option.some.inj h)
      exact badRequest_ne_nil _ _
    · cases h

theorem uintParam_error {name : String} {fatal : Bytes}
    (h : findRequiredUintParam doc name = some (.error fatal)) : fatal ≠ [] := by
  unfold findRequiredUintParam at h
  split at h
  · cases h
  · obtain rfl := Except.error.inj (Option.some.inj h)
    exact badRequest_ne_nil _ _
  · split at h
    · obtain rfl := Except.error.inj (Option.some.inj h)
      exact badRequest_ne_nil _ _
    · cases h

theorem stringParam_ne_nil {name : String} {value : Bytes}
    (h : findRequiredStringParam doc name = some (.ok value)) : value ≠ [] := by
  unfold findRequiredStringParam at h
  split at h
  · cases h
  · cases Option.some.inj h
  · split at h
    · cases Option.some.inj h
    · cases Option.some.inj h
    · obtain rfl := Except.ok.inj (Option.some.inj h)
      exact List.cons_ne_nil _ _

end

end O2Chat.Server
