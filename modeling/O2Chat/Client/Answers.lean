import O2Chat.Common.Json

/-!
# Bodies of responses

`parse_response_aswer` and `parse_msg_response` of `client/src/apiclient_utils.cpp`. A
result is an error text or what has been read; `none` is a failed assertion of rapidjson,
which aborts the client.
-/
namespace O2Chat.Client

open O2Chat.Common

/-- `response_t`. -/
structure Response where
  uid : Nat := 0
  chatid : Nat := 0
  heartbit : Nat := 0
  serverTs : Nat := 0
  deriving DecidableEq, Repr

/-- `msg_response_t`. -/
structure MsgResponse where
  ts : Nat := 0
  fromUser : Bytes := []
  toUser : Bytes := []
  msg : Bytes := []
  deriving DecidableEq, Repr

/-- The value of a member, read by `get`, or the default when there is no such member. -/
def memberOr {α : Type} (v : Json) (name : String) (get : Json → Option α) (default : α) :
    Option α :=
  match v.findMember (bytes name) with
  | none => none
  | some none => some default
  | some (some value) => get value

/-- `parse` is `Document::Parse` of a C string. -/
def parseResponseAswer (parse : Bytes → Option Json) (json : Bytes) :
    Option (Except Bytes Response) :=
  match parse (cstr json) with
  | none => some (.error (bytes "bad request, invalid json"))
  | some document => do
    let uid ← memberOr document "id" Json.getUint64 0
    let chatid ← memberOr document "chatid" Json.getUint64 0
    let heartbit ← memberOr document "heartbit" Json.getUint64 0
    let serverTs ← memberOr document "server_ts" Json.getUint64 0
    return .ok { uid, chatid, heartbit, serverTs }

/-- One element of `msgs`. -/
def parseMsg (v : Json) : Option (Except Bytes MsgResponse) :=
  if v.isObject = false then some (.error (bytes "bad format"))
  else do
    let ts ← memberOr v "ts" Json.getUint64 0
    let fromUser ← memberOr v "from" Json.getString []
    let toUser ← memberOr v "to" Json.getString []
    let msg ← memberOr v "message" Json.getString []
    return .ok { ts, fromUser, toUser, msg }

def parseMsgs : List Json → Option (Except Bytes (List MsgResponse))
  | [] => some (.ok [])
  | v :: vs =>
    match parseMsg v with
    | none => none
    | some (.error err) => some (.error err)
    | some (.ok r) => (parseMsgs vs).map fun done => done.map (r :: ·)

def parseMsgResponse (parse : Bytes → Option Json) (json : Bytes) :
    Option (Except Bytes (List MsgResponse)) :=
  match parse (cstr json) with
  | none => some (.error (bytes "bad request, invalid json"))
  | some document =>
    match document.findMember (bytes "msgs") with
    | none => none
    | some none => some (.error (bytes "bad message"))
    | some (some (.array elements)) => parseMsgs elements
    | some (some _) => some (.error (bytes "bad format"))

end O2Chat.Client
