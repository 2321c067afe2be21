import O2Chat.Common.Api
import O2Chat.Common.Json

/-!
# Requests of the client

The texts in `client/src/apiclient_utils.cpp`: the bodies, as the members handed to the
writer, and the request around a body. `Request` has a value for each request that the
client makes.
-/
namespace O2Chat.Client

open O2Chat.Common

def buildRequest (resource contentType body : Bytes) : Bytes :=
  bytes "POST " ++ resource ++ bytes " HTTP/1.1" ++ CRLF ++
    (bytes "Content-Length: " ++ decimal body.length ++ CRLF) ++
    (bytes "Content-Type: " ++ contentType ++ CRLF) ++ CRLF ++ body

/-! ## Bodies -/

/-- The value after a `writer.Key`. -/
inductive Value
  /-- `writer.String(s.c_str())` -/
  | string (s : Bytes)
  /-- `writer.Uint64(n)` -/
  | uint64 (n : Nat)
  deriving DecidableEq, Repr

abbrev Members : Type := List (String × Value)

def buildUserPassBody (user pass : Bytes) : Members :=
  [("user", .string user), ("password", .string pass)]

def buildUserSendMsgBody (uid ts : Nat) (toUser msg pass : Bytes) : Members :=
  [("uid", .uint64 uid)] ++ (if ts ≠ 0 then [("heartbit", .uint64 ts)] else []) ++
    [("to", .string toUser), ("message", .string msg), ("password", .string pass)]

def buildUserHistoryMsgBody (uid : Nat) (name : Bytes) (count : Nat) (pass : Bytes) : Members :=
  [("uid", .uint64 uid), ("user", .string name), ("count", .uint64 count),
    ("password", .string pass)]

def buildGroupsMsgBody (uid : Nat) (groupname username message pass : Bytes) : Members :=
  [("uid", .uint64 uid), ("chatname", .string groupname)] ++
    (if username ≠ [] then [("adduser", .string username)] else []) ++
    (if message ≠ [] then [("message", .string message)] else []) ++ [("password", .string pass)]

namespace Value

/-- What the writer emits. -/
def text : Value → Bytes
  | .string s => Writer.string s
  | .uint64 n => Writer.uint64 n

/-- What a parser reads back. -/
def json : Value → Json
  | .string s => .string (cstr s)
  | .uint64 n => .int n

end Value

namespace Members

/-- The text of an object with these members. -/
def text (members : Members) : Bytes := Writer.object (members.map fun m => (m.1, m.2.text))

/-- The object that a parser makes of the text. -/
def json (members : Members) : Json := .object (members.map fun m => (bytes m.1, m.2.json))

end Members

/-! ## Requests -/

/-- The requests of the client with what it puts into them. -/
inductive Request
  | userCreate (user pass : Bytes)
  | userLogin (user pass : Bytes)
  | messageSend (uid : Nat) (toUser msg pass : Bytes)
  | messageSendChat (uid : Nat) (chat msg pass : Bytes)
  | userHistory (uid : Nat) (user : Bytes) (count : Nat) (pass : Bytes)
  | userStatus (uid : Nat) (user pass : Bytes)
  | chatCreate (uid : Nat) (chat pass : Bytes)
  | chatAdduser (uid : Nat) (chat adduser pass : Bytes)
  | idle (uid heartbit : Nat) (pass : Bytes)
  deriving DecidableEq, Repr

namespace Request

def cmd : Request → Cmd
  | .userCreate .. => .userCreate
  | .userLogin .. => .userLogin
  | .messageSend .. => .messageSend
  | .messageSendChat .. => .messageSendChat
  | .userHistory .. => .userHistory
  | .userStatus .. => .userStatus
  | .chatCreate .. => .chatCreate
  | .chatAdduser .. => .chatAdduser
  | .idle .. => .idle

/-- The body that the client builds for the request. -/
def members : Request → Members
  | .userCreate user pass => buildUserPassBody user pass
  | .userLogin user pass => buildUserPassBody user pass
  | .messageSend uid toUser msg pass => buildUserSendMsgBody uid 0 toUser msg pass
  | .messageSendChat uid chat msg pass => buildGroupsMsgBody uid chat [] msg pass
  | .userHistory uid user count pass => buildUserHistoryMsgBody uid user count pass
  | .userStatus uid user pass => buildUserHistoryMsgBody uid user 0 pass
  | .chatCreate uid chat pass => buildGroupsMsgBody uid chat [] [] pass
  | .chatAdduser uid chat adduser pass => buildGroupsMsgBody uid chat adduser [] pass
  | .idle uid heartbit pass => buildUserSendMsgBody uid heartbit [] [] pass

def body (r : Request) : Bytes := r.members.text

/-- The bytes that are written. -/
def text (r : Request) : Bytes :=
  buildRequest (cmd2string r.cmd) (bytes "application/json") r.body

end Request

end O2Chat.Client
