import O2Chat.Common.Api
import O2Chat.Common.Json
import O2Chat.Db.Storage

/-!
# Response bodies and response texts

The builders of `apiclient_utils.cpp` and `apiclient.cpp`. A body that carries
`server_ts` takes the value of `time(NULL)` as its last argument.
-/
namespace O2Chat.Server

open O2Chat.Common O2Chat.Db

/-- `apiclient_utils::Message`. -/
structure ApiMessage where
  ts : Nat
  from_ : Bytes
  to_ : Bytes
  msg : Bytes
  deriving DecidableEq, Repr

def maxTimestamp (msgs : List ApiMessage) : Nat :=
  msgs.foldl (fun ts msg => if ts < msg.ts then msg.ts else ts) 0

/-- It is the time of one of the messages, or 0 without messages. -/
theorem maxTimestamp_mem (msgs : List ApiMessage) :
    maxTimestamp msgs = 0 ∨ ∃ msg ∈ msgs, msg.ts = maxTimestamp msgs := by
  have key : ∀ (msgs : List ApiMessage) (ts : Nat),
      msgs.foldl (fun ts msg => if ts < msg.ts then msg.ts else ts) ts = ts ∨
      ∃ msg ∈ msgs, msg.ts = msgs.foldl (fun ts msg => if ts < msg.ts then msg.ts else ts) ts := by
    intro msgs
    induction msgs with
    | nil => exact fun ts => Or.inl rfl
    | cons msg msgs ih =>
      intro ts
      rw [List.foldl_cons]
      rcases ih (if ts < msg.ts then msg.ts else ts) with hstart | ⟨m, hm, hmax⟩
      · rw [hstart]
        split
        · exact Or.inr ⟨msg, List.mem_cons_self, rfl⟩
        · exact Or.inl rfl
      · exact Or.inr ⟨m, List.mem_cons_of_mem _ hm, hmax⟩
  exact key msgs 0

/-! ## `build_api_ok_response_body` -/

def okResponseBodyOfCmd (command : Cmd) (now : Nat) : Bytes :=
  Writer.object [("cmd", Writer.uint64 command.toNat), ("server_ts", Writer.uint64 now)]

def okResponseBodyOfUser (user : User) (now : Nat) : Bytes :=
  Writer.object [("id", Writer.uint64 user.id), ("chatid", Writer.uint64 user.selfChatId),
    ("heartbit", Writer.uint64 user.heartbit), ("name", Writer.string user.name),
    ("server_ts", Writer.uint64 now)]

def okResponseBodyOfChat (chat : Chat) (now : Nat) : Bytes :=
  Writer.object [("chatid", Writer.uint64 chat.id), ("name", Writer.string chat.name),
    ("server_ts", Writer.uint64 now)]

def messageObject (msg : ApiMessage) : Bytes :=
  Writer.object [("from", Writer.string msg.from_), ("to", Writer.string msg.to_),
    ("message", Writer.string msg.msg), ("ts", Writer.uint64 msg.ts)]

def okResponseBodyOfMessages (msgs : List ApiMessage) (now : Nat) : Bytes :=
  Writer.object [("server_ts", Writer.uint64 now), ("msgs", Writer.array (msgs.map messageObject))]

def makeApiError (apiCode : ApiStatusCode) (desc : Bytes) : Bytes :=
  Writer.object [("status", Writer.uint64 apiCode.toNat), ("error", Writer.string desc)]

/-! ## Status line, headers and body -/

def httpCodeToString : Nat → Bytes
  | 200 => bytes "200 OK"
  | 400 => bytes "400 Bad Request"
  | 403 => bytes "403 Forbidden"
  | 404 => bytes "404 Not Found"
  | 409 => bytes "409 Conflict"
  | 429 => bytes "429 Too Many Requests"
  | 500 => bytes "500 Internal Server Error"
  | 503 => bytes "503 Service Unavailable"
  | _ => bytes "200 OK"

def buildApiErrorRsponse (httpCode : Nat) (apiCode : ApiStatusCode) (desc : Bytes) : Bytes :=
  let apiResponse := makeApiError apiCode desc
  bytes "HTTP/1.1 " ++ httpCodeToString httpCode ++ CRLF ++
    (bytes "Content-Length: " ++ decimal apiResponse.length ++ CRLF) ++
    (bytes "Access-Control-Allow-Origin: *" ++ CRLF) ++
    (bytes "Content-Type: application/json" ++ CRLF) ++ CRLF ++ apiResponse

def buildApiOkResponse (body : Bytes) : Bytes :=
  bytes "HTTP/1.1 200 OK" ++ CRLF ++
    (bytes "Content-Length: " ++ decimal body.length ++ CRLF) ++
    (bytes "Content-Type: application/json" ++ CRLF) ++
    (bytes "Access-Control-Allow-Origin: *" ++ CRLF) ++ CRLF ++ body

end O2Chat.Server
