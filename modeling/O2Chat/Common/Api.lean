import O2Chat.Common.Utils

/-!
# Commands and status codes of the chat protocol

`common::cmd_t`, `common::ApiStatusCode` and the route of every command.
-/
namespace O2Chat.Common

inductive Cmd
  | messageSend
  | messageSendChat
  | userCreate
  | userLogin
  | userHistory
  | userStatus
  | chatCreate
  | chatHistory
  | chatStatus
  | chatAdduser
  | messageRecent
  | idle
  | cmdLast
  deriving DecidableEq, Repr

/-- The value of the enumerator: `MESSAGE_SEND = 1` and so on. -/
def Cmd.toNat : Cmd → Nat
  | .messageSend => 1
  | .messageSendChat => 2
  | .userCreate => 3
  | .userLogin => 4
  | .userHistory => 5
  | .userStatus => 6
  | .chatCreate => 7
  | .chatHistory => 8
  | .chatStatus => 9
  | .chatAdduser => 10
  | .messageRecent => 11
  | .idle => 12
  | .cmdLast => 13

def cmd2string : Cmd → Bytes
  | .messageSend => bytes "/v1/message/send"
  | .messageSendChat => bytes "/v1/message/sendchat"
  | .userCreate => bytes "/v1/user/create"
  | .userLogin => bytes "/v1/user/login"
  | .chatCreate => bytes "/v1/chat/create"
  | .userHistory => bytes "/v1/user/history"
  | .chatHistory => bytes "/v1/group/history"
  | .userStatus => bytes "/v1/user/status"
  | .chatStatus => bytes "/v1/chat/status"
  | .chatAdduser => bytes "/v1/chat/adduser"
  | .messageRecent => bytes "/v1/message/recent"
  | .idle => bytes "/v1/idle"
  | .cmdLast => bytes "undefined_cmd"

inductive ApiStatusCode
  | errNone
  | errBadRequest
  | errInternal
  | errNotFound
  | errConstraint
  deriving DecidableEq, Repr

def ApiStatusCode.toNat : ApiStatusCode → Nat
  | .errNone => 0
  | .errBadRequest => 1
  | .errInternal => 2
  | .errNotFound => 3
  | .errConstraint => 4

end O2Chat.Common
