import Mathlib.Data.List.Basic
import O2Chat.Common.Utils

/-!
# The in-memory store

The tables of `database.hpp` and the methods of `InMemoryConnection`. Every
method body runs under `m_Mutex`, except `lookupChatsForUserId` and
`lookupUsersForChatId`, which lock once for the link table and once for each row;
they are assembled from `chatIdsForUserId`, `userIdsForChatId` and the row lookups.

A method that pushes into a vector yields `none` when the push throws.
-/
namespace O2Chat.Db

open O2Chat.Common

structure Chat where
  id : Nat := 0
  name : Bytes := []
  deriving DecidableEq, Repr

structure User where
  id : Nat := 0
  selfChatId : Nat := 0
  heartbit : Nat := 0
  name : Bytes := []
  password : Bytes := []
  stpath : Bytes := []
  deriving DecidableEq, Repr

/-- A link between a chat and one of its users. -/
structure Chatuser where
  chatid : Nat := 0
  uid : Nat := 0
  deriving DecidableEq, Repr

structure GetMsgOpt where
  ts : Nat := 0
  maxCount : Nat := 3
  deriving DecidableEq, Repr

inductive Flags
  | unread
  | read
  | answered
  deriving DecidableEq, Repr

structure Message where
  flags : Flags := .unread
  userFrom : Nat := 0
  chatTo : Nat := 0
  ts : Nat := 0
  message : Bytes := []
  deriving DecidableEq, Repr

structure Storage where
  userAutoincrement : Nat := 1
  chatAutoincrement : Nat := 1
  chats : List Chat := []
  users : List User := []
  chatuser : List Chatuser := []
  messages : List Message := []
  deriving DecidableEq, Repr

/-- `std::vector::max_size()` is below this for every row type, so the autoincrement
counters cannot wrap before a push throws. -/
def vectorMaxSize : Nat := 2 ^ 64 - 2

/-- `emplace_back`; `none` is `std::length_error`, which no caller catches. -/
def emplaceBack {α : Type} (v : List α) (x : α) : Option (List α) :=
  if v.length < vectorMaxSize then some (v ++ [x]) else none

namespace Storage

/-! ## Users and chats -/

/-- The first user with this id gets the new heartbeat. -/
def setHeartbit (id ts : Nat) : List User → List User
  | [] => []
  | u :: us => if u.id = id then { u with heartbit := ts } :: us else u :: setHeartbit id ts us

def updateUserHeartBit (s : Storage) (user : User) (ts : Nat) : Storage :=
  { s with users := setHeartbit user.id ts s.users }

/-- A user comes with a chat of the same name, of which the user is a member. The
name is checked against the users only. -/
def createUser (s : Storage) (name pass stpath : Bytes) : Option (Storage × User) :=
  if s.users.any (·.name = name) then some (s, {})
  else do
    let chatId := s.chatAutoincrement
    let userId := s.userAutoincrement
    let chats ← emplaceBack s.chats { id := chatId, name }
    let user : User := { id := userId, selfChatId := chatId, name, password := pass, stpath }
    let users ← emplaceBack s.users user
    let chatuser ← emplaceBack s.chatuser { chatid := chatId, uid := userId }
    return ({ s with
      chatAutoincrement := (chatId + 1) % 2 ^ 64
      userAutoincrement := (userId + 1) % 2 ^ 64
      chats, users, chatuser }, user)

/-- The name is checked against all chats. -/
def createChat (s : Storage) (name : Bytes) (uid : Nat) : Option (Storage × Chat) :=
  if s.chats.any (·.name = name) then some (s, {})
  else do
    let chatId := s.chatAutoincrement
    let chat : Chat := { id := chatId, name }
    let chats ← emplaceBack s.chats chat
    let created := { s with chatAutoincrement := (chatId + 1) % 2 ^ 64, chats }
    if 0 < uid then
      let chatuser ← emplaceBack s.chatuser { chatid := chatId, uid }
      return ({ created with chatuser }, chat)
    else return (created, chat)

def lookupUserByName (s : Storage) (name : Bytes) : List User :=
  s.users.filter (·.name = name)

def lookupUserById (s : Storage) (id : Nat) : User :=
  (s.users.find? (·.id = id)).getD {}

def lookupChatByName (s : Storage) (name : Bytes) : List Chat :=
  s.chats.filter (·.name = name)

def lookupChatById (s : Storage) (chatid : Nat) : Chat :=
  (s.chats.find? (·.id = chatid)).getD {}

/-- The first locked section of `lookupChatsForUserId`. -/
def chatIdsForUserId (s : Storage) (uid : Nat) : List Nat :=
  (s.chatuser.filter (·.uid = uid)).map (·.chatid)

/-- The first locked section of `lookupUsersForChatId`. -/
def userIdsForChatId (s : Storage) (chatid : Nat) : List Nat :=
  (s.chatuser.filter (·.chatid = chatid)).map (·.uid)

def addUserToChat (s : Storage) (chat : Chat) (user : User) : Option Storage :=
  if s.chatuser.any (fun r => r.chatid = chat.id ∧ r.uid = user.id) then some s
  else do
    let chatuser ← emplaceBack s.chatuser { chatid := chat.id, uid := user.id }
    return { s with chatuser }

/-! ## Messages -/

def saveMessage (s : Storage) (msg : Message) : Option Storage := do
  let messages ← emplaceBack s.messages msg
  return { s with messages }

/-- The limit test both scans make after each message. -/
def full (opt : GetMsgOpt) (ret : List Message) : Bool :=
  opt.maxCount ≠ 0 && opt.maxCount ≤ ret.length

/-- The loop `for (size_t i = size - 1; ; --i)` of `getMessages`, at index `i`. The
table is changed in place; `none` would be an index outside the table. -/
def getMessagesLoop (chatid : Nat) (opt : GetMsgOpt) :
    Nat → List Message → List Message → Option (List Message × List Message)
  | i, table, ret =>
    match table[i]? with
    | none => none
    | some m =>
      let hit := m.chatTo = chatid ∧ opt.ts < m.ts
      let ret := if hit then ret ++ [m] else ret
      let table := if hit then table.set i { m with flags := .read } else table
      if full opt ret then some (table, ret)
      else match i with
        | 0 => some (table, ret)
        | i + 1 => getMessagesLoop chatid opt i table ret

/-- Newest to oldest. A returned message is a copy taken before its flag is set. -/
def getMessages (s : Storage) (chatid : Nat) (opt : GetMsgOpt) :
    Option (Storage × List Message) :=
  if s.messages = [] then some (s, [])
  else do
    let (messages, ret) ← getMessagesLoop chatid opt (s.messages.length - 1) s.messages []
    return ({ s with messages }, ret)

/-- The same loop in `selectMessages`, which only reads the table. -/
def selectMessagesLoop (pred : Message → Bool) (opt : GetMsgOpt) (table : List Message) :
    Nat → List Message → Option (List Message)
  | i, ret =>
    match table[i]? with
    | none => none
    | some m =>
      let ret := if pred m then ret ++ [m] else ret
      if full opt ret then some ret
      else match i with
        | 0 => some ret
        | i + 1 => selectMessagesLoop pred opt table i ret

def selectMessages (s : Storage) (pred : Message → Bool) (opt : GetMsgOpt) :
    Option (List Message) :=
  if s.messages = [] then some []
  else selectMessagesLoop pred opt s.messages (s.messages.length - 1) []

end Storage

end O2Chat.Db
