import O2Chat.Db.Calls
import O2Chat.Lib.Interleaving
import O2Chat.Lib.Runs
import O2Chat.Server.Request
import O2Chat.Server.Responses

/-!
# The database workers

One round of `DatabaseWorker::processQueue` is a program over the operations a
worker performs one at a time: a locked section of the store, reading the clock, or
a call of a `send...` method of the client. The dispatcher is the pool of these
programs over the store and the clock.
-/
namespace O2Chat.Server

open O2Chat.Common O2Chat.Db O2Chat.Lib.Interleaving O2Chat.Lib.Runs

/-- The calls a worker makes on `task.client`. -/
inductive Reply
  | sendErrorResponse (httpCode : Nat) (apiCode : ApiStatusCode) (desc : Bytes)
  | sendOkResponse (body : Bytes)
  | sendMessages (msgs : List ApiMessage)
  | sendMessagesToIdleConn (msgs : List ApiMessage)
  deriving DecidableEq, Repr

def Reply.isError : Reply → Bool
  | .sendErrorResponse .. => true
  | _ => false

/-- Of the replies only this one does not lead to the next read. -/
def Reply.toIdle : Reply → Bool
  | .sendMessagesToIdleConn _ => true
  | _ => false

/-- `rows` is a history variable: the stored messages that the reply was made from. -/
inductive Op
  | db (call : Call)
  | time
  | reply (reply : Reply) (rows : List Message)

@[reducible] def Op.Res : Op → Type
  | .db call => call.Result
  | .time => Nat
  | .reply .. => Unit

/-- `saves` is a history variable: every message saved, with the users that were
members of its chat then. -/
structure Shared where
  storage : Storage := {}
  clock : Nat := 0
  saves : List (Message × List Nat) := []
  deriving DecidableEq, Repr

def savedBy (s : Storage) : Call → List (Message × List Nat)
  | .saveMessage msg => [(msg, s.userIdsForChatId msg.chatTo)]
  | _ => []

def Op.exec : (o : Op) → Shared → Option (Shared × o.Res)
  | .db call, s => (call.exec s.storage).map fun done =>
      ({ s with storage := done.1, saves := s.saves ++ savedBy s.storage call }, done.2)
  | .time, s => some (s, s.clock)
  | .reply .., s => some (s, ())

abbrev Work := Prog Op Op.Res

def call (c : Call) : Work c.Result := Prog.perform (Op.db c)

def time : Work Nat := Prog.perform Op.time

def send (r : Reply) : Work Unit := Prog.perform (Op.reply r [])

def sendRows (r : Reply) (rows : List Message) : Work Unit := Prog.perform (Op.reply r rows)

/-! ## Lookups -/

def lookupCheckPass (env : Extern) (task : Task) : Work User := do
  let user ← call (.lookupUserById task.request.uid)
  if user.id = 0 then
    send (.sendErrorResponse 409 .errConstraint (bytes "user does not exist"))
    return {}
  else if encryptedPass env task.request.password ≠ user.password then
    send (.sendErrorResponse 403 .errConstraint (bytes "wrong password"))
    return {}
  else return user

def lookupCheckPassByName (env : Extern) (name : Bytes) (task : Task) (checkPass : Bool) :
    Work User := do
  let users ← call (.lookupUserByName name)
  match users with
  | [] =>
    send (.sendErrorResponse 404 .errNotFound (bytes "user does not exist"))
    return {}
  | [user] =>
    if checkPass = true ∧ encryptedPass env task.request.password ≠ user.password then
      send (.sendErrorResponse 403 .errConstraint (bytes "wrong password"))
      return {}
    else return user
  | _ =>
    send (.sendErrorResponse 500 .errInternal (bytes "more than one user with that name"))
    return {}

def lookupChatsForUserId (uid : Nat) : Work (List Chat) := do
  let chats ← call (.chatIdsForUserId uid)
  Prog.traverse (fun chatid => call (.lookupChatById chatid)) chats

/-- No command asks for it. -/
def lookupUsersForChatId (chatid : Nat) : Work (List User) := do
  let uids ← call (.userIdsForChatId chatid)
  Prog.traverse (fun uid => call (.lookupUserById uid)) uids

/-- The overload for batches runs over their concatenation. -/
def toApiFormat (msgs : List Message) : Work (List ApiMessage) :=
  Prog.traverse (fun msg => do
    let chat ← call (.lookupChatById msg.chatTo)
    let user ← call (.lookupUserById msg.userFrom)
    return { ts := msg.ts, from_ := user.name, to_ := chat.name, msg := msg.message }) msgs

def mixFromAndToMessages (env : Extern) (from_ to_ : List Message) (max : Nat) : List Message :=
  let tmp := env.sortByTs (from_ ++ to_)
  if tmp.length ≤ max then tmp else tmp.take max

/-! ## The branches of `processQueue` -/

def processIdle (env : Extern) (task : Task) : Work Unit := do
  let user ← lookupCheckPass env task
  if user.id = 0 then return ()
  else
    let now ← time
    call (.updateUserHeartBit user now)
    let chats ← lookupChatsForUserId user.id
    let batch ← Prog.traverse
      (fun chat : Chat => call (.getMessages chat.id { ts := task.request.ts })) chats
    let msgsBatch := batch.filter (· ≠ [])
    if msgsBatch ≠ [] then
      let apiMsgs ← toApiFormat msgsBatch.flatten
      sendRows (.sendMessagesToIdleConn apiMsgs) msgsBatch.flatten
    else if task.ping = true then send (.sendMessagesToIdleConn [])
    else return ()

def processUserStatus (env : Extern) (task : Task) : Work Unit := do
  let user ← lookupCheckPass env task
  if user.id = 0 then return ()
  else
    let userTo ← lookupCheckPassByName env task.request.user task false
    if userTo.id = 0 then return ()
    else
      let now ← time
      send (.sendOkResponse (okResponseBodyOfUser userTo now))

/-- The condition of both scans of `USER_HISTORY`: sent by one user to the other one's
self chat. -/
def sentTo (userFrom userTo : User) (msg : Message) : Bool :=
  msg.userFrom = userFrom.id ∧ msg.chatTo = userTo.selfChatId

/-- `count * 2` is stored in 32 bits. -/
def processUserHistory (env : Extern) (task : Task) : Work Unit := do
  let userFrom ← lookupCheckPass env task
  if userFrom.id = 0 then return ()
  else
    let userTo ← lookupCheckPassByName env task.request.user task false
    if userTo.id = 0 then return ()
    else
      let opt : GetMsgOpt := { maxCount := task.request.count * 2 % 2 ^ 32 }
      let msgsTo ← call (.selectMessages (sentTo userFrom userTo) opt)
      let msgsFrom ← call (.selectMessages (sentTo userTo userFrom) opt)
      let mix := mixFromAndToMessages env msgsFrom msgsTo task.request.count
      let apiMsgs ← toApiFormat mix
      sendRows (.sendMessages apiMsgs) mix

def statusOk : Bytes := bytes "\x7b\"status\": 0\x7d"

def processMessageSend (env : Extern) (task : Task) : Work Unit := do
  let user ← lookupCheckPass env task
  if user.id = 0 then return ()
  else
    let usersTo ← call (.lookupUserByName task.request.toUser)
    match usersTo with
    | [] => send (.sendErrorResponse 404 .errNotFound (bytes "user to does not exist"))
    | [userTo] =>
      let now ← time
      call (.saveMessage { userFrom := user.id, chatTo := userTo.selfChatId, ts := now,
                           message := task.request.message })
      send (.sendOkResponse statusOk)
    | _ => send (.sendErrorResponse 500 .errInternal (bytes "more than one user with that name"))

def processUserCreate (env : Extern) (task : Task) : Work Unit := do
  let user ← call (.createUser task.request.user (encryptedPass env task.request.password)
    task.storage)
  if user.id = 0 then
    send (.sendErrorResponse 409 .errConstraint (bytes "user already exists"))
  else
    let now ← time
    send (.sendOkResponse (okResponseBodyOfUser user now))

def processUserLogin (env : Extern) (task : Task) : Work Unit := do
  let user ← lookupCheckPassByName env task.request.user task true
  if user.id = 0 then return ()
  else
    let now ← time
    send (.sendOkResponse (okResponseBodyOfUser user now))

def processChatCreate (env : Extern) (task : Task) : Work Unit := do
  let user ← lookupCheckPass env task
  if user.id = 0 then return ()
  else
    let chat ← call (.createChat task.request.chatName task.request.uid)
    if chat.id = 0 then
      send (.sendErrorResponse 409 .errConstraint (bytes "chat already exists"))
    else
      let now ← time
      send (.sendOkResponse (okResponseBodyOfChat chat now))

/-- Both chat branches: anything but exactly one chat of that name is reported as none. -/
def withChat (task : Task) (k : Chat → Work Unit) : Work Unit := do
  let chats ← call (.lookupChatByName task.request.chatName)
  match chats with
  | [chat] => k chat
  | _ => send (.sendErrorResponse 404 .errNotFound (bytes "chat does not exist"))

/-- The source also builds a body from the chat and drops it. -/
def processChatAdduser (env : Extern) (task : Task) : Work Unit := do
  let user ← lookupCheckPass env task
  if user.id = 0 then return ()
  else
    let toAdd ← lookupCheckPassByName env task.request.chatAdduser task false
    if toAdd.id = 0 then return ()
    else withChat task fun chat => do
      call (.addUserToChat chat toAdd)
      send (.sendOkResponse statusOk)

def processMessageSendChat (env : Extern) (task : Task) : Work Unit := do
  let user ← lookupCheckPass env task
  if user.id = 0 then return ()
  else withChat task fun chat => do
    let now ← time
    call (.saveMessage { userFrom := user.id, chatTo := chat.id, ts := now,
                         message := task.request.message })
    send (.sendOkResponse statusOk)

/-- What a worker does with a task it has taken from the queue. -/
def processTask (env : Extern) (task : Task) : Work Unit :=
  match task.cmd with
  | .idle => processIdle env task
  | .userStatus => processUserStatus env task
  | .userHistory => processUserHistory env task
  | .messageSend => processMessageSend env task
  | .userCreate => processUserCreate env task
  | .userLogin => processUserLogin env task
  | .chatCreate => processChatCreate env task
  | .chatAdduser => processChatAdduser env task
  | .messageSendChat => processMessageSendChat env task
  | .chatHistory | .chatStatus | .messageRecent | .cmdLast => return ()

/-! ## The pool of workers -/

abbrev Event := Lib.Interleaving.Event Shared Op Op.Res

abbrev Thread := Lib.Interleaving.Thread Shared Task Op Op.Res

abbrev Workers := Pool Shared Task Op Op.Res

inductive WorkerAction
  /-- a worker takes this task -/
  | take (task : Task)
  /-- thread `i` performs its next operation -/
  | work (i : Nat)
  /-- the clock shows `now` -/
  | clock (now : Nat)

def setClock (p : Workers) (now : Nat) : Workers := { p with state := { p.state with clock := now } }

def Workers.step (env : Extern) (p : Workers) : WorkerAction → Option Workers
  | .take task => some (p.spawn task (processTask env task))
  | .work i => (p.work Op.exec i).map (·.1)
  | .clock now => some (setClock p now)

def Workers.init : Workers := ⟨{}, []⟩

/-- The store call that the thread which steps is about to make. -/
def Workers.nextCall (p : Workers) : WorkerAction → Option Call
  | .work i => match p.threads[i]? with
    | some t => match t.prog with
      | .op (.db c) _ => some c
      | _ => none
    | none => none
  | _ => none

end O2Chat.Server
