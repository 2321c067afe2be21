import O2Chat.Client.Answers
import O2Chat.Client.Input
import O2Chat.Client.Requests
import O2Chat.Common.Http

/-!
# The client

The state of `Client` of `client/src/client.cpp` and its handlers. Of a connection it
keeps what is outstanding: the `asyncConnect` and `asyncResponse` calls, and the requests
that are being written or have been written and wait for their reply. A handler runs as
one step; replies come in the order of the requests. A request that is sent while another
is being written takes its write buffer over: the requests are kept whole here. A reply that
is awaited while another one is, or on a connection that has been replaced, may be any: it
answers no request that is known. Results about replies ask that none of this happens.
-/
namespace O2Chat.Client

open O2Chat.Common

/-- `mode_t`. -/
inductive Mode
  | usual
  | chatU
  | chatG
  deriving DecidableEq, Repr

/-- `state_t`. -/
structure ChatState where
  user : Bytes := []
  mode : Mode := .usual
  deriving DecidableEq, Repr

/-- The fields of `Client` that tell who is logged in. -/
structure Session where
  selfId : Nat := 0
  selfChatId : Nat := 0
  heartBit : Nat := 0
  password : Bytes := []
  deriving DecidableEq, Repr

/-- A request handed to `sendRequest`, and the session it was sent from. -/
structure Sent where
  cmd : InputCmd
  request : Request
  before : Session
  deriving DecidableEq, Repr

/-- The request whose reply has set `m_SelfId`, and the id. -/
structure Login where
  request : Request
  uid : Nat
  deriving DecidableEq, Repr

/-! ## Connections -/

/-- An `AsyncHttpClient` with what is outstanding on it. `overlapped`: `asyncResponse` has been
called before an earlier call had completed. Then two `async_read_until` use one stream and one
buffer, which Asio does not allow, and from there on replies may be lost or garbled. -/
structure HttpConn (α : Type) where
  connects : Nat := 0
  writing : List α := []
  reads : Nat := 0
  overlapped : Bool := false
  awaiting : List α := []
  deriving DecidableEq, Repr

namespace HttpConn

variable {α : Type}

def asyncConnect (conn : HttpConn α) : HttpConn α := { conn with connects := conn.connects + 1 }

def asyncRequest (conn : HttpConn α) (request : α) : HttpConn α :=
  { conn with writing := conn.writing ++ [request] }

def asyncResponse (conn : HttpConn α) : HttpConn α :=
  { conn with reads := conn.reads + 1, overlapped := conn.overlapped || decide (conn.reads ≠ 0) }

/-- The requests without a reply so far, in the order they were sent. -/
def outstanding (conn : HttpConn α) : List α := conn.awaiting ++ conn.writing

def connectDone (conn : HttpConn α) : Option (HttpConn α) :=
  if conn.connects = 0 then none else some { conn with connects := conn.connects - 1 }

def writeDone (conn : HttpConn α) (error : Bool) : Option (HttpConn α) :=
  match conn.writing with
  | [] => none
  | request :: writing =>
    if error = true then some { conn with writing }
    else some { conn with writing, awaiting := conn.awaiting ++ [request] }

def readDone (conn : HttpConn α) : Option (HttpConn α) :=
  if conn.reads = 0 then none else some { conn with reads := conn.reads - 1 }

variable {conn conn' : HttpConn α}

theorem connectDone_some (h : conn.connectDone = some conn') :
    ∃ n, conn' = { conn with connects := n } := by
  unfold connectDone at h
  split at h
  · exact absurd h (by simp)
  · exact ⟨_, (Option.some.inj h).symm⟩

theorem readDone_some (h : conn.readDone = some conn') :
    ∃ n, conn' = { conn with reads := n } := by
  unfold readDone at h
  split at h
  · exact absurd h (by simp)
  · exact ⟨_, (Option.some.inj h).symm⟩

theorem writeDone_some {error : Bool} (h : conn.writeDone error = some conn') :
    ∃ r rest, conn.writing = r :: rest ∧ conn' = if error = true then { conn with writing := rest }
      else { conn with writing := rest, awaiting := conn.awaiting ++ [r] } := by
  cases hw : conn.writing with
  | nil => simp [writeDone, hw] at h
  | cons r rest =>
    refine ⟨r, rest, rfl, ?_⟩
    cases error with
    | true => simpa [writeDone, hw] using h.symm
    | false => simpa [writeDone, hw] using h.symm

/-! A write that ends well takes no request away, and nothing else adds one. -/

variable {r r' : α} {rest : List α}

theorem outstanding_written (hw : conn.writing = r :: rest) :
    ({ conn with writing := rest, awaiting := conn.awaiting ++ [r] } : HttpConn α).outstanding =
      conn.outstanding := by
  show conn.awaiting ++ [r] ++ rest = conn.awaiting ++ conn.writing
  rw [hw, List.append_assoc, List.singleton_append]

theorem mem_of_unwritten (hw : conn.writing = r :: rest)
    (h : r' ∈ ({ conn with writing := rest } : HttpConn α).outstanding) : r' ∈ conn.outstanding := by
  show r' ∈ conn.awaiting ++ conn.writing
  rw [hw]
  rcases List.mem_append.mp h with h | h
  · exact List.mem_append_left _ h
  · exact List.mem_append_right _ (List.mem_cons_of_mem _ h)

theorem mem_of_answered (ha : conn.awaiting = r :: rest)
    (h : r' ∈ ({ conn with awaiting := rest } : HttpConn α).outstanding) : r' ∈ conn.outstanding := by
  show r' ∈ conn.awaiting ++ conn.writing
  rw [ha]
  exact List.mem_cons_of_mem _ h

end HttpConn

/-- What is outstanding on connections that have been replaced: the callbacks still run,
on the connection that is in their place now. -/
structure Replaced where
  connects : Nat := 0
  writes : Nat := 0
  reads : Nat := 0
  deriving DecidableEq, Repr

namespace Replaced

def add {α : Type} (old : Replaced) (conn : HttpConn α) : Replaced :=
  { connects := old.connects + conn.connects
    writes := old.writes + conn.writing.length
    reads := old.reads + conn.reads }

def connectDone (old : Replaced) : Option Replaced :=
  if old.connects = 0 then none else some { old with connects := old.connects - 1 }

def writeDone (old : Replaced) : Option Replaced :=
  if old.writes = 0 then none else some { old with writes := old.writes - 1 }

def readDone (old : Replaced) : Option Replaced :=
  if old.reads = 0 then none else some { old with reads := old.reads - 1 }

end Replaced

end O2Chat.Client

namespace O2Chat

open O2Chat.Common

/-- `idleIsOpen` is `m_HttpIdle->isOpen()`. History variables: `entered` has the pairs of user and password from the command line
and from typed LOGINs, `sent` the requests handed to `sendRequest`, `login` the request
whose reply has set `m_SelfId`. -/
structure Client where
  state : Client.ChatState := {}
  idleState : Bool := false
  http : Client.HttpConn Client.Sent := {}
  httpIdle : Client.HttpConn Client.Request := {}
  idleIsOpen : Bool := false
  oldHttp : Client.Replaced := {}
  oldIdle : Client.Replaced := {}
  lastCmd : Client.InputCmd := .none
  user : Bytes
  password : Bytes
  selfId : Nat := 0
  selfChatId : Nat := 0
  heartBit : Nat := 0
  entered : List (Bytes × Bytes) := []
  sent : List Client.Request := []
  login : Option Client.Login := none
  deriving DecidableEq, Repr

end O2Chat

namespace O2Chat.Client

open O2Chat.Common

/-! ## Handlers -/

/-- The client after its constructor and the `asyncConnect` of `run`. -/
def init (user password : Bytes) : Client :=
  { user, password, entered := [(user, password)], http := ({} : HttpConn Sent).asyncConnect }

def session (c : Client) : Session :=
  { selfId := c.selfId, selfChatId := c.selfChatId, heartBit := c.heartBit, password := c.password }

def sendRequest (c : Client) (cmd : InputCmd) (request : Request) : Client :=
  { c with
    lastCmd := cmd
    http := c.http.asyncRequest { cmd, request, before := c.session }
    sent := c.sent ++ [request] }

/-- `m_Http = createConnect(m_Ssl)` and its `asyncConnect`. -/
def reconnect (c : Client) : Client :=
  { c with http := ({} : HttpConn Sent).asyncConnect, oldHttp := c.oldHttp.add c.http }

/-- In chat mode a line is a message, except for two commands. -/
def isChatLine (c : Client) (msg : Bytes) : Bool :=
  msg ≠ [] && c.state.mode = .chatU &&
    !((parse msg).cmd = .unchat || (parse msg).cmd = .directMsgUser)

/-- `none` is the end of the client. -/
def onUserInput (c : Client) (msg : Bytes) : Option Client :=
  let args := parse msg
  if c.isChatLine msg = true then
    some (c.sendRequest .directMsgUser (.messageSend c.selfId c.state.user msg c.password))
  else match args.cmd with
  | .none => some c
  | .unchat => some { c with state := { mode := .usual, user := [] } }
  | .quit => none
  | .help => some c
  | .registerUser => some (c.sendRequest .registerUser (.userCreate args.reg.name args.reg.pass))
  | .login =>
    some { c.sendRequest .login (.userLogin args.login.name args.login.pass) with
      password := args.login.pass
      entered := c.entered ++ [(args.login.name, args.login.pass)] }
  | .directMsgUser =>
    some (c.sendRequest .directMsgUser
      (.messageSend c.selfId args.direct.name args.direct.message c.password))
  | .historyUser =>
    some (c.sendRequest .historyUser
      (.userHistory c.selfId args.history.name args.history.count c.password))
  | .statusUser => some (c.sendRequest .statusUser (.userStatus c.selfId args.status c.password))
  | .chatWithUser => some { c with state := { mode := .chatU, user := args.chat } }
  | .registerGroup =>
    some (c.sendRequest .registerGroup (.chatCreate c.selfId args.group.groupname c.password))
  | .addToGroup =>
    some (c.sendRequest .addToGroup
      (.chatAdduser c.selfId args.group.groupname args.group.username c.password))
  | .directMsgGroup =>
    some (c.sendRequest .directMsgGroup
      (.messageSendChat c.selfId args.direct.name args.direct.message c.password))
  | .historyGroup => some c
  | .statusGroup => some c

def onHttpConnect (c : Client) (error : Bool) : Client :=
  if error = true then { c with http := c.http.asyncConnect }
  else if c.user ≠ [] ∧ c.password ≠ [] then
    c.sendRequest .login (.userLogin c.user c.password)
  else c

def onHttpWrite (c : Client) (error : Bool) : Client :=
  if error = true then c else { c with http := c.http.asyncResponse }

/-- `asyncConnect` of the idle connection, unless it is open. -/
def startIdle (c : Client) : Client :=
  if c.idleIsOpen = true then c else { c with httpIdle := c.httpIdle.asyncConnect }

/-- A reply comes with the request that it answers, if that is known; without a reply there was
an error. -/
def onHttpRead (parseJson : Bytes → Option Json) (c : Client) :
    Option (Option Request × HttpReply) → Option Client
  | none => some c.reconnect
  | some (request, reply) =>
    if reply.status ≠ 200 then some c
    else match c.lastCmd with
    | .login =>
      match parseResponseAswer parseJson reply.body with
      | none => none
      | some (.error _) => some c
      | some (.ok resp) =>
        some { c with
          selfId := resp.uid
          selfChatId := resp.chatid
          heartBit := resp.heartbit
          login := request.map fun request => { request, uid := resp.uid } }.startIdle
    | .historyUser => (parseMsgResponse parseJson reply.body).map fun _ => c
    | .statusUser => (parseResponseAswer parseJson reply.body).map fun _ => c
    | _ => some c

def onHttpIdleConnect (c : Client) (error : Bool) : Client :=
  if error = true then { c with httpIdle := c.httpIdle.asyncConnect }
  else { c with httpIdle := c.httpIdle.asyncRequest (.idle c.selfId c.heartBit c.password) }

def onHttpIdleWrite (c : Client) (error : Bool) : Client :=
  if error = true then c else { c with httpIdle := c.httpIdle.asyncResponse }

/-- `is_error` of `onHttpIdleRead`. -/
def isError : Option HttpReply → Bool
  | none => true
  | some reply => reply.status ≠ 200

def onHttpIdleRead (parseJson : Bytes → Option Json) (c : Client) (reply : Option HttpReply) :
    Option Client :=
  if isError reply = true then
    some { c with
      idleState := false
      httpIdle := {}
      idleIsOpen := false
      oldIdle := c.oldIdle.add c.httpIdle }.reconnect
  else if c.idleState = false then
    some { c with idleState := true, httpIdle := c.httpIdle.asyncResponse }
  else
    (parseMsgResponse parseJson ((reply.map HttpReply.body).getD [])).map fun _ =>
      { c with httpIdle := c.httpIdle.asyncResponse }

/-! ## Steps -/

/-- Whose call has completed. -/
inductive Conn
  | current
  | replaced
  deriving DecidableEq, Repr

inductive Action
  | input (msg : Bytes)
  | httpConnect (conn : Conn) (error : Bool)
  | httpWrite (conn : Conn) (error : Bool)
  /-- `asyncResponse` completes; without a reply there was an error -/
  | httpRead (conn : Conn) (reply : Option HttpReply)
  /-- the idle connection has been made, and its handshake begins -/
  | idleOpen
  | idleConnect (conn : Conn) (error : Bool)
  | idleWrite (conn : Conn) (error : Bool)
  | idleRead (conn : Conn) (reply : Option HttpReply)
  deriving DecidableEq, Repr

/-- The oldest request that waits is answered, unless reads have overlapped. A reply on a replaced
connection runs a member of a destroyed object. -/
def httpRead (parseJson : Bytes → Option Json) (c : Client) :
    Conn → Option HttpReply → Option Client
  | .current, none => c.http.readDone.bind fun http => { c with http }.onHttpRead parseJson none
  | .current, some reply =>
    if c.http.overlapped = true then
      c.http.readDone.bind fun http => { c with http }.onHttpRead parseJson (some (none, reply))
    else match c.http.awaiting with
    | [] => none
    | r :: awaiting =>
      c.http.readDone.bind fun http =>
        { c with http := { http with awaiting } }.onHttpRead parseJson
          (some (some r.request, reply))
  | .replaced, reply =>
    c.oldHttp.readDone.bind fun oldHttp =>
      { c with oldHttp }.onHttpRead parseJson (reply.map fun reply => (none, reply))

/-- The IDLE request goes on waiting: one reply is its acknowledgement, the others bring
messages. -/
def idleRead (parseJson : Bytes → Option Json) (c : Client) :
    Conn → Option HttpReply → Option Client
  | .current, reply =>
    c.httpIdle.readDone.bind fun httpIdle => { c with httpIdle }.onHttpIdleRead parseJson reply
  | .replaced, reply =>
    c.oldIdle.readDone.bind fun oldIdle => { c with oldIdle }.onHttpIdleRead parseJson reply

def step (parseJson : Bytes → Option Json) (c : Client) : Action → Option Client
  | .input msg => c.onUserInput msg
  | .httpConnect .current error =>
    c.http.connectDone.map fun http => { c with http }.onHttpConnect error
  | .httpConnect .replaced error =>
    c.oldHttp.connectDone.map fun oldHttp => { c with oldHttp }.onHttpConnect error
  | .httpWrite .current error =>
    (c.http.writeDone error).map fun http => { c with http }.onHttpWrite error
  | .httpWrite .replaced error =>
    c.oldHttp.writeDone.map fun oldHttp => { c with oldHttp }.onHttpWrite error
  | .httpRead conn reply => c.httpRead parseJson conn reply
  | .idleOpen =>
    if c.httpIdle.connects = 0 then none
    else some { c with idleIsOpen := true }
  | .idleConnect .current error =>
    if error = false ∧ c.idleIsOpen = false then none
    else c.httpIdle.connectDone.map fun httpIdle => { c with httpIdle }.onHttpIdleConnect error
  | .idleConnect .replaced error =>
    c.oldIdle.connectDone.map fun oldIdle => { c with oldIdle }.onHttpIdleConnect error
  | .idleWrite .current error =>
    (c.httpIdle.writeDone error).map fun httpIdle => { c with httpIdle }.onHttpIdleWrite error
  | .idleWrite .replaced error =>
    c.oldIdle.writeDone.map fun oldIdle => { c with oldIdle }.onHttpIdleWrite error
  | .idleRead conn reply => c.idleRead parseJson conn reply

end O2Chat.Client
