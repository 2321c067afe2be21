import O2Chat.Common.Http
import O2Chat.Server.Worker

/-!
# One connection of the server

The state of an `ApiClient` and its handlers. Of the socket it keeps what is
outstanding: how many `asyncResponse` calls, and the `asyncWrite` calls with their
data and handler. Of the timer it keeps whether a wait is pending and how many
expired waits still have their handler to run; `expires_from_now` and `cancel` undo
a pending wait, not an expired one.
-/
namespace O2Chat.Server

open O2Chat.Common O2Chat.Db

/-- What runs when a write has completed. -/
inductive WriteHandler
  /-- `responseToClientWroteHandler` -/
  | responseWrote
  /-- the handler of `sendMessagesToIdleConn`, which has captured `max_ts` -/
  | idleWrote (maxTs : Nat)
  /-- the handler of `sendOkResponseAndStartIdle`, which does nothing -/
  | idleStarted
  deriving DecidableEq, Repr

structure Write where
  data : Bytes
  handler : WriteHandler
  deriving DecidableEq, Repr

/-- `received` is a history variable: the requests read so far, newest first. -/
structure ApiClient where
  connected : Bool := false
  httpCode : Nat := 200
  newestMsgTimestamp : Nat := 0
  lastClientPing : Nat := 0
  requestDetails : RequestDetails := {}
  reads : Nat := 0
  writes : List Write := []
  writeBuffer : Bytes := []
  timerArmed : Bool := false
  timerExpired : Nat := 0
  received : List HttpReply := []
  deriving DecidableEq, Repr

namespace ApiClient

/-- `asyncRequest`, which is `asyncWrite`: the write refers to the buffer it replaces. -/
def asyncWrite (c : ApiClient) (data : Bytes) (handler : WriteHandler) : ApiClient :=
  { c with writeBuffer := data, writes := c.writes ++ [⟨data, handler⟩] }

def readCmd (c : ApiClient) : ApiClient := { c with reads := c.reads + 1 }

def startTimer (c : ApiClient) : ApiClient := { c with timerArmed := true }

/-! ## Sending -/

def sendOkResponse (c : ApiClient) (body : Bytes) : ApiClient :=
  c.asyncWrite (buildApiOkResponse body) .responseWrote

def sendMessages (c : ApiClient) (msgs : List ApiMessage) (now : Nat) : ApiClient :=
  c.asyncWrite (buildApiOkResponse (okResponseBodyOfMessages msgs now)) .responseWrote

def sendMessagesToIdleConn (c : ApiClient) (msgs : List ApiMessage) (now : Nat) : ApiClient :=
  c.asyncWrite (buildApiOkResponse (okResponseBodyOfMessages msgs now))
    (.idleWrote (maxTimestamp msgs))

def sendOkResponseAndStartIdle (c : ApiClient) (now : Nat) : ApiClient :=
  (c.asyncWrite (buildApiOkResponse (okResponseBodyOfCmd c.requestDetails.command now))
    .idleStarted).startTimer

def sendErrorResponse (c : ApiClient) (httpCode : Nat) (apiCode : ApiStatusCode) (desc : Bytes) :
    ApiClient :=
  { c with httpCode }.asyncWrite (buildApiErrorRsponse httpCode apiCode desc) .responseWrote

/-- The calls a worker makes. -/
def deliver (c : ApiClient) (now : Nat) : Reply → ApiClient
  | .sendErrorResponse httpCode apiCode desc => c.sendErrorResponse httpCode apiCode desc
  | .sendOkResponse body => c.sendOkResponse body
  | .sendMessages msgs => c.sendMessages msgs now
  | .sendMessagesToIdleConn msgs => c.sendMessagesToIdleConn msgs now

/-! ## Handlers

A handler yields the client and the tasks it puts into the queue; `none` is a failed
assertion, which aborts the server. `id` is the number of the connection. -/

/-- `db::Task task(m_RequestDetails)`. -/
def task (c : ApiClient) (id : Nat) : Task :=
  { cmd := c.requestDetails.command, request := c.requestDetails.params, client := id }

def setParams (c : ApiClient) (params : Params) : ApiClient :=
  { c with requestDetails := { c.requestDetails with params } }

def setCommand (c : ApiClient) (command : Cmd) : ApiClient :=
  { c with requestDetails := { c.requestDetails with command } }

def allowedContentType (contentType : Bytes) : Bool :=
  startsWith contentType (bytes "text/plain") || startsWith contentType (bytes "application/json")

def handlerImpl (env : Extern) (id : Nat) (c : ApiClient) (req : HttpReply) (command : Cmd) :
    Option (ApiClient × List Task) :=
  if allowedContentType (req.getHeader (bytes "Content-Type")) = true then
    match parseMeta env c.requestDetails.params req.body command with
    | none => none
    | some (err, params) =>
      let c := c.setParams params
      if err ≠ [] then some (c.sendErrorResponse 400 .errBadRequest err, [])
      else
        let task := c.task id
        some (c, [if command = .userCreate then { task with storage := bytes "localhost:3306" }
          else task])
  else some (c.sendErrorResponse 400 .errBadRequest (bytes "not allowed content type"), [])

def v1Handler (env : Extern) (id : Nat) (c : ApiClient) (req : HttpReply) (cmd : Cmd) :
    Option (ApiClient × List Task) :=
  handlerImpl env id (c.setCommand cmd) req cmd

/-- The router, `/v1/idle` apart. -/
def route (resource : Bytes) : Option Cmd :=
  if resource = bytes "/v1/message/send" then some .messageSend
  else if resource = bytes "/v1/message/sendchat" then some .messageSendChat
  else if resource = bytes "/v1/user/login" then some .userLogin
  else if resource = bytes "/v1/user/create" then some .userCreate
  else if resource = bytes "/v1/chat/create" then some .chatCreate
  else if resource = bytes "/v1/user/history" then some .userHistory
  else if resource = bytes "/v1/group/history" then some .chatHistory
  else if resource = bytes "/v1/user/status" then some .userStatus
  else if resource = bytes "/v1/chat/adduser" then some .chatAdduser
  else none

/-- The commands that have a route. -/
def routedCmds : List Cmd :=
  [.messageSend, .messageSendChat, .userLogin, .userCreate, .chatCreate, .userHistory,
    .chatHistory, .userStatus, .chatAdduser]

/-- A routed resource is the one that `cmd2string` gives for its command. -/
theorem route_some {resource : Bytes} {cmd : Cmd} (h : route resource = some cmd) :
    resource = cmd2string cmd ∧ cmd ∈ routedCmds := by
  unfold route at h
  iterate 9
    rcases ite_eq_iff.mp h with ⟨hroute, hcmd⟩ | ⟨-, h⟩
    · rw [← Option.some.inj hcmd]
      exact ⟨hroute, by decide⟩
  cases h

theorem route_cmd2string : ∀ cmd ∈ routedCmds, route (cmd2string cmd) = some cmd := by
  decide +kernel

def idleHandler (env : Extern) (now : Nat) (c : ApiClient) (req : HttpReply) :
    Option (ApiClient × List Task) :=
  let c := c.setCommand .idle
  match parseMeta env c.requestDetails.params req.body .idle with
  | none => none
  | some (err, params) =>
    let c := c.setParams params
    if err ≠ [] then some (c.sendErrorResponse 400 .errBadRequest err, [])
    else some (c.sendOkResponseAndStartIdle now, [])

/-- What every request leaves in the client before it is routed. -/
def noteRequest (c : ApiClient) (req : HttpReply) : ApiClient :=
  { c with
    requestDetails := { c.requestDetails with
      resource := lowercased req.resource
      method := req.method }
    received := req :: c.received }

/-- Without a read error. With one the handler returns at once. -/
def requestFromClientReadHandler (env : Extern) (id now : Nat) (c : ApiClient) (req : HttpReply) :
    Option (ApiClient × List Task) :=
  let c := c.noteRequest req
  if lowercased req.resource = bytes "/v1/idle" then idleHandler env now c req
  else match route (lowercased req.resource) with
    | some cmd => v1Handler env id c req cmd
    | none => some (c.sendErrorResponse 404 .errNotFound (bytes "bad request"), [])

/-- Moves the poll's starting point behind the newest message sent. -/
def advance (c : ApiClient) : ApiClient :=
  if c.requestDetails.params.ts < c.newestMsgTimestamp then
    c.setParams { c.requestDetails.params with ts := c.newestMsgTimestamp }
  else c

/-- `time(NULL) - m_LastClientPing > 5`, on unsigned numbers. -/
def pingDue (c : ApiClient) (now : Nat) : Bool := 5 < (now + 2 ^ 64 - c.lastClientPing) % 2 ^ 64

/-- The task is made from the request details as they are now. -/
def timerWaitTaskResultHandler (id now : Nat) (c : ApiClient) : ApiClient × Task :=
  let c := c.advance
  if c.pingDue now = true then
    ({ c with lastClientPing := now }.startTimer, { c.task id with ping := true })
  else (c.startTimer, c.task id)

def responseToClientWroteHandler (c : ApiClient) : ApiClient := { c with httpCode := 200 }.readCmd

/-- On an error the timer is cancelled; pending socket operations fail as well. -/
def idleWroteHandler (c : ApiClient) (error : Bool) (maxTs : Nat) : ApiClient :=
  if error = true then { c with timerArmed := false } else { c with newestMsgTimestamp := maxTs }

def writeHandler (c : ApiClient) (error : Bool) : WriteHandler → ApiClient
  | .responseWrote => c.responseToClientWroteHandler
  | .idleWrote maxTs => c.idleWroteHandler error maxTs
  | .idleStarted => c

/-! ## What a request leads to -/

/-- A request is answered by the handler itself, with one write, or becomes one task
for the command of its route. -/
inductive Outcome (id : Nat) (req : HttpReply) (c c' : ApiClient) : List Task → Prop
  | wrote (data : Bytes) (handler : WriteHandler)
      (hwrites : c'.writes = c.writes ++ [⟨data, handler⟩]) (hbuffer : c'.writeBuffer = data) :
      Outcome id req c c' []
  | put (task : Task) (hclient : task.client = id)
      (hroute : route (lowercased req.resource) = some task.cmd)
      (hwrites : c'.writes = c.writes) (hbuffer : c'.writeBuffer = c.writeBuffer) :
      Outcome id req c c' [task]

theorem handlerImpl_cases {env : Extern} {id : Nat} {c c' : ApiClient} {req : HttpReply}
    {command : Cmd} {tasks : List Task}
    (h : handlerImpl env id c req command = some (c', tasks)) :
    (∃ params desc, c' = (c.setParams params).sendErrorResponse 400 .errBadRequest desc ∧ tasks = []) ∨
    (∃ params task, parseMeta env c.requestDetails.params req.body command = some ([], params) ∧
      allowedContentType (req.getHeader (bytes "Content-Type")) = true ∧
      c' = c.setParams params ∧ tasks = [task] ∧ task.cmd = c.requestDetails.command ∧
      task.request = params ∧ task.client = id) := by
  unfold handlerImpl at h
  split at h
  · rename_i htype
    split at h
    · cases h
    rename_i err params hparse
    dsimp only at h
    split at h
    · obtain ⟨rfl, rfl⟩ := Prod.mk.inj (Option.some.inj h)
      exact Or.inl ⟨params, err, rfl, rfl⟩
    · rename_i herr
      obtain rfl := not_not.mp herr
      obtain ⟨rfl, rfl⟩ := Prod.mk.inj (Option.some.inj h)
      refine Or.inr ⟨params, _, hparse, htype, rfl, rfl, ?_⟩
      split <;> exact ⟨rfl, rfl, rfl⟩
  · obtain ⟨rfl, rfl⟩ := Prod.mk.inj (Option.some.inj h)
    exact Or.inl ⟨c.requestDetails.params, _, rfl, rfl⟩

theorem idleHandler_cases {env : Extern} {now : Nat} {c c' : ApiClient} {req : HttpReply}
    {tasks : List Task} (h : idleHandler env now c req = some (c', tasks)) : tasks = [] ∧
    ((∃ params desc, c' = ((c.setCommand .idle).setParams params).sendErrorResponse 400
        .errBadRequest desc) ∨
      ∃ params, parseMeta env c.requestDetails.params req.body .idle = some ([], params) ∧
        c' = ((c.setCommand .idle).setParams params).sendOkResponseAndStartIdle now) := by
  unfold idleHandler at h
  dsimp only at h
  split at h
  · cases h
  rename_i err params hparse
  split at h
  · obtain ⟨rfl, rfl⟩ := Prod.mk.inj (Option.some.inj h)
    exact ⟨rfl, Or.inl ⟨params, err, rfl⟩⟩
  · rename_i herr
    obtain rfl := not_not.mp herr
    obtain ⟨rfl, rfl⟩ := Prod.mk.inj (Option.some.inj h)
    exact ⟨rfl, Or.inr ⟨params, hparse, rfl⟩⟩

/-- The request handler leaves the reads alone and has one outcome. -/
theorem requestFromClientReadHandler_cases {env : Extern} {id now : Nat} {c c' : ApiClient}
    {req : HttpReply} {tasks : List Task}
    (h : c.requestFromClientReadHandler env id now req = some (c', tasks)) :
    c'.reads = c.reads ∧ c'.connected = c.connected ∧ c'.received = req :: c.received ∧
      c'.timerExpired = c.timerExpired ∧ Outcome id req c c' tasks := by
  unfold requestFromClientReadHandler at h
  dsimp only at h
  split at h
  · obtain ⟨rfl, ⟨params, desc, rfl⟩ | ⟨params, -, rfl⟩⟩ := idleHandler_cases h
    · exact ⟨rfl, rfl, rfl, rfl, .wrote _ _ rfl rfl⟩
    · exact ⟨rfl, rfl, rfl, rfl, .wrote _ _ rfl rfl⟩
  split at h
  · rename_i cmd hroute
    rcases handlerImpl_cases h with ⟨params, desc, rfl, rfl⟩ |
      ⟨params, task, -, -, rfl, rfl, hcmd, -, hid⟩
    · exact ⟨rfl, rfl, rfl, rfl, .wrote _ _ rfl rfl⟩
    · exact ⟨rfl, rfl, rfl, rfl, .put task hid (hcmd ▸ hroute) rfl rfl⟩
  · obtain ⟨rfl, rfl⟩ := Prod.mk.inj (Option.some.inj h)
    exact ⟨rfl, rfl, rfl, rfl, .wrote _ _ rfl rfl⟩

/-- A request makes at most one task. The task has the command that the request is routed to, and
the accepted parameters, as the connection has them then. -/
theorem request_task {env : Extern} {id now : Nat} {c c' : ApiClient} {req : HttpReply}
    {tasks : List Task} (h : c.requestFromClientReadHandler env id now req = some (c', tasks))
    {task : Task} (ht : task ∈ tasks) :
    route (lowercased req.resource) = some task.cmd ∧
      parseMeta env c.requestDetails.params req.body task.cmd = some ([], task.request) ∧
      allowedContentType (req.getHeader (bytes "Content-Type")) = true ∧
      task.cmd = c'.requestDetails.command ∧ task.request = c'.requestDetails.params := by
  unfold requestFromClientReadHandler at h
  dsimp only at h
  split at h
  · obtain ⟨rfl, -⟩ := idleHandler_cases h
    cases ht
  split at h
  · rename_i cmd hroute
    rcases handlerImpl_cases h with ⟨params, desc, -, rfl⟩ |
      ⟨params, task', hparse, htype, rfl, rfl, hcmd, rfl, -⟩
    · cases ht
    · obtain rfl := List.mem_singleton.mp ht
      have hcmd : task.cmd = cmd := hcmd
      exact ⟨hcmd ▸ hroute, hcmd ▸ hparse, htype, hcmd, rfl⟩
  · obtain ⟨-, rfl⟩ := Prod.mk.inj (Option.some.inj h)
    cases ht

/-- A delivered reply is one more write. -/
theorem deliver_cases (c : ApiClient) (now : Nat) (reply : Reply) : ∃ httpCode data handler,
    c.deliver now reply =
      { c with httpCode, writes := c.writes ++ [⟨data, handler⟩], writeBuffer := data } := by
  cases reply <;> exact ⟨_, _, _, rfl⟩

theorem advance_eq (c : ApiClient) : c.advance = c.setParams { c.requestDetails.params with
    ts := max c.requestDetails.params.ts c.newestMsgTimestamp } := by
  unfold advance
  split
  · rename_i hlt
    rw [Nat.max_eq_right (Nat.le_of_lt hlt)]
  · rename_i hle
    rw [Nat.max_eq_left (by omega)]
    rfl

/-- The timer handler arms the timer again, moves the start and notes the ping. The
task has the command and the parameters of the moment. -/
theorem timerWaitTaskResultHandler_cases {id now : Nat} {c c' : ApiClient} {task : Task}
    (h : timerWaitTaskResultHandler id now c = (c', task)) : ∃ ping lastClientPing,
      c' = { c.setParams { c.requestDetails.params with
          ts := max c.requestDetails.params.ts c.newestMsgTimestamp } with
        timerArmed := true, lastClientPing } ∧
      task = { ping, cmd := c.requestDetails.command, client := id, request :=
        { c.requestDetails.params with
          ts := max c.requestDetails.params.ts c.newestMsgTimestamp } } := by
  unfold timerWaitTaskResultHandler at h
  rw [advance_eq] at h
  dsimp only at h
  split at h
  · obtain ⟨rfl, rfl⟩ := Prod.mk.inj h
    exact ⟨true, now, rfl, rfl⟩
  · obtain ⟨rfl, rfl⟩ := Prod.mk.inj h
    exact ⟨false, c.lastClientPing, rfl, rfl⟩

theorem writeHandler_cases (c : ApiClient) (error : Bool) (handler : WriteHandler) :
    (handler = .responseWrote ∧
      c.writeHandler error handler = { c with httpCode := 200, reads := c.reads + 1 }) ∨
    (∃ maxTs, handler = .idleWrote maxTs ∧ error = true ∧
      c.writeHandler error handler = { c with timerArmed := false }) ∨
    (∃ maxTs, handler = .idleWrote maxTs ∧ error = false ∧
      c.writeHandler error handler = { c with newestMsgTimestamp := maxTs }) ∨
    (handler = .idleStarted ∧ c.writeHandler error handler = c) := by
  cases handler with
  | responseWrote => exact Or.inl ⟨rfl, rfl⟩
  | idleWrote maxTs =>
    cases error with
    | true => exact Or.inr (Or.inl ⟨maxTs, rfl, rfl, rfl⟩)
    | false => exact Or.inr (Or.inr (Or.inl ⟨maxTs, rfl, rfl, rfl⟩))
  | idleStarted => exact Or.inr (Or.inr (Or.inr ⟨rfl, rfl⟩))

end ApiClient

end O2Chat.Server
