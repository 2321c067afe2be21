import O2Chat.Server.IdleStart

/-!
# What a task takes from its request

`parse_meta` writes into parameters that live as long as the connection. `fill` says
what an accepted request leaves in them, and `readParams` what a worker reads of a task.
Everything read comes from the request itself, except the `count` of a `USER_HISTORY`
that sends none: it is the one of the last accepted request that has sent one.
-/
namespace O2Chat.Server

open O2Chat.Common O2Chat.Db O2Chat.Lib.Interleaving O2Chat.Lib.Runs

/-! ## Members of a request -/

def stringOf (doc : Json) (name : String) : Bytes :=
  match findRequiredStringParam doc name with
  | some (.ok value) => value
  | _ => []

def uintOf (doc : Json) (name : String) : Option Nat :=
  match findRequiredUintParam doc name with
  | some (.ok value) => some value
  | _ => none

/-- The parameters after an accepted request. -/
def fill (doc : Json) (command : Cmd) (params : Params) : Params :=
  let params := { params with password := stringOf doc "password" }
  let signed := { params with uid := (uintOf doc "uid").getD 0 }
  match command with
  | .userCreate | .userLogin => { params with user := stringOf doc "user" }
  | .chatCreate => { signed with chatName := stringOf doc "chatname" }
  | .chatAdduser =>
    { signed with chatName := stringOf doc "chatname", chatAdduser := stringOf doc "adduser" }
  | .idle => { signed with ts := (uintOf doc "heartbit").getD params.ts }
  | .userHistory | .userStatus =>
    { signed with user := stringOf doc "user", count := (uintOf doc "count").getD params.count }
  | .messageSend =>
    { signed with message := stringOf doc "message", toUser := stringOf doc "to" }
  | .messageSendChat =>
    { signed with message := stringOf doc "message", chatName := stringOf doc "chatname" }
  | _ => signed

/-- The parameters that a worker reads for a command. -/
def readOf (command : Cmd) (params : Params) : Params :=
  let signed : Params := { uid := params.uid, password := params.password }
  match command with
  | .userCreate | .userLogin => { user := params.user, password := params.password }
  | .chatCreate => { signed with chatName := params.chatName }
  | .chatAdduser => { signed with chatName := params.chatName, chatAdduser := params.chatAdduser }
  | .idle => { signed with ts := params.ts }
  | .userStatus => { signed with user := params.user }
  | .userHistory => { signed with user := params.user, count := params.count }
  | .messageSend => { signed with message := params.message, toUser := params.toUser }
  | .messageSendChat => { signed with message := params.message, chatName := params.chatName }
  | .chatHistory | .chatStatus | .messageRecent | .cmdLast => {}

def readParams (task : Task) : Params := readOf task.cmd task.request

theorem lookupCheckPass_congr (env : Extern) (task task' : Task)
    (huid : task.request.uid = task'.request.uid)
    (hpass : task.request.password = task'.request.password) :
    lookupCheckPass env task = lookupCheckPass env task' := by
  unfold lookupCheckPass
  rw [huid, hpass]

theorem withChat_congr (task task' : Task) (k : Chat → Work Unit)
    (hname : task.request.chatName = task'.request.chatName) :
    withChat task k = withChat task' k := by
  unfold withChat
  rw [hname]
  refine congrArg (Prog.bind _) (funext fun chats => ?_)
  rcases chats with _ | ⟨chat, _ | _⟩ <;> rfl

/-- A worker does the same with a task that has only these parameters. -/
theorem processTask_readParams (env : Extern) (task : Task) :
    processTask env { task with request := readParams task } = processTask env task := by
  obtain ⟨ping, cmd, request, client, storage⟩ := task
  have hcheck := lookupCheckPass_congr env ⟨ping, cmd, readOf cmd request, client, storage⟩
    ⟨ping, cmd, request, client, storage⟩
  have hchat := withChat_congr ⟨ping, cmd, readOf cmd request, client, storage⟩
    ⟨ping, cmd, request, client, storage⟩
  cases cmd with
  | messageSend =>
    simp only [processTask, processMessageSend, readParams]
    rw [hcheck rfl rfl]
    refine congrArg (Prog.bind _) (funext fun user => ?_)
    split
    · rfl
    · refine congrArg (Prog.bind _) (funext fun usersTo => ?_)
      rcases usersTo with _ | ⟨userTo, _ | _⟩ <;> rfl
  | messageSendChat =>
    simp only [processTask, processMessageSendChat, readParams]
    rw [hcheck rfl rfl]
    refine congrArg (Prog.bind _) (funext fun user => ?_)
    rw [hchat _ rfl]
    rfl
  | chatAdduser =>
    simp only [processTask, processChatAdduser, readParams]
    rw [hcheck rfl rfl]
    refine congrArg (Prog.bind _) (funext fun user => ?_)
    simp only [hchat _ rfl]
    rfl
  | _ => rfl

/-! ## Accepted requests -/

section

variable {env : Extern} {params params' : Params} {json : Bytes} {command : Cmd} {doc : Json}

theorem requiredString_ok {name : String} {k : Bytes → Option (Bytes × Params)}
    (h : required (findRequiredStringParam doc name) params k = some ([], params')) :
    k (stringOf doc name) = some ([], params') := by
  obtain ⟨value, hvalue, hk⟩ := required_ok (fun _ => stringParam_error) h
  have : stringOf doc name = value := by rw [stringOf, hvalue]
  rw [this]
  exact hk

theorem requiredUint_ok {name : String} {k : Nat → Option (Bytes × Params)}
    (h : required (findRequiredUintParam doc name) params k = some ([], params')) :
    k ((uintOf doc name).getD 0) = some ([], params') := by
  obtain ⟨value, hvalue, hk⟩ := required_ok (fun _ => uintParam_error) h
  have : uintOf doc name = some value := by rw [uintOf, hvalue]
  rw [this]
  exact hk

theorem optionalUint_ok {name : String} {k : Option Nat → Option (Bytes × Params)}
    {err : Bytes} (h : optional (findRequiredUintParam doc name) k = some (err, params')) :
    k (uintOf doc name) = some (err, params') := by
  unfold uintOf
  unfold optional at h
  split at h
  · cases h
  · rename_i hfound
    rw [hfound]
    exact h
  · rename_i hfound
    rw [hfound]
    exact h

theorem parseMeta_accepted (h : parseMeta env params json command = some ([], params')) :
    ∃ doc, env.parse (cstr json) = some doc ∧ params' = fill doc command params := by
  unfold parseMeta at h
  cases hparse : env.parse (cstr json) with
  | none =>
    rw [hparse] at h
    obtain ⟨herr, -⟩ := Prod.mk.inj (Option.some.inj h)
    exact absurd herr (by decide)
  | some doc =>
    refine ⟨doc, rfl, ?_⟩
    rw [hparse] at h
    have h := requiredString_ok h
    dsimp only at h
    rcases ite_eq_iff.mp h with ⟨hcmd, h⟩ | ⟨hcmd, h⟩
    · have h := requiredString_ok h
      rcases ite_eq_iff.mp h with ⟨-, h⟩ | ⟨-, h⟩
      · obtain ⟨herr, -⟩ := Prod.mk.inj (Option.some.inj h)
        exact absurd herr (by decide)
      · obtain ⟨-, rfl⟩ := Prod.mk.inj (Option.some.inj h)
        rcases hcmd with rfl | rfl <;> rfl
    have h := requiredUint_ok h
    rcases ite_eq_iff.mp h with ⟨hchat, h⟩ | ⟨hchat, h⟩
    · have h := requiredString_ok h
      rcases ite_eq_iff.mp h with ⟨hadd, h⟩ | ⟨hadd, h⟩
      · have h := requiredString_ok h
        obtain ⟨-, rfl⟩ := Prod.mk.inj (Option.some.inj h)
        rw [hadd]
        rfl
      · obtain ⟨-, rfl⟩ := Prod.mk.inj (Option.some.inj h)
        rw [hchat.resolve_right hadd]
        rfl
    rcases ite_eq_iff.mp h with ⟨hidle, h⟩ | ⟨hidle, h⟩
    · have h := optionalUint_ok h
      obtain ⟨-, rfl⟩ := Prod.mk.inj (Option.some.inj h)
      rw [hidle]
      rfl
    rcases ite_eq_iff.mp h with ⟨huser, h⟩ | ⟨huser, h⟩
    · have h := requiredString_ok h
      have h := optionalUint_ok h
      obtain ⟨-, rfl⟩ := Prod.mk.inj (Option.some.inj h)
      rcases huser with rfl | rfl <;> rfl
    rcases ite_eq_iff.mp h with ⟨hsend, h⟩ | ⟨hsend, h⟩
    · have h := requiredString_ok h
      rcases ite_eq_iff.mp h with ⟨hdirect, h⟩ | ⟨hdirect, h⟩
      · have h := requiredString_ok h
        obtain ⟨-, rfl⟩ := Prod.mk.inj (Option.some.inj h)
        rw [hdirect]
        rfl
      · have h := requiredString_ok h
        obtain ⟨-, rfl⟩ := Prod.mk.inj (Option.some.inj h)
        rw [hsend.resolve_left hdirect]
        rfl
    · obtain ⟨-, rfl⟩ := Prod.mk.inj (Option.some.inj h)
      cases command with
      | userCreate => exact absurd (Or.inl rfl) hcmd
      | userLogin => exact absurd (Or.inr rfl) hcmd
      | chatCreate => exact absurd (Or.inl rfl) hchat
      | chatAdduser => exact absurd (Or.inr rfl) hchat
      | idle => exact absurd rfl hidle
      | userHistory => exact absurd (Or.inl rfl) huser
      | userStatus => exact absurd (Or.inr rfl) huser
      | messageSend => exact absurd (Or.inl rfl) hsend
      | messageSendChat => exact absurd (Or.inr rfl) hsend
      | chatHistory | chatStatus | messageRecent | cmdLast => rfl

/-! ## Rejected requests -/

theorem required_count {α : Type} {found : Option (Except Bytes α)} {n : Nat} {err : Bytes}
    {k : α → Option (Bytes × Params)} (h : required found params k = some (err, params'))
    (hn : params.count = n) (hk : ∀ value, k value = some (err, params') → params'.count = n) :
    params'.count = n := by
  unfold required at h
  split at h
  · cases h
  · obtain ⟨-, rfl⟩ := Prod.mk.inj (Option.some.inj h)
    exact hn
  · exact hk _ h

/-- A rejected request leaves the count alone. -/
theorem parseMeta_rejected {err : Bytes} (h : parseMeta env params json command = some (err, params'))
    (herr : err ≠ []) : params'.count = params.count := by
  -- the parameters at the end have the count at the start, or nothing was wrong
  have hend : ∀ {e : Bytes} {p : Params}, some (e, p) = some (err, params') →
      p.count = params.count → params'.count = params.count := by
    intro e p h hp
    obtain ⟨-, rfl⟩ := Prod.mk.inj (Option.some.inj h)
    exact hp
  unfold parseMeta at h
  cases hparse : env.parse (cstr json) with
  | none =>
    rw [hparse] at h
    exact hend h rfl
  | some doc =>
    rw [hparse] at h
    refine required_count h rfl fun password h => ?_
    rcases ite_eq_iff.mp h with ⟨-, h⟩ | ⟨-, h⟩
    · refine required_count h rfl fun user h => ?_
      rcases ite_eq_iff.mp h with ⟨-, h⟩ | ⟨-, h⟩
      · exact hend h rfl
      · exact hend h rfl
    refine required_count h rfl fun uid h => ?_
    rcases ite_eq_iff.mp h with ⟨-, h⟩ | ⟨-, h⟩
    · refine required_count h rfl fun name h => ?_
      rcases ite_eq_iff.mp h with ⟨-, h⟩ | ⟨-, h⟩
      · exact required_count h rfl fun adduser h => hend h rfl
      · exact hend h rfl
    rcases ite_eq_iff.mp h with ⟨-, h⟩ | ⟨-, h⟩
    · exact hend (optionalUint_ok h) rfl
    rcases ite_eq_iff.mp h with ⟨-, h⟩ | ⟨-, h⟩
    · refine required_count h rfl fun user h => ?_
      obtain ⟨rfl, -⟩ := Prod.mk.inj (Option.some.inj (optionalUint_ok h))
      exact absurd rfl herr
    rcases ite_eq_iff.mp h with ⟨-, h⟩ | ⟨-, h⟩
    · refine required_count h rfl fun message h => ?_
      rcases ite_eq_iff.mp h with ⟨-, h⟩ | ⟨-, h⟩
      · exact required_count h rfl fun toUser h => hend h rfl
      · exact required_count h rfl fun name h => hend h rfl
    · exact hend h rfl

theorem required_err {α : Type} {found : Option (Except Bytes α)}
    {k k' : α → Option (Bytes × Params)}
    (hk : ∀ value, (k value).map (·.1) = (k' value).map (·.1)) :
    (required found params k).map (·.1) = (required found params' k').map (·.1) := by
  rcases found with _ | (_ | value)
  · rfl
  · rfl
  · exact hk value

theorem optional_err {found : Option (Except Bytes Nat)}
    {k k' : Option Nat → Option (Bytes × Params)}
    (hk : ∀ value, (k value).map (·.1) = (k' value).map (·.1)) :
    (optional found k).map (·.1) = (optional found k').map (·.1) := by
  rcases found with _ | (_ | value)
  · rfl
  · exact hk none
  · exact hk (some value)

/-- Whether a request is accepted does not depend on the requests before it. -/
theorem parseMeta_err (env : Extern) (params params' : Params) (json : Bytes) (command : Cmd) :
    (parseMeta env params json command).map (·.1) =
      (parseMeta env params' json command).map (·.1) := by
  unfold parseMeta
  cases env.parse (cstr json) with
  | none => rfl
  | some doc =>
    refine required_err fun password => ?_
    by_cases hcmd : command = .userCreate ∨ command = .userLogin
    · rw [if_pos hcmd, if_pos hcmd]
      refine required_err fun user => ?_
      by_cases hweak : command = .userCreate ∧ passwordCheck password (minPassLen env) = false
      · rw [if_pos hweak, if_pos hweak]
        rfl
      · rw [if_neg hweak, if_neg hweak]
        rfl
    rw [if_neg hcmd, if_neg hcmd]
    refine required_err fun uid => ?_
    by_cases hchat : command = .chatCreate ∨ command = .chatAdduser
    · rw [if_pos hchat, if_pos hchat]
      refine required_err fun name => ?_
      by_cases hadd : command = .chatAdduser
      · rw [if_pos hadd, if_pos hadd]
        exact required_err fun adduser => rfl
      · rw [if_neg hadd, if_neg hadd]
        rfl
    rw [if_neg hchat, if_neg hchat]
    by_cases hidle : command = .idle
    · rw [if_pos hidle, if_pos hidle]
      exact optional_err fun heartbit => rfl
    rw [if_neg hidle, if_neg hidle]
    by_cases huser : command = .userHistory ∨ command = .userStatus
    · rw [if_pos huser, if_pos huser]
      exact required_err fun user => optional_err fun count => rfl
    rw [if_neg huser, if_neg huser]
    by_cases hsend : command = .messageSend ∨ command = .messageSendChat
    · rw [if_pos hsend, if_pos hsend]
      refine required_err fun message => ?_
      by_cases hdirect : command = .messageSend
      · rw [if_pos hdirect, if_pos hdirect]
        exact required_err fun toUser => rfl
      · rw [if_neg hdirect, if_neg hdirect]
        exact required_err fun name => rfl
    · rw [if_neg hsend, if_neg hsend]
      rfl

/-! ## The count of the last request that has one -/

def sentCount (doc : Json) : Cmd → Option Nat
  | .userHistory | .userStatus => uintOf doc "count"
  | _ => none

/-- The count that a body leaves in the parameters. -/
def acceptedCount (env : Extern) (json : Bytes) (command : Cmd) : Option Nat :=
  if (parseMeta env {} json command).map (·.1) = some [] then
    match env.parse (cstr json) with
    | some doc => sentCount doc command
    | none => none
  else none

/-- The count that a request leaves in the parameters. -/
def countOf (env : Extern) (req : HttpReply) : Option Nat :=
  match ApiClient.route (lowercased req.resource) with
  | some command =>
    if ApiClient.allowedContentType (req.getHeader (bytes "Content-Type")) = true then
      acceptedCount env req.body command
    else none
  | none => none

/-- The newest count among the requests, of which the newest is first. -/
def lastCount (env : Extern) (received : List HttpReply) : Nat :=
  (received.findSome? (countOf env)).getD 0

theorem fill_count (doc : Json) (command : Cmd) (params : Params) :
    (fill doc command params).count = (sentCount doc command).getD params.count := by
  cases command <;> rfl

theorem parseMeta_count {err : Bytes}
    (h : parseMeta env params json command = some (err, params')) :
    params'.count = (acceptedCount env json command).getD params.count := by
  have herr := parseMeta_err env params {} json command
  rw [h] at herr
  unfold acceptedCount
  rw [← herr]
  by_cases hacc : err = []
  · subst hacc
    obtain ⟨doc, hdoc, rfl⟩ := parseMeta_accepted h
    rw [if_pos (by rfl), hdoc]
    exact fill_count doc command params
  · have hne : Option.map (·.1) (some (err, params')) ≠ some [] := by
      intro heq
      exact hacc (Option.some.inj heq)
    rw [if_neg hne]
    exact parseMeta_rejected h hacc

variable {client client' : ApiClient} {id now : Nat} {req : HttpReply} {tasks : List Task}

theorem handlerImpl_count (h : client.handlerImpl env id req command = some (client', tasks)) :
    client'.requestDetails.params.count =
      (if ApiClient.allowedContentType (req.getHeader (bytes "Content-Type")) = true then
        acceptedCount env req.body command else none).getD client.requestDetails.params.count := by
  unfold ApiClient.handlerImpl at h
  split at h
  · rename_i htype
    rw [if_pos htype]
    split at h
    · cases h
    rename_i err params hparse
    dsimp only at h
    split at h
    · obtain ⟨rfl, -⟩ := Prod.mk.inj (Option.some.inj h)
      exact parseMeta_count hparse
    · obtain ⟨rfl, -⟩ := Prod.mk.inj (Option.some.inj h)
      exact parseMeta_count hparse
  · rename_i htype
    rw [if_neg htype]
    obtain ⟨rfl, -⟩ := Prod.mk.inj (Option.some.inj h)
    rfl

theorem request_count (h : client.requestFromClientReadHandler env id now req = some (client', tasks)) :
    client'.requestDetails.params.count =
      (countOf env req).getD client.requestDetails.params.count := by
  unfold ApiClient.requestFromClientReadHandler at h
  dsimp only at h
  unfold countOf
  split at h
  · rename_i hidle
    have hroute : ApiClient.route (lowercased req.resource) = none := by
      rw [hidle]
      decide +kernel
    rw [hroute]
    unfold ApiClient.idleHandler at h
    dsimp only at h
    split at h
    · cases h
    rename_i err params hparse
    have hcount : params.count = client.requestDetails.params.count := by
      refine (parseMeta_count hparse).trans ?_
      unfold acceptedCount
      split
      · split <;> rfl
      · rfl
    split at h
    · obtain ⟨rfl, -⟩ := Prod.mk.inj (Option.some.inj h)
      exact hcount
    · obtain ⟨rfl, -⟩ := Prod.mk.inj (Option.some.inj h)
      exact hcount
  cases hroute : ApiClient.route (lowercased req.resource) with
  | some cmd =>
    rw [hroute] at h
    have hcount := handlerImpl_count h
    exact hcount
  | none =>
    rw [hroute] at h
    obtain ⟨rfl, -⟩ := Prod.mk.inj (Option.some.inj h)
    rfl

/-- The task that a request leads to has the parameters of the request, filled into
those of the connection. -/
theorem task_of_request {task : Task}
    (h : client.requestFromClientReadHandler env id now req = some (client', [task])) :
    ApiClient.route (lowercased req.resource) = some task.cmd ∧ ∃ doc,
      env.parse (cstr req.body) = some doc ∧
      task.request = fill doc task.cmd client.requestDetails.params ∧
      countOf env req = sentCount doc task.cmd := by
  obtain ⟨hroute, hparse, htype, -⟩ := ApiClient.request_task h List.mem_cons_self
  obtain ⟨doc, hdoc, hfill⟩ := parseMeta_accepted hparse
  refine ⟨hroute, doc, hdoc, hfill, ?_⟩
  have hacc : (parseMeta env {} req.body task.cmd).map (·.1) = some [] := by
    rw [parseMeta_err env {} client.requestDetails.params]
    exact congrArg (Option.map (·.1)) hparse
  have hcount : acceptedCount env req.body task.cmd = sentCount doc task.cmd := by
    unfold acceptedCount
    rw [if_pos hacc, hdoc]
  unfold countOf
  rw [hroute, ← hcount]
  exact if_pos htype

/-! ## Runs -/

variable {s s' : System} {c : Nat}

theorem count_step {a : Action} (h : s.step env a = some s')
    (hs : (s.clients c).requestDetails.params.count = lastCount env (s.clients c).received) :
    (s'.clients c).requestDetails.params.count = lastCount env (s'.clients c).received := by
  cases step_touch c h with
  | none hsame =>
    rw [hsame]
    exact hs
  | handshake error ha hnew reads hreads hclient =>
    rw [hclient]
    exact hs
  | readError ha hreads hclient =>
    rw [hclient]
    exact hs
  | request req tasks ha hreads hclient =>
    rw [request_count hclient, (ApiClient.requestFromClientReadHandler_cases hclient).2.2.1]
    unfold lastCount
    rw [List.findSome?_cons]
    cases countOf env req with
    | some n => rfl
    | none => exact hs
  | wrote i error w ha hw hclient =>
    rw [hclient]
    cases w.handler with
    | responseWrote => exact hs
    | idleWrote maxTs => cases error <;> exact hs
    | idleStarted => exact hs
  | expired ha harmed hclient =>
    rw [hclient]
    exact hs
  | polled task ha hexpired hclient =>
    obtain ⟨ping, last, heq, -⟩ := ApiClient.timerWaitTaskResultHandler_cases hclient
    rw [heq]
    exact hs
  | replied i workers t e reply rows ha hw ht hop hclient =>
    obtain ⟨httpCode, data, handler, heq⟩ :=
      ApiClient.deliver_cases (s.clients c) s.now reply
    rw [hclient, heq]
    exact hs

/-- The count of a connection is the one of the last accepted request that has sent one. -/
theorem count_of_run {ok : System → Action → Prop} (h : Run (System.step env) ok {} s) :
    (s.clients c).requestDetails.params.count = lastCount env (s.clients c).received :=
  h.invariant (I := fun s => (s.clients c).requestDetails.params.count =
    lastCount env (s.clients c).received) rfl fun _ _ _ hs _ hstep => count_step hstep hs

theorem task_of_readDone {req : HttpReply} {task : Task}
    (h : s.step env (.readDone c (some req)) = some s') (hput : s'.queue = s.queue ++ [task]) :
    ApiClient.route (lowercased req.resource) = some task.cmd ∧ ∃ doc,
      env.parse (cstr req.body) = some doc ∧
      task.request = fill doc task.cmd (s.clients c).requestDetails.params ∧
      countOf env req = sentCount doc task.cmd := by
  have hread : s.readDone env c (some req) = some s' := h
  obtain ⟨-, ⟨hnone, -⟩ | ⟨r, client, tasks, hr, hh, rfl⟩⟩ := System.readDone_cases hread
  · cases hnone
  · obtain rfl := Option.some.inj hr
    obtain rfl : tasks = [task] := List.append_cancel_left hput
    have htask := task_of_request hh
    exact htask

theorem readOf_fill {command : Cmd} (hidle : command ≠ .idle) (doc : Json) (p q : Params) :
    readOf command (fill doc command p) = readOf command (fill doc command q) ↔
      command ≠ .userHistory ∨ (sentCount doc command).isSome = true ∨ p.count = q.count := by
  cases command with
  | idle => exact absurd rfl hidle
  | userHistory =>
    cases hcount : uintOf doc "count" with
    | some n => simp [readOf, fill, sentCount, hcount]
    | none => simp [readOf, fill, sentCount, hcount]
  | _ => exact iff_of_true rfl (Or.inl (by decide))

end

/-- After any two runs the same request leads to tasks whose workers read the same
parameters, except for a `USER_HISTORY` that sends no count: it has the count of the
last accepted request of its connection that has sent one. -/
theorem task_reads_its_request (env : Extern) (c₁ c₂ : Nat) (s₁ s₂ s₁' s₂' : System)
    (h₁ : Run (System.step env) anyStep {} s₁) (h₂ : Run (System.step env) anyStep {} s₂)
    (req : HttpReply) (task₁ task₂ : Task)
    (hs₁ : s₁.step env (.readDone c₁ (some req)) = some s₁')
    (hs₂ : s₂.step env (.readDone c₂ (some req)) = some s₂')
    (hput₁ : s₁'.queue = s₁.queue ++ [task₁]) (hput₂ : s₂'.queue = s₂.queue ++ [task₂]) :
    task₁.cmd = task₂.cmd ∧ (readParams task₁ = readParams task₂ ↔
      task₁.cmd ≠ .userHistory ∨ (countOf env req).isSome = true ∨
        lastCount env (s₁.clients c₁).received = lastCount env (s₂.clients c₂).received) := by
  obtain ⟨hroute₁, doc, hdoc, hrequest₁, hcount⟩ := task_of_readDone hs₁ hput₁
  obtain ⟨hroute₂, doc₂, hdoc₂, hrequest₂, -⟩ := task_of_readDone hs₂ hput₂
  obtain rfl : doc = doc₂ := Option.some.inj (hdoc.symm.trans hdoc₂)
  have hcmd : task₁.cmd = task₂.cmd := Option.some.inj (hroute₁.symm.trans hroute₂)
  refine ⟨hcmd, ?_⟩
  rw [hcount, ← count_of_run h₁, ← count_of_run h₂]
  unfold readParams
  rw [hrequest₁, hrequest₂, ← hcmd]
  exact readOf_fill (route_ne_idle hroute₁) doc _ _

namespace Sample

/-- The body of a `USER_HISTORY`, with a count or without one. -/
def historyBody (count : Option Nat) : Bytes :=
  Writer.object ([("uid", Writer.uint64 1), ("password", Writer.string (bytes "password")),
    ("user", Writer.string (bytes "amy"))] ++ count.toList.map fun n => ("count", Writer.uint64 n))

def historyJson (count : Option Nat) : Json :=
  .object ([(bytes "uid", .int 1), (bytes "password", .string (bytes "password")),
    (bytes "user", .string (bytes "amy"))] ++ count.toList.map fun n => (bytes "count", .int n))

def historyExt : Extern := knowing
  [(historyBody none, historyJson none), (historyBody (some 5), historyJson (some 5))]

def history (count : Option Nat) : HttpReply := request "/v1/user/history" (historyBody count)

def historyTask (count : Nat) : Task :=
  { cmd := .userHistory, client := 0,
    request := { uid := 1, password := bytes "password", user := bytes "amy", count } }

/-- A connection opens and asks for a history with the count 5, which is refused. -/
def historyRefused : List Action :=
  [.handshake 0 false, .readDone 0 (some (history (some 5))), .getTask, .work 0, .work 0,
    .writeDone 0 0 false]

/-- After the actions the request leads to the task. -/
def leadsTo (actions : List Action) (req : HttpReply) (task : Task) : Bool :=
  (runList (System.step historyExt) anyStep {} actions).any fun s =>
    (s.step historyExt (.readDone 0 (some req))).any fun s' => s'.queue = s.queue ++ [task]

theorem of_leadsTo {actions : List Action} {req : HttpReply} {task : Task}
    (h : leadsTo actions req task = true) : ∃ s s', Run (System.step historyExt) anyStep {} s ∧
      s.step historyExt (.readDone 0 (some req)) = some s' ∧ s'.queue = s.queue ++ [task] := by
  obtain ⟨s, hrun, hs⟩ := exists_run h
  obtain ⟨s', hstep, hput⟩ := (Option.any_eq_true _ _).mp hs
  exact ⟨s, s', hrun, hstep, of_decide_eq_true hput⟩

end Sample

theorem task_reads_its_request_with_count : ∃ task₁ task₂,
    Sample.leadsTo [.handshake 0 false] (Sample.history (some 5)) task₁ = true ∧
    Sample.leadsTo Sample.historyRefused (Sample.history (some 5)) task₂ = true ∧
    readParams task₁ = readParams task₂ := by
  have hfresh : Sample.leadsTo [.handshake 0 false] (Sample.history (some 5))
      (Sample.historyTask 5) = true := by decide +kernel
  have hlater : Sample.leadsTo Sample.historyRefused (Sample.history (some 5))
      (Sample.historyTask 5) = true := by decide +kernel
  obtain ⟨s₁, s₁', h₁, hs₁, hput₁⟩ := Sample.of_leadsTo hfresh
  obtain ⟨s₂, s₂', h₂, hs₂, hput₂⟩ := Sample.of_leadsTo hlater
  have hcount : (countOf Sample.historyExt (Sample.history (some 5))).isSome = true := by
    decide +kernel
  exact ⟨_, _, hfresh, hlater, (task_reads_its_request Sample.historyExt 0 0 s₁ s₂ s₁' s₂' h₁ h₂ _
    _ _ hs₁ hs₂ hput₁ hput₂).2.mpr (Or.inr (Or.inl hcount))⟩

/-- A history asked for without a count has the count of the request before. -/
theorem history_reuses_count : ∃ s₁ s₂ s₁' s₂',
    Run (System.step Sample.historyExt) anyStep {} s₁ ∧
    Run (System.step Sample.historyExt) anyStep {} s₂ ∧
    s₁.step Sample.historyExt (.readDone 0 (some (Sample.history none))) = some s₁' ∧
    s₂.step Sample.historyExt (.readDone 0 (some (Sample.history none))) = some s₂' ∧
    s₁'.queue = s₁.queue ++ [Sample.historyTask 0] ∧
    s₂'.queue = s₂.queue ++ [Sample.historyTask 5] ∧
    readParams (Sample.historyTask 0) ≠ readParams (Sample.historyTask 5) := by
  have hfresh : Sample.leadsTo [.handshake 0 false] (Sample.history none)
      (Sample.historyTask 0) = true := by decide +kernel
  have hlater : Sample.leadsTo Sample.historyRefused (Sample.history none)
      (Sample.historyTask 5) = true := by decide +kernel
  obtain ⟨s₁, s₁', h₁, hs₁, hput₁⟩ := Sample.of_leadsTo hfresh
  obtain ⟨s₂, s₂', h₂, hs₂, hput₂⟩ := Sample.of_leadsTo hlater
  exact ⟨s₁, s₂, s₁', s₂', h₁, h₂, hs₁, hs₂, hput₁, hput₂, by decide⟩

end O2Chat.Server
