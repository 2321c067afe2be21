import O2Chat.Server.Connection

/-!
# Send requests and saved messages

A request puts at most one task, and a task saves at most one message, if its
command is a send command. The poll timer makes a task from the request details of
the connection as well. While these hold a send command it repeats a request that
has been executed already.
-/
namespace O2Chat.Server

open O2Chat.Common O2Chat.Db O2Chat.Lib.Interleaving O2Chat.Lib.Runs

def isSendRequest (req : HttpReply) : Bool :=
  lowercased req.resource = bytes "/v1/message/send" ||
    lowercased req.resource = bytes "/v1/message/sendchat"

/-- The send requests received on connection `c`. -/
def sendRequests (s : System) (c : Nat) : Nat := (s.clients c).received.countP isSendRequest

/-- The messages that tasks of connection `c` have saved. -/
def messagesSaved (s : System) (c : Nat) : Nat :=
  ((s.workers.threads.filter (·.tag.client = c)).map fun t => (saved t.hist).length).sum

/-- The poll timer of `c` does not run while the last command of `c` is a send command. -/
def NoPollOfSend (c : Nat) (s : System) (a : Action) : Prop :=
  a = .timerRun c → isSend (s.clients c).requestDetails.command = false

instance (c : Nat) (s : System) (a : Action) : Decidable (NoPollOfSend c s a) :=
  inferInstanceAs (Decidable (_ → _))

/-! ## Tasks are made by requests and by timers -/

/-- Every task made so far: in the queue, in progress or finished. -/
def allTasks (s : System) : List Task := s.queue ++ s.workers.threads.map (·.tag)

section

variable {env : Extern} {s s' : System} {a : Action} {c : Nat}

theorem map_tag_work {p p' : Workers} {i : Nat} {t : Thread} {e : Event}
    (hw : p.work Op.exec i = some (p', t, e)) : p'.threads.map (·.tag) = p.threads.map (·.tag) := by
  obtain ⟨hi, k, -, -, -, rfl⟩ := Pool.work_cases hw
  rw [List.map_set]
  apply List.ext_getElem?
  intro j
  rw [List.getElem?_set]
  split
  · rename_i hj
    subst hj
    obtain ⟨hlt, hget⟩ := List.getElem?_eq_some_iff.mp hi
    simp [hlt, hget]
  · rfl

/-- The request puts this task, with the parameters that it has. -/
structure PutBy (env : Extern) (req : HttpReply) (task : Task) : Prop where
  route : ApiClient.route (lowercased req.resource) = some task.cmd
  params : ∃ before, parseMeta env before req.body task.cmd = some ([], task.request)

/-- A step makes no task, or a timer makes one, or a request makes one. -/
theorem allTasks_step (h : s.step env a = some s') : ∃ new, (allTasks s').Perm (allTasks s ++ new) ∧
    (new = [] ∨
      (∃ d task, a = .timerRun d ∧ new = [task] ∧ task.client = d ∧
        task.cmd = (s.clients d).requestDetails.command) ∨
      ∃ d req task, a = .readDone d (some req) ∧ new = [task] ∧ task.client = d ∧
        PutBy env req task) := by
  cases a with
  | handshake d error =>
    obtain ⟨-, reads, -, rfl⟩ := System.handshake_cases h
    exact ⟨[], by simp [allTasks], Or.inl rfl⟩
  | readDone d req =>
    obtain ⟨-, ⟨-, rfl⟩ | ⟨r, client, tasks, rfl, hh, rfl⟩⟩ := System.readDone_cases h
    · exact ⟨[], by simp [allTasks], Or.inl rfl⟩
    · refine ⟨tasks, ?_, ?_⟩
      · simp only [allTasks, System.putTasks_queue, System.setClient_queue,
          System.putTasks_workers, System.setClient_workers, List.append_assoc]
        exact List.perm_append_comm.append_left s.queue
      · cases (ApiClient.requestFromClientReadHandler_cases hh).2.2.2.2 with
        | wrote => exact Or.inl rfl
        | put task hclient hroute =>
          obtain ⟨-, hparse, -⟩ := ApiClient.request_task hh List.mem_cons_self
          exact Or.inr (Or.inr ⟨d, r, task, rfl, rfl, hclient, hroute, _, hparse⟩)
  | writeDone d i error =>
    obtain ⟨w, -, rfl⟩ := System.writeDone_cases h
    exact ⟨[], by simp [allTasks], Or.inl rfl⟩
  | timerExpire d =>
    obtain ⟨-, rfl⟩ := System.timerExpire_cases h
    exact ⟨[], by simp [allTasks], Or.inl rfl⟩
  | timerRun d =>
    obtain ⟨-, client, task, hh, rfl⟩ := System.timerRun_cases h
    obtain ⟨ping, last, -, htask⟩ := ApiClient.timerWaitTaskResultHandler_cases hh
    refine ⟨[task], ?_, Or.inr (Or.inl ⟨d, task, rfl, rfl, by rw [htask], by rw [htask]⟩)⟩
    simp only [allTasks, System.putTasks_queue, System.setClient_queue, System.putTasks_workers,
      System.setClient_workers, List.append_assoc]
    exact List.perm_append_comm.append_left s.queue
  | getTask =>
    obtain ⟨task, queue, hq, rfl⟩ := System.getTask_cases h
    refine ⟨[], ?_, Or.inl rfl⟩
    simp only [allTasks, Pool.spawn, List.map_append, List.map_cons, List.map_nil, hq,
      List.append_nil, ← List.append_assoc, List.cons_append]
    exact List.perm_append_singleton task _
  | work i =>
    obtain ⟨workers, t, e, hw, ⟨reply, rows, -, rfl⟩ | ⟨-, rfl⟩⟩ := System.work_cases h
    · exact ⟨[], by simp [allTasks, map_tag_work hw], Or.inl rfl⟩
    · exact ⟨[], by simp [allTasks, map_tag_work hw], Or.inl rfl⟩
  | clock now =>
    obtain rfl := Option.some.inj h
    exact ⟨[], by simp [allTasks, setClock], Or.inl rfl⟩

/-- A request read on `c` is noted there; nothing else changes what was received. -/
theorem received_step (h : s.step env a = some s') :
    (s'.clients c).received = (s.clients c).received ∨
      ∃ req, a = .readDone c (some req) ∧ (s'.clients c).received = req :: (s.clients c).received := by
  cases step_touch c h with
  | none hsame => exact Or.inl (by rw [hsame])
  | handshake error ha hnew reads hreads hclient => exact Or.inl (by rw [hclient])
  | readError ha hreads hclient => exact Or.inl (by rw [hclient])
  | request req tasks ha hreads hclient =>
    exact Or.inr ⟨req, ha, (ApiClient.requestFromClientReadHandler_cases hclient).2.2.1⟩
  | wrote i error w ha hw hclient =>
    left
    rw [hclient]
    obtain ⟨-, heq⟩ | ⟨_, -, -, heq⟩ | ⟨_, -, -, heq⟩ | ⟨-, heq⟩ :=
      ApiClient.writeHandler_cases { s.clients c with writes := (s.clients c).writes.eraseIdx i }
        error w.handler <;> rw [heq]
  | expired ha harmed hclient => exact Or.inl (by rw [hclient])
  | polled task ha hexpired hclient =>
    obtain ⟨ping, last, heq, -⟩ := ApiClient.timerWaitTaskResultHandler_cases hclient
    exact Or.inl (by rw [heq]; rfl)
  | replied i workers t e reply rows ha hw ht hop hclient =>
    obtain ⟨httpCode, data, handler, heq⟩ := ApiClient.deliver_cases (s.clients c) s.now reply
    exact Or.inl (by rw [hclient, heq])

theorem received_readDone {req : HttpReply} (h : s.step env (.readDone c (some req)) = some s') :
    (s'.clients c).received = req :: (s.clients c).received := by
  obtain ⟨-, ⟨hnone, -⟩ | ⟨r, client, tasks, hr, hh, rfl⟩⟩ := System.readDone_cases
    (show s.readDone env c (some req) = some s' from h)
  · cases hnone
  · cases hr
    rw [System.putTasks_clients, System.setClient_same]
    exact (ApiClient.requestFromClientReadHandler_cases hh).2.2.1

/-! ## A request for each task -/

/-- The send tasks of connection `c` made so far. -/
def sendTasks (s : System) (c : Nat) : List Task :=
  (allTasks s).filter fun task => task.client = c && isSend task.cmd

/-- The two send routes lead to the two send commands, and no other route does. -/
theorem isSendRequest_of_route {req : HttpReply} {cmd : Cmd}
    (h : ApiClient.route (lowercased req.resource) = some cmd) (hsend : isSend cmd = true) :
    isSendRequest req = true := by
  obtain ⟨hroute, -⟩ := ApiClient.route_some h
  cases cmd with
  | messageSend => exact Bool.or_eq_true_iff.mpr (Or.inl (decide_eq_true hroute))
  | messageSendChat => exact Bool.or_eq_true_iff.mpr (Or.inr (decide_eq_true hroute))
  | _ => cases hsend

/-- Each send task of `c` was put by a request of its own: no request has put two. -/
def OwnRequests (env : Extern) (s : System) (c : Nat) : Prop :=
  ∃ reqs tasks, reqs.Sublist (s.clients c).received ∧ tasks.Perm (sendTasks s c) ∧
    List.Forall₂ (PutBy env) reqs tasks

theorem ownRequests_step (hs : OwnRequests env s c) (hok : NoPollOfSend c s a)
    (h : s.step env a = some s') : OwnRequests env s' c := by
  obtain ⟨reqs, tasks, hsub, htasks, hput⟩ := hs
  obtain ⟨new, hperm, hnew⟩ := allTasks_step h
  have hsend : (sendTasks s' c).Perm
      (sendTasks s c ++ new.filter fun task => task.client = c && isSend task.cmd) := by
    have hfilter := hperm.filter fun task => task.client = c && isSend task.cmd
    rwa [List.filter_append] at hfilter
  have hgrown : reqs.Sublist (s'.clients c).received := by
    rcases received_step (c := c) h with hsame | ⟨req, -, hreq⟩
    · rw [hsame]
      exact hsub
    · rw [hreq]
      exact hsub.cons req
  have hsame : (new.filter fun task => task.client = c && isSend task.cmd) = [] →
      OwnRequests env s' c := by
    intro hnil
    rw [hnil, List.append_nil] at hsend
    exact ⟨reqs, tasks, hgrown, htasks.trans hsend.symm, hput⟩
  rcases hnew with rfl | ⟨d, task, rfl, rfl, hclient, hcmd⟩ | ⟨d, req, task, rfl, rfl, hclient, hone⟩
  · exact hsame rfl
  · -- a poll of this connection repeats no send command
    refine hsame (List.filter_eq_nil_iff.mpr ?_)
    intro u hu
    obtain rfl := List.mem_singleton.mp hu
    by_cases hd : d = c
    · subst hd
      simp [hcmd, hok rfl]
    · simp [hclient, hd]
  · by_cases hmine : task.client = c ∧ isSend task.cmd = true
    · obtain rfl : d = c := hclient.symm.trans hmine.1
      rw [List.filter_cons_of_pos (by simp [hmine]), List.filter_nil] at hsend
      refine ⟨req :: reqs, task :: tasks, ?_, ?_, .cons hone hput⟩
      · rw [received_readDone h]
        exact hsub.cons_cons req
      · exact (htasks.cons task).trans ((List.perm_append_singleton task _).symm.trans hsend.symm)
    · refine hsame (List.filter_eq_nil_iff.mpr ?_)
      intro u hu
      obtain rfl := List.mem_singleton.mp hu
      simpa using hmine

/-- So there are no more send tasks than send requests. -/
theorem OwnRequests.length_le (h : OwnRequests env s c) :
    (sendTasks s c).length ≤ sendRequests s c := by
  obtain ⟨reqs, tasks, hsub, hperm, hput⟩ := h
  have hsends : ∀ task ∈ tasks, isSend task.cmd = true := by
    intro task htask
    have hmem := (List.mem_filter.mp (hperm.mem_iff.mp htask)).2
    exact (Bool.and_eq_true_iff.mp hmem).2
  have hcount : reqs.countP isSendRequest = reqs.length := by
    clear hsub hperm
    induction hput with
    | nil => rfl
    | cons hone _ ih =>
      obtain ⟨hsend, hrest⟩ := List.forall_mem_cons.mp hsends
      rw [List.countP_cons_of_pos (isSendRequest_of_route hone.route hsend), ih hrest]
      rfl
  calc (sendTasks s c).length = reqs.length := by rw [← hperm.length_eq, hput.length_eq]
    _ = reqs.countP isSendRequest := hcount.symm
    _ ≤ sendRequests s c := hsub.countP_le

/-- Each task of the connection saves at most one message, and only send tasks do. -/
theorem messagesSaved_le (hsafe : s.workers.Safe env) :
    messagesSaved s c ≤ (sendTasks s c).length := by
  have key : ∀ threads : List Thread, (∀ t ∈ threads, Good env t.tag t.hist) →
      ((threads.filter (·.tag.client = c)).map fun t => (saved t.hist).length).sum ≤
        (threads.map (·.tag)).countP fun task => task.client = c && isSend task.cmd := by
    intro threads
    induction threads with
    | nil => simp
    | cons t threads ih =>
      intro hgood
      have hrest := ih fun u hu => hgood u (List.mem_cons_of_mem _ hu)
      have hsaves := (hgood t List.mem_cons_self).saves
      simp only [List.map_cons, List.countP_cons, List.filter_cons]
      by_cases hc : t.tag.client = c
      · simp only [hc, decide_true, if_true, List.map_cons, List.sum_cons, Bool.true_and]
        omega
      · simp only [hc, decide_false, Bool.false_eq_true, if_false, Bool.false_and]
        exact hrest
  unfold messagesSaved sendTasks allTasks
  rw [← List.countP_eq_length_filter, List.countP_append]
  exact Nat.le_trans (key s.workers.threads hsafe.hist) (Nat.le_add_left _ _)

/-- In a run in which the poll timer of a connection never runs while the connection's last
command is a send command, the tasks of the connection save at most as many messages as send
requests were received on it: each send task was put by a request of its own, with the parameters
of this request, and saves at most one message. -/
theorem no_request_saved_twice (env : Extern) (c : Nat) (s : System)
    (h : Run (System.step env) (NoPollOfSend c) {} s) :
    messagesSaved s c ≤ sendRequests s c ∧ OwnRequests env s c ∧
      ∀ t ∈ s.workers.threads, (saved t.hist).length ≤ if isSend t.tag.cmd then 1 else 0 := by
  have hsafe := system_safe h
  have hown : OwnRequests env s c :=
    h.invariant ⟨[], [], List.nil_sublist _, .refl [], .nil⟩
      fun _ _ _ hs hok hstep => ownRequests_step hs hok hstep
  exact ⟨Nat.le_trans (messagesSaved_le hsafe) hown.length_le, hown,
    fun t ht => (hsafe.hist t ht).saves⟩

end

namespace Sample

def sendBody (uid : Nat) (user message : String) : Bytes :=
  Writer.object [("uid", Writer.uint64 uid), ("password", Writer.string (bytes "password")),
    ("to", Writer.string (bytes user)), ("message", Writer.string (bytes message))]

def sendJson (uid : Nat) (user message : String) : Json :=
  .object [(bytes "uid", .int uid), (bytes "password", .string (bytes "password")),
    (bytes "to", .string (bytes user)), (bytes "message", .string (bytes message))]

def noteExt : Extern := knowing [(createBody "amy", createJson "amy"), (idleBody 7 0, idleJson 7 0),
  (sendBody 1 "amy" "note", sendJson 1 "amy" "note")]

/-- A request on connection 0 whose task performs `n` operations as worker thread `i`. -/
def served (resource : String) (body : Bytes) (i n : Nat) : List Action :=
  [.readDone 0 (some (request resource body)), .getTask] ++ List.replicate n (.work i)

/-- Amy registers on connection 0 and writes a note to herself. -/
def note (i : Nat) : List Action := served "/v1/message/send" (sendBody 1 "amy" "note") i 5

def amyRegisters : List Action :=
  .handshake 0 false :: served "/v1/user/create" (createBody "amy") 0 3 ++ [.writeDone 0 0 false]

/-- Bob registers on connection 0 too; worker thread `i` is the next. -/
def bobRegisters (i : Nat) : List Action :=
  served "/v1/user/create" (createBody "bob") i 3 ++ [.writeDone 0 0 false]

def talkExt : Extern := knowing [(createBody "amy", createJson "amy"),
  (createBody "bob", createJson "bob"), (sendBody 1 "bob" "note", sendJson 1 "bob" "note"),
  (sendBody 2 "amy" "answer", sendJson 2 "amy" "answer")]

/-- Amy writes to bob, and he answers. -/
def talk : List Action :=
  amyRegisters ++ bobRegisters 1 ++ served "/v1/message/send" (sendBody 1 "bob" "note") 2 5 ++
    [.writeDone 0 0 false] ++ served "/v1/message/send" (sendBody 2 "amy" "answer") 3 5

end Sample

theorem no_request_saved_twice_note : ∃ s,
    Run (System.step Sample.noteExt) (NoPollOfSend 0) {} s ∧
      messagesSaved s 0 = 1 ∧ messagesSaved s 0 ≤ sendRequests s 0 ∧
      OwnRequests Sample.noteExt s 0 := by
  have hlist : (runList (System.step Sample.noteExt) (NoPollOfSend 0) {}
      (Sample.amyRegisters ++ Sample.note 1)).any (fun s => messagesSaved s 0 = 1) = true := by
    decide +kernel
  obtain ⟨s, hrun, hone⟩ := exists_run hlist
  obtain ⟨hle, hown, -⟩ := no_request_saved_twice Sample.noteExt 0 s hrun
  exact ⟨s, hrun, by simpa using hone, hle, hown⟩

/-- A refused poll lets the next request in, a send request, and the timer repeats it. -/
theorem request_saved_twice : ¬ ∀ s, Run (System.step Sample.noteExt) anyStep {} s →
    messagesSaved s 0 ≤ sendRequests s 0 := by
  intro hclaim
  have hlist : (runList (System.step Sample.noteExt) anyStep {}
      (Sample.amyRegisters ++
        [.readDone 0 (some (Sample.request "/v1/idle" (Sample.idleBody 7 0))),
          .writeDone 0 0 false] ++
        Sample.refusedPoll 1 ++ [.writeDone 0 0 false] ++ Sample.note 2 ++
        [.timerExpire 0, .timerRun 0, .getTask] ++ List.replicate 5 (.work 3))).any
      (fun s => messagesSaved s 0 = 2 ∧ sendRequests s 0 = 1) = true := by decide +kernel
  obtain ⟨s, hrun, htwo⟩ := exists_run hlist
  have hle := hclaim s hrun
  simp only [decide_eq_true_eq] at htwo
  omega

end O2Chat.Server
