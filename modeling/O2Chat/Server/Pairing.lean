import O2Chat.Server.Carried

/-!
# Requests and responses of one connection

`Watched` runs the server and notes, for one connection, every request it reads and
every response it starts, with the worker thread that the response comes from. On a
connection that is never asked for `/v1/idle` the two lists are in step: the k-th
response answers the k-th request.
-/
namespace O2Chat.Server

open O2Chat.Common O2Chat.Db O2Chat.Lib.Interleaving O2Chat.Lib.Runs

/-- A request, with the command and the parameters right after it was parsed. -/
structure Asked where
  req : HttpReply
  command : Cmd
  params : Params

/-- The data of a response. Without a thread it comes from the request handler. -/
structure Response where
  data : Bytes
  thread : Option Thread

def asks (c : Nat) (a : Action) (s' : System) : List Asked :=
  match a with
  | .readDone d (some req) =>
    if d = c then
      [⟨req, (s'.clients c).requestDetails.command, (s'.clients c).requestDetails.params⟩]
    else []
  | _ => []

/-- The data of the writes that a step has started. -/
def started (c : Nat) (s s' : System) : List Bytes :=
  ((s'.clients c).writes.drop (s.clients c).writes.length).map (·.data)

def starts (c : Nat) (s : System) (a : Action) (s' : System) : List Response :=
  match a with
  | .work i => (started c s s').map fun data => ⟨data, s'.workers.threads[i]?⟩
  | _ => (started c s s').map fun data => ⟨data, none⟩

structure Watched where
  system : System := {}
  requests : List Asked := []
  responses : List Response := []

def Watched.step (env : Extern) (c : Nat) (w : Watched) (a : Action) : Option Watched :=
  (w.system.step env a).map fun s' =>
    { system := s', requests := w.requests ++ asks c a s',
      responses := w.responses ++ starts c w.system a s' }

/-- Connection `c` is not asked for `/v1/idle`. -/
def NoIdle (c : Nat) (_ : Watched) : Action → Prop
  | .readDone d (some req) => d = c → lowercased req.resource ≠ bytes "/v1/idle"
  | _ => True

instance (c : Nat) (w : Watched) : (a : Action) → Decidable (NoIdle c w a)
  | .readDone d (some req) =>
    inferInstanceAs (Decidable (d = c → lowercased req.resource ≠ bytes "/v1/idle"))
  | .readDone _ none | .handshake .. | .writeDone .. | .timerExpire _ | .timerRun _ | .getTask
  | .work _ | .clock _ => isTrue trivial

/-- The data that a reply is written as. -/
def replyData (now : Nat) (reply : Reply) : Bytes := (ApiClient.deliver {} now reply).writeBuffer

/-- The error response to a request that leads to no task. -/
def refusal (env : Extern) (req : HttpReply) : Option Bytes :=
  match ApiClient.requestFromClientReadHandler env 0 0 {} req with
  | some (client, []) => some client.writeBuffer
  | _ => none

/-- The thread has run the worker's program for the command and the parameters, and
has just made a reply, which is written as the data. -/
structure Computed (env : Extern) (c : Nat) (asked : Asked) (t : Thread) (data : Bytes) : Prop where
  client : t.tag.client = c
  command : t.tag.cmd = asked.command
  params : t.tag.request = asked.params
  run : Follows Op.exec (processTask env t.tag) t.hist t.prog
  reply : ∃ e ∈ t.hist.head?, ∃ reply rows, e.op = .reply reply rows ∧
    data = replyData e.pre.clock reply

/-- The response is made from the request, by its handler or by a worker. -/
def Answers (env : Extern) (c : Nat) (asked : Asked) (r : Response) : Prop :=
  match r.thread with
  | none => refusal env asked.req = some r.data
  | some t => Computed env c asked t r.data

/-! ## Lists in step -/

/-- Every answer but the last has its question before the next one is asked. -/
structure InStep {α β : Type} (R : α → β → Prop) (questions : List α) (answers : List β) : Prop where
  le : answers.length ≤ questions.length
  ge : questions.length ≤ answers.length + 1
  each : List.Forall₂ R (questions.take answers.length) answers

namespace InStep

variable {α β : Type} {R : α → β → Prop} {questions : List α} {answers : List β}

theorem nil : InStep R [] [] := ⟨Nat.le_refl _, by simp, .nil⟩

theorem ask (h : InStep R questions answers) (heq : questions.length = answers.length) (a : α) :
    InStep R (questions ++ [a]) answers := by
  refine ⟨?_, ?_, ?_⟩
  · rw [List.length_append]
    omega
  · rw [List.length_append, List.length_singleton]
    omega
  · rw [List.take_append_of_le_length (by omega)]
    exact h.each

theorem answer (h : InStep R questions answers) (hgt : questions.length = answers.length + 1)
    {a : α} (ha : questions.getLast? = some a) {b : β} (hab : R a b) :
    InStep R questions (answers ++ [b]) := by
  obtain ⟨front, rfl⟩ := List.getLast?_eq_some_iff.mp ha
  have hfront : front.length = answers.length := by simpa using hgt
  refine ⟨?_, ?_, ?_⟩
  · rw [List.length_append, List.length_append]
    simp [hfront]
  · rw [List.length_append, List.length_append]
    simp [hfront]
  · have heach := h.each
    rw [List.take_append_of_le_length (by omega), List.take_of_length_le (by omega)] at heach
    rw [List.length_append, List.length_singleton, ← hfront, List.take_of_length_le (by simp)]
    exact List.rel_append heach (.cons hab .nil)

end InStep

/-! ## What the handlers write -/

section

variable {env : Extern} {client client' : ApiClient} {id now : Nat} {req : HttpReply}
  {tasks : List Task}

theorem deliver_writes (client : ApiClient) (now : Nat) (reply : Reply) : ∃ handler,
    (client.deliver now reply).writes = client.writes ++ [⟨replyData now reply, handler⟩] := by
  cases reply <;> exact ⟨_, rfl⟩

theorem refusal_of_handlerImpl {cmd : Cmd}
    (hroute : ApiClient.route (lowercased req.resource) = some cmd)
    (hidle : lowercased req.resource ≠ bytes "/v1/idle")
    (h : client.handlerImpl env id req cmd = some (client', [])) :
    refusal env req = some client'.writeBuffer := by
  unfold refusal ApiClient.requestFromClientReadHandler
  dsimp only
  rw [if_neg hidle, hroute]
  unfold ApiClient.v1Handler
  dsimp only
  unfold ApiClient.handlerImpl at h ⊢
  by_cases htype : ApiClient.allowedContentType (req.getHeader (bytes "Content-Type")) = true
  · rw [if_pos htype] at h ⊢
    have hfresh := parseMeta_err env {} client.requestDetails.params req.body cmd
    split at h
    · cases h
    rename_i err params hparse
    rw [hparse] at hfresh
    obtain ⟨⟨err₀, params₀⟩, hparse₀, herr⟩ := Option.map_eq_some_iff.mp hfresh
    obtain rfl : err₀ = err := herr
    have hparse₀ : parseMeta env (((ApiClient.noteRequest {} req).setCommand cmd).requestDetails.params)
        req.body cmd = some (err₀, params₀) := hparse₀
    rw [hparse₀]
    dsimp only at h ⊢
    by_cases hacc : err₀ ≠ []
    · rw [if_pos hacc] at h ⊢
      obtain ⟨rfl, -⟩ := Prod.mk.inj (Option.some.inj h)
      rfl
    · rw [if_neg hacc] at h
      obtain ⟨-, hnone⟩ := Prod.mk.inj (Option.some.inj h)
      cases hnone
  · rw [if_neg htype] at h ⊢
    obtain ⟨rfl, -⟩ := Prod.mk.inj (Option.some.inj h)
    rfl

/-- Without a task the handler writes the refusal, which is the same on every connection. -/
theorem refusal_of_request (hidle : lowercased req.resource ≠ bytes "/v1/idle")
    (h : client.requestFromClientReadHandler env id now req = some (client', [])) :
    refusal env req = some client'.writeBuffer := by
  unfold ApiClient.requestFromClientReadHandler at h
  dsimp only at h
  rw [if_neg hidle] at h
  split at h
  · rename_i cmd hroute
    exact refusal_of_handlerImpl hroute hidle h
  · rename_i hroute
    obtain ⟨rfl, -⟩ := Prod.mk.inj (Option.some.inj h)
    unfold refusal ApiClient.requestFromClientReadHandler
    dsimp only
    rw [if_neg hidle, hroute]
    rfl

end

/-! ## The invariant -/

/-- The last request waits for the task. -/
def Waiting (requests : List Asked) (responses : List Response) (task : Task) : Prop :=
  requests.length = responses.length + 1 ∧ ∃ asked, requests.getLast? = some asked ∧
    task.cmd = asked.command ∧ task.request = asked.params

/-- Every request is answered while a read or a write is outstanding, and a task of the
connection is the one of the last request. -/
structure Paired (env : Extern) (c : Nat) (w : Watched) : Prop where
  fresh : Fresh w.system c
  inStep : InStep (Answers env c) w.requests w.responses
  quiet : 0 < (w.system.clients c).reads + (w.system.clients c).writes.length →
    w.requests.length = w.responses.length
  unopened : (w.system.clients c).connected = false → w.requests.length = w.responses.length
  queued : ∀ task ∈ w.system.queue, task.client = c → Waiting w.requests w.responses task
  working : ∀ t ∈ w.system.workers.threads, t.tag.client = c → unanswered t = true →
    Waiting w.requests w.responses t.tag

section

variable {env : Extern} {c : Nat} {w : Watched} {s' : System} {a : Action}

theorem paired_init (env : Extern) (c : Nat) : Paired env c {} :=
  ⟨fresh_init c, InStep.nil, fun _ => rfl, fun _ => rfl, by simp, by simp [Workers.init]⟩

/-- A step that neither reads a request nor starts a response. -/
theorem Paired.keep (hp : Paired env c w) (hfresh : Fresh s' c)
    (hquiet : 0 < (s'.clients c).reads + (s'.clients c).writes.length →
      0 < (w.system.clients c).reads + (w.system.clients c).writes.length ∨
        (w.system.clients c).connected = false)
    (hopen : (s'.clients c).connected = false → (w.system.clients c).connected = false)
    (hqueue : ∀ task ∈ s'.queue, task.client = c → task ∈ w.system.queue)
    (hthreads : ∀ t ∈ s'.workers.threads, t.tag.client = c → unanswered t = true →
      t.tag ∈ w.system.queue ∨ ∃ u ∈ w.system.workers.threads, u.tag = t.tag ∧ unanswered u = true) :
    Paired env c ⟨s', w.requests, w.responses⟩ := by
  refine ⟨hfresh, hp.inStep, ?_, ?_, ?_, ?_⟩
  · intro hpos
    rcases hquiet hpos with hold | hnew
    · exact hp.quiet hold
    · exact hp.unopened hnew
  · exact fun hnew => hp.unopened (hopen hnew)
  · exact fun task htask hc => hp.queued task (hqueue task htask hc) hc
  · intro t ht hc hun
    rcases hthreads t ht hc hun with hold | ⟨u, hu, htag, hun'⟩
    · exact hp.queued t.tag hold hc
    · exact htag ▸ hp.working u hu (htag ▸ hc) hun'

theorem started_eq_nil {s s' : System}
    (h : (s'.clients c).writes.length ≤ (s.clients c).writes.length) : started c s s' = [] := by
  unfold started
  rw [List.drop_eq_nil_of_le h]
  rfl

theorem started_eq {s s' : System} {data : Bytes} {handler : WriteHandler}
    (h : (s'.clients c).writes = (s.clients c).writes ++ [⟨data, handler⟩]) :
    started c s s' = [data] := by
  unfold started
  rw [h, List.drop_left]
  rfl

/-- Nothing of the connection is queued or in progress while something else of it is
outstanding. -/
theorem Fresh.idle_workers {s : System} (hs : Fresh s c)
    (hpos : 0 < (s.clients c).reads + (s.clients c).writes.length) :
    (∀ task ∈ s.queue, task.client ≠ c) ∧
      ∀ t ∈ s.workers.threads, t.tag.client = c → unanswered t = false := by
  have hone := hs.sequential.one
  unfold outstanding at hone
  have hqueue : queued s.queue c = 0 := by omega
  have hwork : inProgress s.workers c = 0 := by omega
  constructor
  · intro task htask
    simpa using List.countP_eq_zero.mp hqueue task htask
  · intro t ht hc
    simpa [hc] using List.countP_eq_zero.mp hwork t ht

/-- A request is read when all others are answered. Its handler answers it or makes the
task that it waits for. -/
theorem Paired.request (hp : Paired env c w) {req : HttpReply}
    (hidle : lowercased req.resource ≠ bytes "/v1/idle") (hfresh : Fresh s' c)
    (h : w.system.readDone env c (some req) = some s') :
    Paired env c ⟨s', w.requests ++ asks c (.readDone c (some req)) s',
      w.responses ++ starts c w.system (.readDone c (some req)) s'⟩ := by
  obtain ⟨hreads, ⟨hnone, -⟩ | ⟨r, client, tasks, hr, hh, hs'⟩⟩ := System.readDone_cases h
  · cases hnone
  obtain rfl := Option.some.inj hr
  have heq := hp.quiet (by omega)
  obtain ⟨hqueue, hthreads⟩ := hp.fresh.idle_workers (by omega)
  have hclient : s'.clients c = client := by
    rw [hs', System.putTasks_clients, System.setClient_same]
  have hone := hp.fresh.sequential.one
  unfold outstanding at hone
  have hwritesNil : (w.system.clients c).writes = [] := List.length_eq_zero_iff.mp (by omega)
  obtain ⟨hreads', hconnected, -, -, houtcome⟩ := ApiClient.requestFromClientReadHandler_cases hh
  have hopen : (s'.clients c).connected = true := by
    by_contra hclosed
    rw [hclient, hconnected] at hclosed
    have hzero := (hp.fresh.sequential.unopened (by simpa using hclosed)).1
    unfold outstanding at hzero
    omega
  have hasks : asks c (.readDone c (some req)) s' = [⟨req, client.requestDetails.command,
      client.requestDetails.params⟩] := by
    unfold asks
    dsimp only
    rw [if_pos rfl, hclient]
  have hworkers : s'.workers = w.system.workers := by rw [hs']; rfl
  rw [hasks]
  cases houtcome with
  | wrote data handler hwrites hbuffer =>
    have hstarts : starts c w.system (.readDone c (some req)) s' = [⟨data, none⟩] := by
      have hdata : started c w.system s' = [data] := started_eq (hclient ▸ hwrites)
      unfold starts
      dsimp only
      rw [hdata]
      rfl
    rw [hstarts]
    have hanswers : Answers env c ⟨req, client.requestDetails.command, client.requestDetails.params⟩
        ⟨data, none⟩ := (refusal_of_request hidle hh).trans (by rw [hbuffer])
    refine ⟨hfresh, (hp.inStep.ask heq _).answer (by simp [heq]) List.getLast?_concat hanswers,
      fun _ => by simp [heq], fun _ => by simp [heq], ?_, ?_⟩
    · intro task htask hc
      rw [hs'] at htask
      exact absurd hc (hqueue task (by simpa using htask))
    · intro t ht hc hun
      rw [hworkers] at ht
      rw [hthreads t ht hc] at hun
      cases hun
  | put task htask hroute hwrites hbuffer =>
    have hstarts : starts c w.system (.readDone c (some req)) s' = [] := by
      have hdata : started c w.system s' = [] := by
        refine started_eq_nil ?_
        rw [hclient, hwrites]
      unfold starts
      dsimp only
      rw [hdata]
      rfl
    rw [hstarts, List.append_nil]
    obtain ⟨-, -, -, hcmd, hrequest⟩ := ApiClient.request_task hh List.mem_cons_self
    refine ⟨hfresh, hp.inStep.ask heq _, ?_, ?_, ?_, ?_⟩
    · intro hpos
      rw [hclient, hwrites, hreads'] at hpos
      simp only [hwritesNil, List.length_nil] at hpos
      omega
    · intro hclosed
      rw [hopen] at hclosed
      cases hclosed
    · intro task' htask' hc
      rw [hs'] at htask'
      rcases List.mem_append.mp htask' with hold | hnew
      · exact absurd hc (hqueue task' hold)
      · obtain rfl := List.mem_singleton.mp hnew
        exact ⟨by simp [heq], _, List.getLast?_concat, hcmd, hrequest⟩
    · intro t ht hc hun
      rw [hworkers] at ht
      rw [hthreads t ht hc] at hun
      cases hun

/-- A worker replies to the last request. -/
theorem Paired.reply (hp : Paired env c w) (hsafe : w.system.workers.Safe env) {i : Nat}
    {workers : Workers} {t : Thread} {e : Event} {reply : Reply} {rows : List Message}
    (hfresh : Fresh s' c) (htrack : s'.workers.Tracked Op.exec (processTask env))
    (hw : w.system.workers.work Op.exec i = some (workers, t, e)) (hc : t.tag.client = c)
    (hop : e.op = .reply reply rows)
    (hs' : s' = { w.system with workers }.setClient c
      ((w.system.clients c).deliver w.system.now reply)) :
    Paired env c ⟨s', w.requests, w.responses ++ starts c w.system (.work i) s'⟩ := by
  obtain ⟨hi, k, hprog, hpre, -, hworkers⟩ := Pool.work_cases hw
  have ht := List.mem_of_getElem? hi
  obtain ⟨hlength, asked, hlast, hcmd, hrequest⟩ :=
    hp.working t ht hc (unanswered_of_reply hsafe hw hop)
  obtain ⟨handler, hwrites⟩ := deliver_writes (w.system.clients c) w.system.now reply
  have hclient : (s'.clients c).writes = (w.system.clients c).writes ++
      [⟨replyData w.system.now reply, handler⟩] := by
    rw [hs', System.setClient_same, hwrites]
  obtain ⟨u, hu, hutag, huhist⟩ : ∃ u, s'.workers.threads[i]? = some u ∧ u.tag = t.tag ∧
      u.hist = e :: t.hist := by
    obtain ⟨hlt, -⟩ := List.getElem?_eq_some_iff.mp hi
    refine ⟨⟨t.tag, k e.res, e :: t.hist⟩, ?_, rfl, rfl⟩
    rw [hs', System.setClient_workers, hworkers]
    exact List.getElem?_set_self hlt
  have hstarts : starts c w.system (.work i) s' = [⟨replyData w.system.now reply, some u⟩] := by
    unfold starts
    dsimp only
    rw [started_eq hclient, hu]
    rfl
  have hanswers : Answers env c asked ⟨replyData w.system.now reply, some u⟩ := by
    refine ⟨hutag ▸ hc, hutag ▸ hcmd, hutag ▸ hrequest, htrack u (List.mem_of_getElem? hu), e, ?_,
      reply, rows, hop, ?_⟩
    · rw [huhist]
      rfl
    · rw [hpre]
      rfl
  rw [hstarts]
  have hpos : 0 < (s'.clients c).reads + (s'.clients c).writes.length := by
    rw [hclient, List.length_append, List.length_singleton]
    omega
  obtain ⟨hqueue, hthreads⟩ := hfresh.idle_workers hpos
  refine ⟨hfresh, hp.inStep.answer hlength hlast hanswers, fun _ => by simp [hlength],
    fun _ => by simp [hlength], ?_, ?_⟩
  · exact fun task htask hc => absurd hc (hqueue task htask)
  · intro v hv hc hun
    rw [hthreads v hv hc] at hun
    cases hun

theorem asks_eq_nil (h : ∀ req, a ≠ .readDone c (some req)) : asks c a s' = [] := by
  unfold asks
  split
  · rename_i d req
    exact if_neg fun hc => h req (by rw [hc])
  · rfl

theorem starts_eq_nil {s : System}
    (h : (s'.clients c).writes.length ≤ (s.clients c).writes.length) : starts c s a s' = [] := by
  unfold starts
  split <;> rw [started_eq_nil h] <;> rfl

/-- A step of another kind, which starts no response on the connection. -/
theorem Paired.other (hp : Paired env c w) (hfresh : Fresh s' c)
    (hno : ∀ req, a ≠ .readDone c (some req)) (h : w.system.step env a = some s')
    (hwrites : (s'.clients c).writes.length ≤ (w.system.clients c).writes.length)
    (hreads : 0 < (s'.clients c).reads → 0 < (w.system.clients c).reads +
      (w.system.clients c).writes.length ∨ (w.system.clients c).connected = false) :
    Paired env c ⟨s', w.requests ++ asks c a s', w.responses ++ starts c w.system a s'⟩ := by
  rw [asks_eq_nil hno, starts_eq_nil hwrites, List.append_nil, List.append_nil]
  have htimer : a ≠ .timerRun c := by
    intro ha
    subst ha
    exact (System.timerRun_cases h).1 hp.fresh.expired
  refine hp.keep hfresh ?_ ?_ ?_ ?_
  · intro hpos
    rcases Nat.eq_zero_or_pos (s'.clients c).reads with hzero | hread
    · exact Or.inl (by omega)
    · exact hreads hread
  · intro hclosed
    by_contra hopen
    have := connected_step (c := c) h (by simpa using hopen)
    rw [hclosed] at this
    cases this
  · intro task htask hc
    rcases queue_step h htask with hold | ⟨req, ha⟩ | ⟨ha, -⟩
    · exact hold
    · exact absurd (hc ▸ ha) (hno req)
    · exact absurd (hc ▸ ha) htimer
  · exact fun t ht _ hun => unanswered_before h ht hun

theorem paired_step (hrun : Run (System.step env) anyStep {} w.system) (hp : Paired env c w)
    (hok : NoIdle c w a) (h : w.system.step env a = some s') :
    Paired env c ⟨s', w.requests ++ asks c a s', w.responses ++ starts c w.system a s'⟩ := by
  have hsafe := system_safe hrun
  have hidle : ∀ req, a = .readDone c (some req) → lowercased req.resource ≠ bytes "/v1/idle" := by
    intro req ha
    subst ha
    exact hok rfl
  have hfresh : Fresh s' c := fresh_step hsafe hp.fresh h fun req ha hstarts =>
    hidle req ha hstarts.1
  cases step_touch c h with
  | none hsame =>
    by_cases hread : ∃ req, a = .readDone c (some req)
    · obtain ⟨req, rfl⟩ := hread
      exact hp.request (hidle req rfl) hfresh h
    · refine hp.other hfresh (fun req ha => hread ⟨req, ha⟩) h (by rw [hsame]) ?_
      intro hpos
      rw [hsame] at hpos
      exact Or.inl (by omega)
  | handshake error ha hnew reads hreads hclient =>
    refine hp.other hfresh (by rw [ha]; simp) h (by rw [hclient]) fun _ => Or.inr hnew
  | readError ha hreads hclient =>
    exact hp.other hfresh (by rw [ha]; simp) h (by rw [hclient]) fun _ => Or.inl (by omega)
  | request req tasks ha hreads hclient =>
    subst ha
    exact hp.request (hidle req rfl) hfresh h
  | wrote i error v ha hw hclient =>
    obtain ⟨hlt, -⟩ := List.getElem?_eq_some_iff.mp hw
    refine hp.other hfresh (by rw [ha]; simp) h ?_ fun _ => Or.inl (by omega)
    rw [hclient]
    have hlen := List.length_eraseIdx_of_lt hlt
    cases v.handler with
    | responseWrote =>
      simp only [ApiClient.writeHandler, ApiClient.responseToClientWroteHandler, ApiClient.readCmd]
      omega
    | idleWrote maxTs =>
      simp only [ApiClient.writeHandler, ApiClient.idleWroteHandler]
      split <;> simp only <;> omega
    | idleStarted =>
      simp only [ApiClient.writeHandler]
      omega
  | expired ha harmed hclient =>
    rw [hp.fresh.armed] at harmed
    cases harmed
  | polled task ha hexpired hclient => exact absurd hp.fresh.expired hexpired
  | replied i workers t e reply rows ha hw ht hop hclient =>
    subst ha
    have hrun' : Run (System.step env) anyStep {} s' := .tail hrun trivial h
    obtain ⟨workers', t', e', hw', ⟨reply', rows', hop', hs'⟩ | ⟨hother, -⟩⟩ := System.work_cases h
    · obtain ⟨rfl, rfl, rfl⟩ : workers = workers' ∧ t = t' ∧ e = e' := by
        simpa using hw.symm.trans hw'
      rw [asks_eq_nil (by simp), List.append_nil]
      rw [ht] at hs'
      exact hp.reply hsafe hfresh (workers_tracked (System.workers_run hrun')) hw' ht hop' hs'
    · obtain ⟨rfl, rfl, rfl⟩ : workers = workers' ∧ t = t' ∧ e = e' := by
        simpa using hw.symm.trans hw'
      exact absurd hop (hother reply rows)

end

/-- A run of the server is watched. -/
theorem watched_run {env : Extern} {c : Nat} {ok : Watched → Action → Prop} {w : Watched}
    (h : Run (Watched.step env c) ok {} w) : Run (System.step env) anyStep {} w.system := by
  refine h.map (f := Watched.system) fun w a w' _ hs => ?_
  obtain ⟨s', hs', rfl⟩ := Option.map_eq_some_iff.mp hs
  exact .tail .refl trivial hs'

/-- Every run of the server can be watched. -/
theorem exists_watched {env : Extern} {c : Nat} {ok : System → Action → Prop} {s : System}
    (h : Run (System.step env) ok {} s) :
    ∃ w, w.system = s ∧ Run (Watched.step env c) (fun w a => ok w.system a) {} w := by
  induction h with
  | refl => exact ⟨{}, rfl, .refl⟩
  | @tail s s' a _ hok hs ih =>
    obtain ⟨w, rfl, hw⟩ := ih
    exact ⟨_, rfl, .tail hw hok (by rw [Watched.step, hs]; rfl)⟩

theorem paired_of_run {env : Extern} {c : Nat} {w : Watched}
    (h : Run (Watched.step env c) (NoIdle c) {} w) : Paired env c w := by
  induction h with
  | refl => exact paired_init env c
  | tail hrun hok hs ih =>
    obtain ⟨s', hs', rfl⟩ := Option.map_eq_some_iff.mp hs
    exact paired_step (watched_run hrun) ih hok hs'

/-- In every run in which the connection is not asked for `/v1/idle`: it has started at
most as many responses as it has read requests and at most one request is unanswered;
the k-th response is made from the k-th request, by its handler or by a worker that has
run the program for its command and its parameters. -/
theorem responses_pair_with_requests (env : Extern) (c : Nat) (w : Watched)
    (h : Run (Watched.step env c) (NoIdle c) {} w) :
    w.responses.length ≤ w.requests.length ∧ w.requests.length ≤ w.responses.length + 1 ∧
      List.Forall₂ (Answers env c) (w.requests.take w.responses.length) w.responses := by
  have hlists := (paired_of_run h).inStep
  exact ⟨hlists.le, hlists.ge, hlists.each⟩

/-- Amy registers, and asks for a resource that does not exist. -/
theorem responses_pair_with_requests_two : ∃ w,
    Run (Watched.step Sample.noteExt 0) (NoIdle 0) {} w ∧ w.responses.length = 2 ∧
      List.Forall₂ (Answers Sample.noteExt 0) (w.requests.take w.responses.length) w.responses := by
  have hlist : (runList (Watched.step Sample.noteExt 0) (NoIdle 0) {} (Sample.amyRegisters ++
      [.readDone 0 (some (Sample.request "/v1/nothing" []))])).any
      (fun w => w.responses.length = 2) = true := by decide +kernel
  obtain ⟨w, hrun, htwo⟩ := exists_run hlist
  exact ⟨w, hrun, by simpa using htwo,
    (responses_pair_with_requests Sample.noteExt 0 w hrun).2.2⟩

end O2Chat.Server
