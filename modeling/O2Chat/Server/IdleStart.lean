import O2Chat.Server.Saves
import O2Chat.Server.SendOnce

/-!
# The start of an idle connection

The side conditions of the runs in which messages are delivered, what such a run
records, and the state in which a connection sends its `IDLE` request: it has no
timer and no poll yet, and nothing else of it is outstanding.
-/
namespace O2Chat.Server

open O2Chat.Common O2Chat.Db O2Chat.Lib.Interleaving O2Chat.Lib.Runs

/-! ## The next operation -/

/-- The thread that is about to work. -/
def worker (s : System) : Action → Option Thread
  | .work i => s.workers.threads[i]?
  | _ => none

/-- A message is saved with a later time than all messages before it. -/
def SavesInOrder (s : System) (a : Action) : Prop :=
  ∀ t ∈ worker s a, ∀ msg ∈ savesNext t, ∀ x ∈ s.workers.state.saves, x.1.ts < msg.ts

instance (s : System) (a : Action) : Decidable (SavesInOrder s a) :=
  inferInstanceAs (Decidable (∀ t ∈ worker s a, ∀ msg ∈ savesNext t, _))

/-- Every scan of a poll of connection `c` returns all that is due, and no message that
is newer than one the poll has missed. -/
def ScansComplete (c : Nat) (s : System) (a : Action) : Prop :=
  ∀ t ∈ worker s a, t.tag.client = c → ∀ scan ∈ scansNext t,
    ScanOk t.tag.request.uid scan.1 scan.2 s.workers.state t.hist

instance (c : Nat) (s : System) (a : Action) : Decidable (ScansComplete c s a) :=
  inferInstanceAs (Decidable (∀ t ∈ worker s a, _ → ∀ scan ∈ scansNext t, _))

section

variable {env : Extern} {s s' : System} {a : Action} {c i : Nat}

/-! ## What a step does to the workers -/

/-- The workers do nothing, take the first task of the queue, perform one operation, or
the clock moves. -/
theorem workers_cases (h : s.step env a = some s') : s'.workers = s.workers ∨
    (∃ task ∈ s.queue, s'.workers = s.workers.spawn task (processTask env task)) ∨
    (∃ i t e, a = .work i ∧ s.workers.work Op.exec i = some (s'.workers, t, e)) ∨
    ∃ now, s'.workers = setClock s.workers now := by
  cases a with
  | handshake d error =>
    obtain ⟨-, reads, -, rfl⟩ := System.handshake_cases h
    exact Or.inl rfl
  | readDone d req =>
    obtain ⟨-, ⟨-, rfl⟩ | ⟨r, client, tasks, -, -, rfl⟩⟩ := System.readDone_cases h
    · exact Or.inl rfl
    · exact Or.inl rfl
  | writeDone d i error =>
    obtain ⟨w, -, rfl⟩ := System.writeDone_cases h
    exact Or.inl rfl
  | timerExpire d =>
    obtain ⟨-, rfl⟩ := System.timerExpire_cases h
    exact Or.inl rfl
  | timerRun d =>
    obtain ⟨-, client, task, -, rfl⟩ := System.timerRun_cases h
    exact Or.inl rfl
  | getTask =>
    obtain ⟨task, queue, hq, rfl⟩ := System.getTask_cases h
    exact Or.inr (Or.inl ⟨task, by simp [hq], rfl⟩)
  | work i =>
    obtain ⟨p, t, e, hw, ⟨reply, rows, -, rfl⟩ | ⟨-, rfl⟩⟩ := System.work_cases h
    · exact Or.inr (Or.inr (Or.inl ⟨i, t, e, rfl, hw⟩))
    · exact Or.inr (Or.inr (Or.inl ⟨i, t, e, rfl, hw⟩))
  | clock now =>
    obtain rfl := Option.some.inj h
    exact Or.inr (Or.inr (Or.inr ⟨now, rfl⟩))

/-- The operation `e` performed in a step, by a thread with the history `h` before it. -/
structure Performs (s : System) (a : Action) (t : Thread) (e : Event) : Prop where
  mem : t ∈ s.workers.threads
  worker : worker s a = some t
  prog : ∃ k, t.prog = .op e.op k
  pre : e.pre = s.workers.state
  exec : e.op.exec s.workers.state = some (e.post, e.res)

theorem performs_of_work {p : Workers} {t : Thread} {e : Event}
    (hw : s.workers.work Op.exec i = some (p, t, e)) : Performs s (.work i) t e := by
  obtain ⟨hi, k, hprog, hpre, hexec, -⟩ := Pool.work_cases hw
  exact ⟨List.mem_of_getElem? hi, hi, ⟨k, hprog⟩, hpre, hexec⟩

theorem Performs.savesNext {t : Thread} {e : Event} (hp : Performs s a t e) {msg : Message}
    (hop : e.op = .db (.saveMessage msg)) : savesNext t = some msg := by
  obtain ⟨pre, op, res, post⟩ := e
  obtain ⟨k, hprog⟩ := hp.prog
  obtain rfl : op = .db (.saveMessage msg) := hop
  rw [Server.savesNext, hprog]

theorem Performs.scansNext {t : Thread} {e : Event} (hp : Performs s a t e) {chatid : Nat}
    {opt : GetMsgOpt} (hop : e.op = .db (.getMessages chatid opt)) :
    scansNext t = some (chatid, opt) := by
  obtain ⟨pre, op, res, post⟩ := e
  obtain ⟨k, hprog⟩ := hp.prog
  obtain rfl : op = .db (.getMessages chatid opt) := hop
  rw [Server.scansNext, hprog]

/-- A thread after a step is an old one, a new one for a task of the queue, or the one
that has performed an operation. -/
theorem threads_step (h : s.step env a = some s') {u : Thread} (hu : u ∈ s'.workers.threads) :
    u ∈ s.workers.threads ∨
    (∃ task ∈ s.queue, u = ⟨task, processTask env task, []⟩) ∨
    ∃ i t e, a = .work i ∧ s.workers.work Op.exec i = some (s'.workers, t, e) ∧
      u.tag = t.tag ∧ u.hist = e :: t.hist := by
  rcases workers_cases h with hsame | ⟨task, htask, hspawn⟩ | ⟨i, t, e, ha, hw⟩ | ⟨now, hclock⟩
  · rw [hsame] at hu
    exact Or.inl hu
  · rw [hspawn] at hu
    rcases List.mem_append.mp hu with hold | hnew
    · exact Or.inl hold
    · exact Or.inr (Or.inl ⟨task, htask, List.mem_singleton.mp hnew⟩)
  · obtain ⟨-, k, -, -, -, hp⟩ := Pool.work_cases hw
    rw [hp] at hu
    rcases List.mem_or_eq_of_mem_set hu with hold | hnew
    · exact Or.inl hold
    · exact Or.inr (Or.inr ⟨i, t, e, ha, hw, by rw [hnew], by rw [hnew]⟩)
  · rw [hclock] at hu
    exact Or.inl hu

/-- An unanswered thread after a step was in the queue or unanswered before it. -/
theorem unanswered_before (h : s.step env a = some s') {u : Thread} (hu : u ∈ s'.workers.threads)
    (hun : unanswered u = true) : u.tag ∈ s.queue ∨
      ∃ t ∈ s.workers.threads, t.tag = u.tag ∧ unanswered t = true := by
  rcases threads_step h hu with hold | ⟨task, htask, rfl⟩ | ⟨i, t, e, -, hw, htag, hhist⟩
  · exact Or.inr ⟨u, hold, rfl, hun⟩
  · exact Or.inl htask
  · exact Or.inr ⟨t, (performs_of_work hw).mem, htag.symm, unanswered_before_work hw hhist hun⟩

/-- Histories only grow. -/
theorem threads_grow (h : s.step env a = some s') {t : Thread} (ht : t ∈ s.workers.threads) :
    ∃ u ∈ s'.workers.threads, u.tag = t.tag ∧ ∀ e ∈ t.hist, e ∈ u.hist := by
  rcases workers_cases h with hsame | ⟨task, -, hspawn⟩ | ⟨i, v, e, -, hw⟩ | ⟨now, hclock⟩
  · exact ⟨t, hsame ▸ ht, rfl, fun _ he => he⟩
  · exact ⟨t, hspawn ▸ List.mem_append_left _ ht, rfl, fun _ he => he⟩
  · obtain ⟨hi, k, -, -, -, hp⟩ := Pool.work_cases hw
    obtain ⟨j, hj, hget⟩ := List.mem_iff_getElem.mp ht
    rw [hp]
    by_cases hij : i = j
    · subst hij
      obtain rfl : t = v := by
        rw [List.getElem?_eq_getElem hj, hget] at hi
        exact Option.some.inj hi
      exact ⟨_, List.mem_set hj _, rfl, fun _ he => List.mem_cons_of_mem _ he⟩
    · refine ⟨t, List.mem_iff_getElem.mpr ⟨j, by simpa using hj, ?_⟩, rfl, fun _ he => he⟩
      rw [List.getElem_set_ne hij, hget]
  · exact ⟨t, hclock ▸ ht, rfl, fun _ he => he⟩

/-- The messages saved in a step are newer than all messages before. -/
theorem saves_step (hok : SavesInOrder s a) (h : s.step env a = some s') : ∃ new,
    s'.workers.state.saves = s.workers.state.saves ++ new ∧
      ∀ y ∈ new, ∀ x ∈ s.workers.state.saves, x.1.ts < y.1.ts := by
  have hnone : ∀ saves : List (Message × List Nat), saves = s.workers.state.saves →
      ∃ new, saves = s.workers.state.saves ++ new ∧
        ∀ y ∈ new, ∀ x ∈ s.workers.state.saves, x.1.ts < y.1.ts :=
    fun saves heq => ⟨[], by simp [heq], by simp⟩
  rcases workers_cases h with hsame | ⟨task, -, hspawn⟩ | ⟨i, t, e, rfl, hw⟩ | ⟨now, hclock⟩
  · exact hnone _ (by rw [hsame])
  · exact hnone _ (by rw [hspawn]; rfl)
  · have hp := performs_of_work hw
    obtain ⟨-, k, -, -, hexec, hworkers⟩ := Pool.work_cases hw
    rw [hworkers]
    obtain ⟨pre, op, res, post⟩ := e
    cases op with
    | db call =>
      obtain ⟨⟨storage, r⟩, hc, heq⟩ := Option.map_eq_some_iff.mp hexec
      obtain ⟨rfl, -⟩ := Prod.mk.inj heq
      refine ⟨savedBy s.workers.state.storage call, rfl, ?_⟩
      intro y hy x hx
      cases call with
      | saveMessage msg =>
        obtain rfl := List.mem_singleton.mp hy
        exact hok t hp.worker msg (hp.savesNext rfl) x hx
      | _ => cases hy
    | time =>
      obtain ⟨rfl, -⟩ := Prod.mk.inj (Option.some.inj hexec)
      exact hnone _ rfl
    | reply reply rows =>
      obtain ⟨rfl, -⟩ := Prod.mk.inj (Option.some.inj hexec)
      exact hnone _ rfl
  · exact hnone _ (by rw [hclock]; rfl)

/-- A new task of the queue is made by a request or by a timer of its connection. -/
theorem queue_step (h : s.step env a = some s') {task : Task} (ht : task ∈ s'.queue) :
    task ∈ s.queue ∨ (∃ req, a = .readDone task.client (some req)) ∨
    (a = .timerRun task.client ∧ ∃ client, ApiClient.timerWaitTaskResultHandler task.client s.now
      { s.clients task.client with timerExpired := (s.clients task.client).timerExpired - 1 } =
        (client, task)) := by
  cases a with
  | handshake d error =>
    obtain ⟨-, reads, -, rfl⟩ := System.handshake_cases h
    exact Or.inl ht
  | readDone d req =>
    obtain ⟨-, ⟨-, rfl⟩ | ⟨r, client, tasks, rfl, hh, rfl⟩⟩ := System.readDone_cases h
    · exact Or.inl ht
    · rcases List.mem_append.mp ht with hold | hnew
      · exact Or.inl hold
      · cases (ApiClient.requestFromClientReadHandler_cases hh).2.2.2.2 with
        | wrote => cases hnew
        | put made hclient =>
          obtain rfl := List.mem_singleton.mp hnew
          exact Or.inr (Or.inl ⟨r, by rw [hclient]⟩)
  | writeDone d i error =>
    obtain ⟨w, -, rfl⟩ := System.writeDone_cases h
    exact Or.inl ht
  | timerExpire d =>
    obtain ⟨-, rfl⟩ := System.timerExpire_cases h
    exact Or.inl ht
  | timerRun d =>
    obtain ⟨-, client, made, hh, rfl⟩ := System.timerRun_cases h
    rcases List.mem_append.mp ht with hold | hnew
    · exact Or.inl hold
    · obtain rfl := List.mem_singleton.mp hnew
      obtain ⟨ping, last, -, htask⟩ := ApiClient.timerWaitTaskResultHandler_cases hh
      obtain rfl : task.client = d := by rw [htask]
      exact Or.inr (Or.inr ⟨rfl, client, hh⟩)
  | getTask =>
    obtain ⟨first, queue, hq, rfl⟩ := System.getTask_cases h
    exact Or.inl (hq ▸ List.mem_cons_of_mem _ ht)
  | work i =>
    obtain ⟨p, t, e, -, ⟨reply, rows, -, rfl⟩ | ⟨-, rfl⟩⟩ := System.work_cases h
    · exact Or.inl ht
    · exact Or.inl ht
  | clock now =>
    obtain rfl := Option.some.inj h
    exact Or.inl ht

/-! ## What a run records -/

/-- The saves and the store agree, now and in the state before every operation. -/
abbrev Recorded (s : System) : Prop := Pool.Recorded Ledger Grows s.workers

theorem recorded_init : Recorded {} :=
  ⟨ledger_init, by simp [Workers.init], by simp [Workers.init]⟩

theorem recorded_step (hs : Recorded s) (hok : SavesInOrder s a) (h : s.step env a = some s') :
    Recorded s' := by
  rcases workers_cases h with hsame | ⟨task, -, hspawn⟩ | ⟨i, t, e, rfl, hw⟩ | ⟨now, hclock⟩
  · unfold Recorded
    rw [hsame]
    exact hs
  · unfold Recorded
    rw [hspawn]
    exact hs.spawn task _
  · have hp := performs_of_work hw
    obtain ⟨-, k, -, -, -, hworkers⟩ := Pool.work_cases hw
    have hpost : s'.workers.state = e.post := by rw [hworkers]
    refine hs.work @Grows.trans hw (hpost ▸ Op.exec_grows hp.exec) ?_
    rw [hpost]
    refine Op.exec_ledger hs.now hp.exec fun msg hop => ?_
    exact hok t hp.worker msg (hp.savesNext hop)
  · unfold Recorded
    rw [hclock]
    exact hs.extend @Grows.trans ⟨.refl _, List.prefix_rfl⟩
      ⟨hs.now.bodies, hs.now.sorted, hs.now.linked, hs.now.members⟩

theorem recorded_of_run (h : Run (System.step env) SavesInOrder {} s) : Recorded s :=
  h.invariant recorded_init fun _ _ _ hs hok hstep => recorded_step hs hok hstep

theorem Recorded.timeline (hs : Recorded s) {t : Thread} (ht : t ∈ s.workers.threads) :
    Timeline s.workers.state t.hist :=
  ⟨fun e he => (hs.past t ht e he).1, fun e he => (hs.past t ht e he).2, hs.order t ht⟩

/-! ## Before the first poll -/

/-- An `IDLE` request whose body is accepted. -/
def StartsIdle (env : Extern) (req : HttpReply) : Prop :=
  lowercased req.resource = bytes "/v1/idle" ∧
    ∃ old params, parseMeta env old req.body .idle = some ([], params)

/-- The connection has not been polled, and nothing of a poll is in progress. -/
structure Fresh (s : System) (c : Nat) : Prop where
  sequential : Sequential s c
  armed : (s.clients c).timerArmed = false
  expired : (s.clients c).timerExpired = 0
  newest : (s.clients c).newestMsgTimestamp = 0
  writes : ∀ w ∈ (s.clients c).writes, ∀ maxTs, w.handler ≠ .idleWrote maxTs
  tasks : ∀ task ∈ allTasks s, task.client = c → task.cmd ≠ .idle

theorem fresh_init (c : Nat) : Fresh {} c :=
  ⟨⟨Nat.zero_le _, fun _ => ⟨rfl, rfl, rfl⟩, by simp⟩, rfl, rfl, rfl, by simp,
    by simp [allTasks, Workers.init]⟩

theorem route_ne_idle {resource : Bytes} {cmd : Cmd} (h : ApiClient.route resource = some cmd) :
    cmd ≠ .idle := by
  have hrouted : ∀ cmd ∈ ApiClient.routedCmds, cmd ≠ .idle := by decide
  exact hrouted cmd (ApiClient.route_some h).2

/-- Handling any other request leaves the timer and the newest timestamp alone. -/
theorem request_keeps {id now : Nat} {client client' : ApiClient} {req : HttpReply}
    {tasks : List Task} (hnot : ¬ StartsIdle env req)
    (h : client.requestFromClientReadHandler env id now req = some (client', tasks)) :
    client'.timerArmed = client.timerArmed ∧ client'.timerExpired = client.timerExpired ∧
      client'.newestMsgTimestamp = client.newestMsgTimestamp ∧
      ∀ w ∈ client'.writes, w ∈ client.writes ∨ w.handler = .responseWrote := by
  have herror : ∀ (data : Bytes), ∀ w ∈ client.writes ++ [⟨data, .responseWrote⟩],
      w ∈ client.writes ∨ w.handler = .responseWrote := by
    intro data w hw
    rcases List.mem_append.mp hw with hold | hnew
    · exact Or.inl hold
    · exact Or.inr (by rw [List.mem_singleton.mp hnew])
  unfold ApiClient.requestFromClientReadHandler at h
  dsimp only at h
  split at h
  · rename_i hidle
    obtain ⟨-, ⟨params, desc, rfl⟩ | ⟨params, hparse, -⟩⟩ := ApiClient.idleHandler_cases h
    · exact ⟨rfl, rfl, rfl, herror _⟩
    · exact absurd ⟨hidle, _, params, hparse⟩ hnot
  split at h
  · rcases ApiClient.handlerImpl_cases h with ⟨params, desc, rfl, -⟩ |
      ⟨params, task, -, -, rfl, -⟩
    · exact ⟨rfl, rfl, rfl, herror _⟩
    · exact ⟨rfl, rfl, rfl, fun w hw => Or.inl hw⟩
  · obtain ⟨rfl, -⟩ := Prod.mk.inj (Option.some.inj h)
    exact ⟨rfl, rfl, rfl, herror _⟩

/-- A step keeps the connection fresh that leaves its timer and its newest timestamp alone and
starts no write of a poll. -/
theorem Fresh.kept (hs : Fresh s c) {client : ApiClient} (hclient : s'.clients c = client)
    (hseq : Sequential s' c) (htasks : ∀ task ∈ allTasks s', task.client = c → task.cmd ≠ .idle)
    (harmed : client.timerArmed = (s.clients c).timerArmed)
    (hexpired : client.timerExpired = (s.clients c).timerExpired)
    (hnewest : client.newestMsgTimestamp = (s.clients c).newestMsgTimestamp)
    (hwrites : ∀ w ∈ client.writes, ∀ maxTs, w.handler ≠ .idleWrote maxTs) : Fresh s' c := by
  subst hclient
  exact ⟨hseq, harmed.trans hs.armed, hexpired.trans hs.expired, hnewest.trans hs.newest, hwrites,
    htasks⟩

theorem fresh_step (hsafe : s.workers.Safe env) (hs : Fresh s c) (h : s.step env a = some s')
    (hnot : ∀ req, a = .readDone c (some req) → ¬ StartsIdle env req) : Fresh s' c := by
  have htimer : a ≠ .timerRun c := by
    rintro rfl
    exact (System.timerRun_cases h).1 hs.expired
  have htasks : ∀ task ∈ allTasks s', task.client = c → task.cmd ≠ .idle := by
    intro task htask hclient
    obtain ⟨new, hperm, hnew⟩ := allTasks_step h
    rcases List.mem_append.mp (hperm.mem_iff.mp htask) with hold | hmade
    · exact hs.tasks task hold hclient
    rcases hnew with rfl | ⟨d, made, ha, rfl, hd, -⟩ | ⟨d, req, made, ha, rfl, hd, hput⟩
    · cases hmade
    · obtain rfl := List.mem_singleton.mp hmade
      exact absurd (hd.symm.trans hclient ▸ ha) htimer
    · obtain rfl := List.mem_singleton.mp hmade
      exact route_ne_idle hput.route
  have hseq : Sequential s' c :=
    sequential_step hsafe hs.sequential (fun ha => absurd ha htimer) h
  cases step_touch c h with
  | none hsame => exact hs.kept hsame hseq htasks rfl rfl rfl hs.writes
  | handshake error ha hnew reads hreads hclient =>
    exact hs.kept hclient hseq htasks rfl rfl rfl hs.writes
  | readError ha hreads hclient => exact hs.kept hclient hseq htasks rfl rfl rfl hs.writes
  | request req tasks ha hreads hclient =>
    obtain ⟨harmed, hexpired, hnewest, hwrites⟩ := request_keeps (hnot req ha) hclient
    refine hs.kept rfl hseq htasks harmed hexpired hnewest ?_
    intro w hw maxTs
    rcases hwrites w hw with hold | hresponse
    · exact hs.writes w hold maxTs
    · rw [hresponse]
      exact nofun
  | wrote i error w ha hw hclient =>
    have hkeep : ∀ w' ∈ (s.clients c).writes.eraseIdx i, ∀ maxTs, w'.handler ≠ .idleWrote maxTs :=
      fun w' hw' => hs.writes w' (List.mem_of_mem_eraseIdx hw')
    obtain ⟨-, heq⟩ | ⟨maxTs, hidle, -⟩ | ⟨maxTs, hidle, -⟩ | ⟨-, heq⟩ :=
      ApiClient.writeHandler_cases { s.clients c with writes := (s.clients c).writes.eraseIdx i }
        error w.handler
    · exact hs.kept (hclient.trans heq) hseq htasks rfl rfl rfl hkeep
    · exact absurd hidle (hs.writes w (List.mem_of_getElem? hw) maxTs)
    · exact absurd hidle (hs.writes w (List.mem_of_getElem? hw) maxTs)
    · exact hs.kept (hclient.trans heq) hseq htasks rfl rfl rfl hkeep
  | expired ha harmed hclient =>
    rw [hs.armed] at harmed
    cases harmed
  | polled task ha hexpired hclient => exact absurd ha htimer
  | replied i workers t e reply rows ha hw ht hop hclient =>
    -- a task with another command does not reply as a poll does
    have hmem := List.mem_of_getElem? (Pool.work_cases hw).1
    have hcmd : t.tag.cmd ≠ .idle :=
      hs.tasks t.tag (List.mem_append_right _ (List.mem_map_of_mem hmem)) ht
    have hgood := (hsafe.work (fun _ => .refl _) @ext_trans hw).2.2
    have hreply : reply.toIdle = false := by
      refine hgood.toIdle hcmd reply ?_
      rw [replies_cons, replies_reply hop]
      exact List.mem_append_left _ (List.mem_singleton.mpr rfl)
    obtain ⟨httpCode, data, heq⟩ : ∃ httpCode data, (s.clients c).deliver s.now reply =
        { s.clients c with httpCode, writes := (s.clients c).writes ++ [⟨data, .responseWrote⟩],
                           writeBuffer := data } := by
      cases reply with
      | sendMessagesToIdleConn msgs => cases hreply
      | _ => exact ⟨_, _, rfl⟩
    refine hs.kept (hclient.trans heq) hseq htasks rfl rfl rfl ?_
    intro w hw' maxTs
    rcases List.mem_append.mp hw' with hold | hnew
    · exact hs.writes w hold maxTs
    · rw [List.mem_singleton.mp hnew]
      exact nofun

/-- A connection is fresh until it has received an `IDLE` request that is accepted. -/
theorem fresh_of_run {ok : System → Action → Prop} (h : Run (System.step env) ok {} s)
    (hnone : ∀ req ∈ (s.clients c).received, ¬ StartsIdle env req) : Fresh s c := by
  induction h with
  | refl => exact fresh_init c
  | tail hrun hok hstep ih =>
    rename_i s₁ s₂ a
    have hmono : ∀ req ∈ (s₁.clients c).received, ¬ StartsIdle env req := by
      intro req hreq
      rcases received_step (c := c) hstep with hsame | ⟨new, -, hcons⟩
      · exact hnone req (hsame ▸ hreq)
      · exact hnone req (hcons ▸ List.mem_cons_of_mem _ hreq)
    refine fresh_step (system_safe hrun) (ih hmono) hstep fun req ha => ?_
    subst ha
    apply hnone
    rw [received_readDone hstep]
    exact List.mem_cons_self

end

end O2Chat.Server
