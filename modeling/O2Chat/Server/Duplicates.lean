import O2Chat.Server.Delivery

/-!
# Nothing is sent twice to an idle connection

Two responses to an idle connection contain the same message when a poll starts from
a cursor that is behind what has been sent. `TickCurrent` says that the run of the
poll timer hands out no such cursor and finds no earlier poll at work; then every
poll sends only what is newer than everything sent before.
-/
namespace O2Chat.Server

open O2Chat.Common O2Chat.Db O2Chat.Lib.Interleaving O2Chat.Lib.Runs

def Reply.idleBatch : Reply → Option (List ApiMessage)
  | .sendMessagesToIdleConn msgs => some msgs
  | _ => none

/-- The responses to the polls of connection `c`. -/
def pollResponses (s : System) (c : Nat) : List (List ApiMessage) :=
  (s.workers.threads.filter (·.tag.client = c)).flatMap fun t =>
    (replies t.hist).filterMap Reply.idleBatch

/-- A response contains a message. -/
def Contains (msgs : List ApiMessage) (m : Message) : Prop :=
  ∃ api ∈ msgs, api.ts = m.ts ∧ api.msg = m.message

instance (msgs : List ApiMessage) (m : Message) : Decidable (Contains msgs m) :=
  inferInstanceAs (Decidable (∃ api ∈ msgs, _))

/-- No saved message is contained in two responses on connection `c`. -/
def NoDuplicate (s : System) (c : Nat) : Prop :=
  (pollResponses s c).Pairwise fun msgs msgs' =>
    ∀ x ∈ s.workers.state.saves, ¬ (Contains msgs x.1 ∧ Contains msgs' x.1)

instance (s : System) (c : Nat) : Decidable (NoDuplicate s c) :=
  inferInstanceAs (Decidable (List.Pairwise _ _))

/-- Nothing newer than `ts` has been sent on connection `c`. -/
def SentUpTo (s : System) (c ts : Nat) : Prop :=
  ∀ t ∈ s.workers.threads, t.tag.client = c → ∀ api ∈ idleMessages t.hist, api.ts ≤ ts

instance (s : System) (c ts : Nat) : Decidable (SentUpTo s c ts) :=
  inferInstanceAs (Decidable (∀ t ∈ s.workers.threads, _))

/-- The polls of connection `c` that may still be answered. -/
def pending (s : System) (c : Nat) : Nat := queued s.queue c + inProgress s.workers c

/-- Where the next poll of the client starts. -/
def cursor (client : ApiClient) : Nat :=
  max client.requestDetails.params.ts client.newestMsgTimestamp

/-- The run of the poll timer finds no poll at work, and its cursor is not behind what
has been sent. -/
def TickCurrent (c : Nat) (s : System) (a : Action) : Prop :=
  a = .timerRun c → pending s c = 0 ∧ SentUpTo s c (cursor (s.clients c))

instance (c : Nat) (s : System) (a : Action) : Decidable (TickCurrent c s a) :=
  inferInstanceAs (Decidable (_ → _))

section

variable {env : Extern} {s s' : System} {a : Action} {c : Nat} {params : Params}

/-! ## The messages of a thread -/

theorem idleMessages_cons (e : Event) (h : List Event) :
    idleMessages (e :: h) = idleMessages [e] ++ idleMessages h := by
  unfold idleMessages
  rw [List.flatMap_cons, List.flatMap_singleton]

theorem mem_idleMessages {h : List Event} {msgs : List ApiMessage}
    (hm : msgs ∈ (replies h).filterMap Reply.idleBatch) {api : ApiMessage} (hapi : api ∈ msgs) :
    api ∈ idleMessages h := by
  obtain ⟨reply, hreply, hbatch⟩ := List.mem_filterMap.mp hm
  obtain ⟨e, he, hop⟩ := List.mem_filterMap.mp hreply
  refine List.mem_flatMap.mpr ⟨e, he, ?_⟩
  obtain ⟨pre, op, res, post⟩ := e
  cases op with
  | reply r rows =>
    obtain rfl := Option.some.inj hop
    cases r with
    | sendMessagesToIdleConn batch =>
      obtain rfl := Option.some.inj hbatch
      exact hapi
    | _ => cases hbatch
  | _ => cases hop

/-- Without a reply nothing has been sent. -/
theorem idleMessages_of_quiet {h : List Event} (hquiet : replies h = []) : idleMessages h = [] := by
  apply List.flatMap_eq_nil_iff.mpr
  intro e he
  have hnone := List.filterMap_eq_nil_iff.mp hquiet e he
  obtain ⟨pre, op, res, post⟩ := e
  cases op with
  | reply r rows => cases hnone
  | _ => rfl

/-- What a step does to the messages of a thread. -/
theorem messages_step (h : s.step env a = some s') {j : Nat} {u : Thread}
    (hu : s'.workers.threads[j]? = some u) :
    (∃ t, s.workers.threads[j]? = some t ∧ u.tag = t.tag ∧
      idleMessages u.hist = idleMessages t.hist) ∨ idleMessages u.hist = [] ∨
    ∃ t e msgs rows, a = .work j ∧ s.workers.work Op.exec j = some (s'.workers, t, e) ∧
      e.op = .reply (.sendMessagesToIdleConn msgs) rows ∧ u.tag = t.tag ∧
      idleMessages u.hist = msgs ++ idleMessages t.hist := by
  rcases workers_cases h with hsame | ⟨task, -, hspawn⟩ | ⟨i, t, e, ha, hw⟩ | ⟨now, hclock⟩
  · rw [hsame] at hu
    exact Or.inl ⟨u, hu, rfl, rfl⟩
  · rw [hspawn] at hu
    have hlist : (s.workers.threads ++ [⟨task, processTask env task, []⟩])[j]? = some u := hu
    by_cases hj : j < s.workers.threads.length
    · rw [List.getElem?_append_left hj] at hlist
      exact Or.inl ⟨u, hlist, rfl, rfl⟩
    · rw [List.getElem?_append_right (by omega)] at hlist
      obtain rfl := List.mem_singleton.mp (List.mem_of_getElem? hlist)
      exact Or.inr (Or.inl rfl)
  · obtain ⟨hi, k, -, -, -, hp⟩ := Pool.work_cases hw
    rw [hp] at hu
    have hlist : (s.workers.threads.set i ⟨t.tag, k e.res, e :: t.hist⟩)[j]? = some u := hu
    by_cases hij : i = j
    · subst hij
      obtain ⟨hlt, -⟩ := List.getElem?_eq_some_iff.mp hi
      rw [List.getElem?_set_self hlt] at hlist
      obtain rfl := Option.some.inj hlist
      have hcons : idleMessages (e :: t.hist) = idleMessages [e] ++ idleMessages t.hist :=
        idleMessages_cons e t.hist
      by_cases hbatch : ∃ msgs rows, e.op = .reply (.sendMessagesToIdleConn msgs) rows
      · obtain ⟨msgs, rows, hop⟩ := hbatch
        refine Or.inr (Or.inr ⟨t, e, msgs, rows, ha, hw, hop, rfl, ?_⟩)
        have hnew : idleMessages [e] = msgs := by
          unfold idleMessages
          rw [List.flatMap_singleton, hop]
        rw [hcons, hnew]
      · refine Or.inl ⟨t, hi, rfl, ?_⟩
        have hnone : idleMessages [e] = [] := by
          unfold idleMessages
          rw [List.flatMap_singleton]
          split
          · rename_i msgs rows hop
            exact absurd ⟨msgs, rows, hop⟩ hbatch
          · rfl
        rw [hcons, hnone, List.nil_append]
    · rw [List.getElem?_set_ne hij] at hlist
      exact Or.inl ⟨u, hlist, rfl, rfl⟩
  · rw [hclock] at hu
    exact Or.inl ⟨u, hu, rfl, rfl⟩

/-! ## The session -/

/-- A poll of the session. -/
structure FromSession (params : Params) (task : Task) : Prop where
  cmd : task.cmd = .idle
  request : task.request = { params with ts := task.request.ts }

/-- The connection is polled. A task of an earlier request has been answered. -/
structure OneSession (env : Extern) (c : Nat) (params : Params) (s : System) : Prop where
  client : IdleClient params (fun _ => True) (s.clients c)
  registered : Registered env params s.workers.state.storage
  queue : ∀ task ∈ s.queue, task.client = c → FromSession params task
  threads : ∀ t ∈ s.workers.threads, t.tag.client = c → unanswered t = true →
    FromSession params t.tag ∧ ∀ e ∈ t.hist, Registered env params e.pre.storage

theorem Session.one (hs : Session env c params s) : OneSession env c params s := by
  refine ⟨hs.client.mono fun _ _ => trivial, hs.registered, ?_, ?_⟩
  · intro task htask hc
    have htask := hs.queue task htask hc
    exact ⟨htask.cmd, htask.request⟩
  · intro t ht hc hun
    rcases hs.threads t ht hc with ⟨-, hanswered⟩ | hthread
    · rw [hun] at hanswered
      cases hanswered
    · exact ⟨⟨hthread.task.cmd, hthread.task.request⟩, hthread.registered⟩

/-- A poll of the session replies with what its scans returned. -/
theorem OneSession.batch (hs : OneSession env c params s) (hsafe : s.workers.Safe env)
    (hpoll : Pool.Safe Op.exec Inv Grows (PollGood env) (PollDone env) s.workers) {i : Nat}
    {workers : Workers} {t : Thread} {e : Event} {reply : Reply} {rows : List Message}
    (hw : s.workers.work Op.exec i = some (workers, t, e)) (hc : t.tag.client = c)
    (hop : e.op = .reply reply rows) : ∃ msgs, reply = .sendMessagesToIdleConn msgs ∧
      SameMessages msgs rows ∧ Scanned t.tag rows t.hist := by
  have hmem := List.mem_of_getElem? (Pool.work_cases hw).1
  obtain ⟨hfrom, hreg⟩ := hs.threads t hmem hc (unanswered_of_reply hsafe hw hop)
  refine reply_of_poll hpoll hw hfrom.cmd ?_ hop
  intro ⟨st, hfirst, hnot⟩
  obtain ⟨e', he', rfl⟩ := Option.map_eq_some_iff.mp hfirst
  obtain ⟨v, hv, hid, hpass⟩ := hreg e' (List.mem_of_getLast? he')
  apply hnot
  refine ⟨v, hv, ?_, ?_⟩
  · rw [if_neg (by simp [hfrom.cmd]), hfrom.request, hid]
  · rw [hfrom.request, hpass]

theorem oneSession_step (hsafe : s.workers.Safe env)
    (hpoll : Pool.Safe Op.exec Inv Grows (PollGood env) (PollDone env) s.workers)
    (hs : OneSession env c params s) (h : s.step env a = some s') : OneSession env c params s' := by
  refine ⟨?_, hs.registered.extends (step_extends h), ?_, ?_⟩
  · refine idleClient_step hs.client (fun _ _ _ _ => trivial) h ?_
    intro i workers t e reply rows ha hw ht hop
    obtain ⟨msgs, hmsgs, -⟩ := hs.batch hsafe hpoll hw ht hop
    exact ⟨msgs, hmsgs, trivial⟩
  · intro task htask hc
    rcases queue_step h htask with hold | ⟨req, ha⟩ | ⟨ha, client, hh⟩
    · exact hs.queue task hold hc
    · -- the connection reads no request
      subst ha
      exact absurd (hc ▸ hs.client.reads) (System.reads_of_readDone h)
    · subst hc
      obtain ⟨-, hcmd, hrequest, -⟩ := hs.client.polled (fun _ _ _ _ => trivial) hh
      exact ⟨hcmd, hrequest⟩
  · intro u hu hc hun
    rcases threads_step h hu with hold | ⟨task, htask, rfl⟩ | ⟨i, t, e, rfl, hw, htag, hhist⟩
    · exact hs.threads u hold hc hun
    · exact ⟨hs.queue task htask hc, by simp⟩
    · have hp := performs_of_work hw
      obtain ⟨hfrom, hreg⟩ := hs.threads t hp.mem (htag ▸ hc) (unanswered_before_work hw hhist hun)
      refine ⟨htag ▸ hfrom, ?_⟩
      rw [hhist]
      intro e' he'
      rcases List.mem_cons.mp he' with rfl | hold
      · rw [hp.pre]
        exact hs.registered
      · exact hreg e' hold

/-! ## Polls at work -/

/-- A reply takes one poll off, and no step but a run of the timer adds one. -/
theorem pending_step (hsafe : s.workers.Safe env) (hreads : (s.clients c).reads = 0)
    (htimer : a ≠ .timerRun c) (h : s.step env a = some s') : pending s' c ≤ pending s c := by
  unfold pending
  cases a with
  | handshake d error =>
    obtain ⟨-, reads, -, rfl⟩ := System.handshake_cases h
    exact Nat.le_refl _
  | readDone d req =>
    obtain ⟨hread, ⟨-, rfl⟩ | ⟨r, client, tasks, -, hh, rfl⟩⟩ := System.readDone_cases h
    · exact Nat.le_refl _
    · have hc : c ≠ d := fun heq => hread (heq ▸ hreads)
      have hnone : queued tasks c = 0 := by
        cases (ApiClient.requestFromClientReadHandler_cases hh).2.2.2.2 with
        | wrote => rfl
        | put task hclient => exact queued_of_client_ne (d := d) (by simpa using hclient) hc
      rw [System.putTasks_queue, System.setClient_queue, queued_append, hnone]
      exact Nat.le_refl _
  | writeDone d i error =>
    obtain ⟨w, -, rfl⟩ := System.writeDone_cases h
    exact Nat.le_refl _
  | timerExpire d =>
    obtain ⟨-, rfl⟩ := System.timerExpire_cases h
    exact Nat.le_refl _
  | timerRun d =>
    obtain ⟨-, client, task, hh, rfl⟩ := System.timerRun_cases h
    obtain ⟨ping, last, -, htask⟩ := ApiClient.timerWaitTaskResultHandler_cases hh
    have hd : ¬ task.client = c := by
      rw [htask]
      intro heq
      exact htimer (congrArg Action.timerRun heq)
    rw [System.putTasks_queue, System.setClient_queue, queued_append, queued_singleton, if_neg hd]
    exact Nat.le_refl _
  | getTask =>
    obtain ⟨task, queue, hq, rfl⟩ := System.getTask_cases h
    have hspawn := inProgress_spawn_le s.workers task (processTask env task) c
    simp only [hq, queued, List.countP_cons, decide_eq_true_eq]
    omega
  | work i =>
    obtain ⟨workers, t, e, hw, ⟨reply, rows, -, rfl⟩ | ⟨-, rfl⟩⟩ := System.work_cases h
    · have hcount := inProgress_work hsafe hw c
      simp only [System.setClient_queue, System.setClient_workers]
      omega
    · have hcount := inProgress_work hsafe hw c
      dsimp only
      omega
  | clock now =>
    obtain rfl := Option.some.inj h
    exact Nat.le_refl _

theorem pending_reply (hsafe : s.workers.Safe env) {i : Nat} {t : Thread} {e : Event}
    {reply : Reply} {rows : List Message} (h : s.step env (.work i) = some s')
    (hw : s.workers.work Op.exec i = some (s'.workers, t, e)) (hc : t.tag.client = c)
    (hop : e.op = .reply reply rows) : pending s' c + 1 ≤ pending s c := by
  have hcount := inProgress_work hsafe hw c
  rw [replies_reply hop, if_pos ⟨hc, by simp⟩] at hcount
  have hqueue : s'.queue = s.queue := by
    obtain ⟨workers, t', e', -, ⟨reply', rows', -, rfl⟩ | ⟨-, rfl⟩⟩ :=
      System.work_cases (show s.work i = some s' from h)
    · rfl
    · rfl
  unfold pending
  rw [hqueue]
  omega

theorem pending_task {task : Task} (hzero : pending s c = 0) (htask : task ∈ s.queue) :
    task.client ≠ c := by
  have hqueue : queued s.queue c = 0 := by
    unfold pending at hzero
    omega
  simpa using List.countP_eq_zero.mp hqueue task htask

theorem pending_thread {t : Thread} (hzero : pending s c = 0) (ht : t ∈ s.workers.threads)
    (hc : t.tag.client = c) : unanswered t = false := by
  have hwork : inProgress s.workers c = 0 := by
    unfold pending at hzero
    omega
  simpa [hc] using List.countP_eq_zero.mp hwork t ht

/-! ## What is sent -/

theorem Scanned.newer {task : Task} {rows : List Message} {h : List Event}
    (hs : Scanned task rows h) {m : Message} (hm : m ∈ rows) : task.request.ts < m.ts := by
  obtain ⟨after, list, before, -, -, hscans⟩ := hs
  obtain ⟨e, -, cid, -, hfound⟩ := hscans.source m hm
  exact (Storage.newer_iff.mp (mem_found hfound).2).2

/-- No message is in two threads of the connection. -/
def Apart (s : System) (c : Nat) : Prop := ∀ (i j : Nat) (t u : Thread), i ≠ j →
  s.workers.threads[i]? = some t → s.workers.threads[j]? = some u →
  t.tag.client = c → u.tag.client = c →
  ∀ api ∈ idleMessages t.hist, ∀ api' ∈ idleMessages u.hist, api.ts ≠ api'.ts

/-- Each poll at work starts where everything sent before ends, and there is at most one. -/
structure Sending (env : Extern) (c : Nat) (params : Params) (s : System) : Prop where
  session : OneSession env c params s
  one : pending s c ≤ 1
  queued : ∀ task ∈ s.queue, task.client = c → SentUpTo s c task.request.ts
  working : ∀ t ∈ s.workers.threads, t.tag.client = c → unanswered t = true →
    SentUpTo s c t.tag.request.ts
  apart : Apart s c

/-- A response has only messages that are newer than all that has been sent. -/
theorem Sending.fresh (hs : Sending env c params s) (hsafe : s.workers.Safe env)
    (hpoll : Pool.Safe Op.exec Inv Grows (PollGood env) (PollDone env) s.workers) {i : Nat}
    {workers : Workers} {t : Thread} {e : Event} {msgs : List ApiMessage} {rows : List Message}
    (hw : s.workers.work Op.exec i = some (workers, t, e)) (hc : t.tag.client = c)
    (hop : e.op = .reply (.sendMessagesToIdleConn msgs) rows) {u : Thread}
    (hu : u ∈ s.workers.threads) (huc : u.tag.client = c) {api api' : ApiMessage}
    (hapi : api ∈ msgs) (hapi' : api' ∈ idleMessages u.hist) : api'.ts < api.ts := by
  obtain ⟨batch, hbatch, hsame, hscans⟩ := hs.session.batch hsafe hpoll hw hc hop
  obtain rfl := Reply.sendMessagesToIdleConn.inj hbatch
  obtain ⟨row, hrow, hts⟩ := hsame.row hapi
  have hnewer := hscans.newer hrow
  have hmem := List.mem_of_getElem? (Pool.work_cases hw).1
  have hsent := hs.working t hmem hc (unanswered_of_reply hsafe hw hop) u hu huc api' hapi'
  omega

theorem apart_step (hs : Sending env c params s) (hsafe : s.workers.Safe env)
    (hpoll : Pool.Safe Op.exec Inv Grows (PollGood env) (PollDone env) s.workers)
    (h : s.step env a = some s') : Apart s' c := by
  intro i j t u hij ht hu htc huc api hapi api' hapi'
  have hquiet : ∀ {k w v e msgs rows}, s.workers.work Op.exec k = some (w, v, e) →
      e.op = .reply (.sendMessagesToIdleConn msgs) rows → idleMessages v.hist = [] :=
    fun hw hop => idleMessages_of_quiet (replies_of_unanswered (unanswered_of_reply hsafe hw hop))
  rcases messages_step h ht with ⟨t₀, ht₀, httag, htmsgs⟩ | hnone | ⟨t₀, e, msgs, rows, ha, hw, hop, httag, htmsgs⟩
  · rcases messages_step h hu with ⟨u₀, hu₀, hutag, humsgs⟩ | hnone | ⟨u₀, e, msgs, rows, ha, hw, hop, hutag, humsgs⟩
    · rw [htmsgs] at hapi
      rw [humsgs] at hapi'
      exact hs.apart i j t₀ u₀ hij ht₀ hu₀ (httag ▸ htc) (hutag ▸ huc) api hapi api' hapi'
    · rw [hnone] at hapi'
      cases hapi'
    · rw [htmsgs] at hapi
      rw [humsgs, hquiet hw hop, List.append_nil] at hapi'
      have hlt := hs.fresh hsafe hpoll hw (hutag ▸ huc) hop (List.mem_of_getElem? ht₀)
        (httag ▸ htc) hapi' hapi
      omega
  · rw [hnone] at hapi
    cases hapi
  · rw [htmsgs, hquiet hw hop, List.append_nil] at hapi
    rcases messages_step h hu with ⟨u₀, hu₀, hutag, humsgs⟩ | hnone | ⟨u₀, -, -, -, ha', -⟩
    · rw [humsgs] at hapi'
      have hlt := hs.fresh hsafe hpoll hw (httag ▸ htc) hop (List.mem_of_getElem? hu₀)
        (hutag ▸ huc) hapi hapi'
      omega
    · rw [hnone] at hapi'
      cases hapi'
    · -- only one thread performs an operation
      rw [ha] at ha'
      exact absurd (Action.work.inj ha') hij

/-- A step either sends nothing on the connection or answers the poll at work. -/
theorem sent_step (hs : Sending env c params s) (hsafe : s.workers.Safe env)
    (h : s.step env a = some s') : (∀ ts, SentUpTo s c ts → SentUpTo s' c ts) ∨ pending s' c = 0 := by
  by_cases hreply : ∃ i t e msgs rows, a = .work i ∧
      s.workers.work Op.exec i = some (s'.workers, t, e) ∧ t.tag.client = c ∧
      e.op = .reply (.sendMessagesToIdleConn msgs) rows
  · obtain ⟨i, t, e, msgs, rows, rfl, hw, hc, hop⟩ := hreply
    have hless := pending_reply hsafe h hw hc hop
    have hone := hs.one
    exact Or.inr (by omega)
  · left
    intro ts hsent u hu huc api hapi
    obtain ⟨j, hj⟩ := List.getElem?_of_mem hu
    rcases messages_step h hj with ⟨t, ht, htag, hmsgs⟩ | hnone | ⟨t, e, msgs, rows, ha, hw, hop, htag, -⟩
    · rw [hmsgs] at hapi
      exact hsent t (List.mem_of_getElem? ht) (htag ▸ huc) api hapi
    · rw [hnone] at hapi
      cases hapi
    · exact absurd ⟨j, t, e, msgs, rows, ha, hw, htag ▸ huc, hop⟩ hreply

/-- A run of the timer sends nothing, and hands out a cursor that is not behind. -/
theorem sending_tick (hok : TickCurrent c s (.timerRun c))
    (hsession : OneSession env c params s') (hapart : Apart s' c)
    (h : s.step env (.timerRun c) = some s') : Sending env c params s' := by
  obtain ⟨hzero, hsent⟩ := hok rfl
  obtain ⟨-, client, task, hh, rfl⟩ := System.timerRun_cases (show s.timerRun c = some s' from h)
  obtain ⟨ping, last, -, htask⟩ := ApiClient.timerWaitTaskResultHandler_cases hh
  have hcursor : task.request.ts = cursor (s.clients c) := by
    rw [htask]
    rfl
  refine ⟨hsession, ?_, ?_, ?_, hapart⟩
  · unfold pending at hzero ⊢
    rw [System.putTasks_queue, System.setClient_queue, queued_append, queued_singleton, htask,
      if_pos rfl, System.putTasks_workers, System.setClient_workers]
    omega
  · intro task' htask' hc
    rcases List.mem_append.mp htask' with hold | hnew
    · exact absurd hc (pending_task hzero hold)
    · obtain rfl := List.mem_singleton.mp hnew
      rw [hcursor]
      exact hsent
  · intro t ht hc hun
    rw [pending_thread hzero ht hc] at hun
    cases hun

theorem sending_step (hsafe : s.workers.Safe env)
    (hpoll : Pool.Safe Op.exec Inv Grows (PollGood env) (PollDone env) s.workers)
    (hs : Sending env c params s) (hok : TickCurrent c s a) (h : s.step env a = some s') :
    Sending env c params s' := by
  have hsession := oneSession_step hsafe hpoll hs.session h
  have hapart := apart_step hs hsafe hpoll h
  by_cases htimer : a = .timerRun c
  · subst htimer
    exact sending_tick hok hsession hapart h
  have hle := pending_step hsafe hs.session.client.reads htimer h
  have hone := hs.one
  rcases sent_step hs hsafe h with hsent | hzero
  · refine ⟨hsession, by omega, ?_, ?_, hapart⟩
    · intro task htask hc
      rcases queue_step h htask with hold | ⟨req, ha⟩ | ⟨ha, -⟩
      · exact hsent _ (hs.queued task hold hc)
      · subst ha
        exact absurd (hc ▸ hs.session.client.reads) (System.reads_of_readDone h)
      · exact absurd (hc ▸ ha) htimer
    · intro u hu hc hun
      rcases unanswered_before h hu hun with hqueued | ⟨t, ht, htag, hbefore⟩
      · exact hsent _ (hs.queued u.tag hqueued hc)
      · have hworking := hs.working t ht (htag ▸ hc) hbefore
        rw [htag] at hworking
        exact hsent _ hworking
  · refine ⟨hsession, by omega, ?_, ?_, hapart⟩
    · exact fun task htask hc => absurd hc (pending_task hzero htask)
    · intro u hu hc hun
      rw [pending_thread hzero hu hc] at hun
      cases hun

/-! ## Runs -/

/-- A poll has not been made yet. -/
theorem sending_start (hstart : IdleStart env c params s) : Sending env c params s := by
  obtain ⟨hrun', hsession⟩ := session_start hstart
  obtain ⟨s₀, req, hrun, hfresh, -, -, -, -, hqueued, hprogress, -, hs⟩ := idleStart_cases hstart
  have hzero : pending s c = 0 := by
    unfold pending
    rw [hs, System.putTasks_queue, System.setClient_queue, queued_append, System.putTasks_workers,
      System.setClient_workers]
    exact Nat.add_eq_zero_iff.mpr ⟨by rw [hqueued]; rfl, hprogress⟩
  have hnone : ∀ t ∈ s.workers.threads, t.tag.client = c → idleMessages t.hist = [] := by
    intro t ht hc
    rw [hs] at ht
    have hcmd := hfresh.tasks t.tag (List.mem_append_right _ (List.mem_map_of_mem ht)) hc
    have hgood := (system_safe hrun).hist t ht
    apply List.eq_nil_iff_forall_not_mem.mpr
    intro api hapi
    obtain ⟨e, he, hmsgs⟩ := List.mem_flatMap.mp hapi
    split at hmsgs
    · rename_i msgs rows hop
      have hreply : .sendMessagesToIdleConn msgs ∈ replies t.hist :=
        List.mem_filterMap.mpr ⟨e, he, by rw [hop]⟩
      have hother := hgood.toIdle hcmd _ hreply
      cases hother
    · cases hmsgs
  refine ⟨hsession.one, by omega, ?_, ?_, ?_⟩
  · exact fun task htask hc => absurd hc (pending_task hzero htask)
  · intro t ht hc hun
    rw [pending_thread hzero ht hc] at hun
    cases hun
  · intro i j t u _ ht _ hc _ api hapi
    rw [hnone t (List.mem_of_getElem? ht) hc] at hapi
    cases hapi

/-- Responses of one thread or of two threads that are apart. -/
theorem noDuplicate_of_apart (hsafe : s.workers.Safe env) (h : Apart s c) : NoDuplicate s c := by
  unfold NoDuplicate pollResponses
  rw [List.pairwise_flatMap]
  constructor
  · intro t ht
    have hone := (hsafe.hist t (List.mem_filter.mp ht).1).oneReply
    have hlen := List.length_filterMap_le Reply.idleBatch (replies t.hist)
    rw [List.pairwise_iff_getElem]
    intro i j hi hj hij
    omega
  · rw [List.pairwise_filter, List.pairwise_iff_getElem]
    intro i j hi hj hij htc huc msgs hmsgs msgs' hmsgs' x hx ⟨hin, hin'⟩
    obtain ⟨api, hapi, hts, -⟩ := hin
    obtain ⟨api', hapi', hts', -⟩ := hin'
    refine h i j _ _ (by omega) (List.getElem?_eq_getElem hi) (List.getElem?_eq_getElem hj)
      (of_decide_eq_true htc) (of_decide_eq_true huc) api (mem_idleMessages hmsgs hapi) api'
      (mem_idleMessages hmsgs' hapi') (hts.trans hts'.symm)

/-- Take a connection that has sent its `IDLE` request for a stored user, and a run in
which the poll timer of the connection never runs while an earlier poll may still be
answered or while its cursor is behind a message that has been sent. Then no saved
message is contained in two responses to the polls of the connection. -/
theorem idle_sends_once (env : Extern) (c : Nat) (params : Params) (s₁ s : System)
    (hstart : IdleStart env c params s₁) (h : Run (System.step env) (TickCurrent c) s₁ s) :
    NoDuplicate s c := by
  have hfirst : Run (System.step env) anyStep {} s₁ :=
    (session_start hstart).1.mono fun _ _ _ => trivial
  have key : Run (System.step env) anyStep {} s ∧ Sending env c params s := by
    refine h.invariant (I := fun s => Run (System.step env) anyStep {} s ∧
      Sending env c params s) ⟨hfirst, sending_start hstart⟩ ?_
    intro s a s' ⟨hrun, hs⟩ hok hstep
    have hpoll := workers_poll (System.workers_run hrun)
    exact ⟨.tail hrun trivial hstep, sending_step (system_safe hrun) hpoll hs hok hstep⟩
  exact noDuplicate_of_apart (system_safe key.1) key.2.apart

end

namespace Sample

/-- The timer runs, the poll performs `n` operations as worker thread `i`, and `rest` follows. -/
def pollRun (i n : Nat) (rest : List Action) : List Action :=
  [.timerExpire 1, .timerRun 1, .getTask] ++ List.replicate n (.work i) ++ rest

/-- A note is saved and sent, and its response has been written when the timer runs again. -/
def sentOnce : List Action :=
  .writeDone 1 0 false :: noteAt 1 1 ++ pollRun 2 9 [.writeDone 1 0 false] ++ noteAt 2 3 ++
    pollRun 4 9 []

/-- The timer runs again while the response with the note is still being written. -/
def sentTwice : List Action :=
  .writeDone 1 0 false :: noteAt 1 1 ++ pollRun 2 9 [] ++ pollRun 3 9 []

end Sample

theorem idle_sends_once_two_notes : ∃ s, (pollResponses s 1).length = 2 ∧
    (∀ msgs ∈ pollResponses s 1, msgs ≠ []) ∧ NoDuplicate s 1 := by
  have hlist : Sample.idleRun (TickCurrent 1) Sample.sentOnce (fun s =>
      (pollResponses s 1).length = 2 ∧ ∀ msgs ∈ pollResponses s 1, msgs ≠ []) = true := by
    decide +kernel
  obtain ⟨s₁, s, hstart, hrun, hfacts⟩ := Sample.exists_idleRun hlist
  obtain ⟨htwo, hsome⟩ := of_decide_eq_true hfacts
  exact ⟨s, htwo, hsome, idle_sends_once Sample.idleExt 1 Sample.amy s₁ s hstart hrun⟩

/-- The connection whose write fails. -/
def failedWrite : Action → Option Nat
  | .writeDone c _ true => some c
  | _ => none

/-- No write of the connection fails. -/
def WritesSucceed (c : Nat) (_ : System) (a : Action) : Prop := failedWrite a ≠ some c

instance (c : Nat) (s : System) (a : Action) : Decidable (WritesSucceed c s a) :=
  inferInstanceAs (Decidable (_ ≠ _))

/-- A note is sent twice when its first response takes longer than the polling interval. -/
theorem slow_write_sends_twice : ¬ ∀ (params : Params) (s₁ s : System),
    IdleStart Sample.idleExt 1 params s₁ →
    Run (System.step Sample.idleExt) (fun s a => SavesInOrder s a ∧ WritesSucceed 1 s a) s₁ s →
    NoDuplicate s 1 := by
  intro hclaim
  have hlist : Sample.idleRun (fun s a => SavesInOrder s a ∧ WritesSucceed 1 s a) Sample.sentTwice
      (fun s => ¬ NoDuplicate s 1) = true := by decide +kernel
  obtain ⟨s₁, s, hstart, hrun, htwice⟩ := Sample.exists_idleRun hlist
  exact of_decide_eq_true htwice (hclaim Sample.amy s₁ s hstart hrun)

end O2Chat.Server
