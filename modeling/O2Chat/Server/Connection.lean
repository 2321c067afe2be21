import O2Chat.Server.System

/-!
# What a connection has outstanding

A connection waits for at most one thing at a time as long as it is not polled: for
a request to arrive, for a task of it to be answered, or for a response to be
written. `outstanding` counts these things. Every step but the run of a poll timer
keeps the count or lowers it.
-/
namespace O2Chat.Server

open O2Chat.Common O2Chat.Db O2Chat.Lib.Interleaving O2Chat.Lib.Runs

/-- The task in progress may still answer. -/
def unanswered (t : Thread) : Bool := replies t.hist = [] && !t.prog.finished

def queued (queue : List Task) (c : Nat) : Nat := queue.countP (·.client = c)

def inProgress (p : Workers) (c : Nat) : Nat :=
  p.threads.countP fun t => t.tag.client = c && unanswered t

/-- Reads, writes and unanswered tasks of connection `c`. -/
def outstanding (s : System) (c : Nat) : Nat :=
  (s.clients c).reads + (s.clients c).writes.length + queued s.queue c + inProgress s.workers c

/-! ## Tasks -/

theorem queued_append (queue tasks : List Task) (c : Nat) :
    queued (queue ++ tasks) c = queued queue c + queued tasks c := List.countP_append

theorem queued_singleton (task : Task) (c : Nat) :
    queued [task] c = if task.client = c then 1 else 0 := by
  simp [queued, List.countP_singleton]

theorem inProgress_spawn_le (p : Workers) (task : Task) (prog : Work Unit) (c : Nat) :
    inProgress (p.spawn task prog) c ≤ inProgress p c + if task.client = c then 1 else 0 := by
  unfold inProgress Pool.spawn
  simp only [List.countP_append, List.countP_singleton]
  split <;> split <;> simp_all

theorem replies_cons (e : Event) (h : List Event) : replies (e :: h) = replies [e] ++ replies h := by
  rw [replies, replies, replies, ← List.filterMap_append, List.singleton_append]

/-- Performing an operation never makes a task unanswered again, and a reply answers it. -/
theorem inProgress_work {env : Extern} {p p' : Workers} {i : Nat} {t : Thread} {e : Event}
    (hsafe : p.Safe env) (hw : p.work Op.exec i = some (p', t, e)) (c : Nat) :
    inProgress p' c + (if t.tag.client = c ∧ replies [e] ≠ [] then 1 else 0) ≤ inProgress p c := by
  have hgood := (hsafe.work (fun _ => .refl _) @ext_trans hw).2.2
  have hone := hgood.oneReply
  rw [replies_cons, List.length_append] at hone
  obtain ⟨hi, k, hprog, -, -, rfl⟩ := Pool.work_cases hw
  obtain ⟨hlt, hget⟩ := List.getElem?_eq_some_iff.mp hi
  have hopen : t.prog.finished = false := by rw [hprog]; rfl
  have hnow : unanswered t = decide (replies t.hist = []) := by simp [unanswered, hopen]
  have hthen : unanswered ⟨t.tag, k e.res, e :: t.hist⟩ = true →
      replies [e] = [] ∧ replies t.hist = [] := by
    intro hun
    simpa [replies_cons e t.hist] using (Bool.and_eq_true_iff.mp hun).1
  have key : (if t.tag.client = c && unanswered ⟨t.tag, k e.res, e :: t.hist⟩ then 1 else 0) +
      (if t.tag.client = c ∧ replies [e] ≠ [] then 1 else 0) ≤
      if t.tag.client = c && unanswered t then 1 else 0 := by
    by_cases hc : t.tag.client = c
    · simp only [hc, decide_true, Bool.true_and, hnow, decide_eq_true_eq, true_and]
      by_cases hreply : replies [e] = []
      · simp only [hreply, ne_eq, not_true_eq_false, if_false, Nat.add_zero]
        split
        · rename_i hun
          simp [(hthen hun).2]
        · exact Nat.zero_le _
      · -- a reply, so there was none before
        have hquiet : replies t.hist = [] := by
          have := List.length_pos_of_ne_nil hreply
          exact List.length_eq_zero_iff.mp (by omega)
        have hans : unanswered ⟨t.tag, k e.res, e :: t.hist⟩ = false := by
          by_contra hun
          exact hreply (hthen (by simpa using hun)).1
        simp [hans, hreply, hquiet]
    · simp [hc]
  have hle := List.boole_getElem_le_countP
    (p := fun u : Thread => decide (u.tag.client = c) && unanswered u) hlt
  unfold inProgress
  rw [List.countP_set hlt]
  rw [hget] at hle ⊢
  dsimp only at hle ⊢
  omega

theorem replies_reply {e : Event} {r : Reply} {rows : List Message} (h : e.op = .reply r rows) :
    replies [e] = [r] := by
  simp [replies, h]

theorem replies_other {e : Event} (h : ∀ r rows, e.op ≠ .reply r rows) : replies [e] = [] := by
  cases e with
  | mk pre op res post =>
    cases op with
    | reply r rows => exact absurd rfl (h r rows)
    | _ => rfl

/-- A thread that replies has not answered before. -/
theorem unanswered_of_reply {env : Extern} {p p' : Workers} (hsafe : p.Safe env) {i : Nat}
    {t : Thread} {e : Event} {reply : Reply} {rows : List Message} (hw : p.work Op.exec i = some (p', t, e))
    (hop : e.op = .reply reply rows) : unanswered t = true := by
  have hone := (hsafe.work (fun _ => .refl _) @ext_trans hw).2.2.oneReply
  rw [replies_cons, replies_reply hop, List.length_append, List.length_singleton] at hone
  have hquiet : replies t.hist = [] := List.length_eq_zero_iff.mp (by omega)
  obtain ⟨-, k, hprog, -⟩ := Pool.work_cases hw
  unfold unanswered
  rw [hquiet, hprog]
  rfl

theorem replies_of_unanswered {t : Thread} (h : unanswered t = true) : replies t.hist = [] := by
  unfold unanswered at h
  simpa using (Bool.and_eq_true_iff.mp h).1

/-- A thread that is unanswered after an operation was unanswered before it. -/
theorem unanswered_before_work {p p' : Workers} {i : Nat} {t u : Thread} {e : Event}
    (hw : p.work Op.exec i = some (p', t, e)) (hhist : u.hist = e :: t.hist)
    (hun : unanswered u = true) : unanswered t = true := by
  have hquiet := replies_of_unanswered hun
  rw [hhist, replies_cons, List.append_eq_nil_iff] at hquiet
  obtain ⟨-, k, hprog, -⟩ := Pool.work_cases hw
  unfold unanswered
  rw [hquiet.2, hprog]
  rfl

/-! ## Steps -/

section

variable {env : Extern} {s s' : System} {c d : Nat}

/-- Steps of one connection leave the others alone. -/
theorem outstanding_setClient_other (s : System) {d : Nat} (client : ApiClient) (h : c ≠ d) :
    outstanding (s.setClient d client) c = outstanding s c := by
  simp [outstanding, System.setClient_other _ _ h]

theorem queued_of_client_ne {tasks : List Task} (h : ∀ task ∈ tasks, task.client = d) (hc : c ≠ d) :
    queued tasks c = 0 := by
  refine List.countP_eq_zero.mpr fun task ht => ?_
  simp [h task ht, hc.symm]

/-- What handling a request does to the count: a read has become a write or a task. -/
theorem outstanding_readDone {req : Option HttpReply} (h : s.readDone env d req = some s') :
    outstanding s' c ≤ outstanding s c := by
  obtain ⟨hreads, ⟨-, rfl⟩ | ⟨r, client, tasks, -, hh, rfl⟩⟩ := System.readDone_cases h
  · by_cases hc : c = d
    · subst hc
      simp only [outstanding, System.setClient_same, System.setClient_queue, System.setClient_workers]
      omega
    · rw [outstanding_setClient_other _ _ hc]
  · obtain ⟨hr, -, -, -, hout⟩ := ApiClient.requestFromClientReadHandler_cases hh
    by_cases hc : c = d
    · subst hc
      simp only [outstanding, System.putTasks_clients, System.setClient_same, System.putTasks_queue,
        System.setClient_queue, System.putTasks_workers, System.setClient_workers, queued_append, hr]
      cases hout with
      | wrote data handler hwrites _ =>
        rw [hwrites]
        simp only [List.length_append, List.length_singleton, queued, List.countP_nil]
        omega
      | put task hclient _ hwrites _ =>
        rw [hwrites]
        simp only [queued_singleton, hclient, if_true]
        omega
    · have hnone : queued tasks c = 0 := by
        cases hout with
        | wrote => rfl
        | put task hclient => exact queued_of_client_ne (d := d) (by simpa using hclient) hc
      simp only [outstanding, System.putTasks_clients, System.setClient_other _ _ hc,
        System.putTasks_queue, System.setClient_queue, System.putTasks_workers,
        System.setClient_workers, queued_append, hnone]
      omega

theorem outstanding_writeDone {i : Nat} {error : Bool} (h : s.writeDone d i error = some s') :
    outstanding s' c ≤ outstanding s c := by
  obtain ⟨w, hw, rfl⟩ := System.writeDone_cases h
  by_cases hc : c = d
  · subst hc
    obtain ⟨hlt, -⟩ := List.getElem?_eq_some_iff.mp hw
    simp only [outstanding, System.setClient_same, System.setClient_queue, System.setClient_workers]
    have hlen := List.length_eraseIdx_of_lt hlt
    cases w.handler with
    | responseWrote =>
      simp only [ApiClient.writeHandler, ApiClient.responseToClientWroteHandler, ApiClient.readCmd]
      omega
    | idleWrote maxTs =>
      simp only [ApiClient.writeHandler, ApiClient.idleWroteHandler]
      split <;> simp only <;> omega
    | idleStarted =>
      simp only [ApiClient.writeHandler]
      omega
  · rw [outstanding_setClient_other _ _ hc]

theorem outstanding_getTask (h : s.getTask env = some s') : outstanding s' c ≤ outstanding s c := by
  obtain ⟨task, queue, hq, rfl⟩ := System.getTask_cases h
  have hspawn := inProgress_spawn_le s.workers task (processTask env task) c
  simp only [outstanding, hq, queued, List.countP_cons, decide_eq_true_eq]
  omega

theorem outstanding_work {i : Nat} (hsafe : s.workers.Safe env) (h : s.work i = some s') :
    outstanding s' c ≤ outstanding s c := by
  obtain ⟨workers, t, e, hw, ⟨reply, rows, hop, rfl⟩ | ⟨hop, rfl⟩⟩ := System.work_cases h
  · have hcount := inProgress_work hsafe hw c
    rw [replies_reply hop] at hcount
    by_cases hc : c = t.tag.client
    · subst hc
      obtain ⟨httpCode, data, handler, hdeliver⟩ :=
        ApiClient.deliver_cases (s.clients t.tag.client) s.now reply
      simp only [ne_eq, reduceCtorEq, not_false_eq_true, and_self, if_true] at hcount
      simp only [outstanding, System.setClient_same, System.setClient_queue,
        System.setClient_workers, hdeliver, List.length_append, List.length_singleton]
      omega
    · rw [outstanding_setClient_other _ _ hc]
      simp only [outstanding]
      omega
  · have hcount := inProgress_work hsafe hw c
    rw [replies_other hop] at hcount
    simp only [outstanding]
    omega

theorem outstanding_timerRun (h : s.timerRun d = some s') :
    outstanding s' c = outstanding s c + if c = d then 1 else 0 := by
  obtain ⟨-, client, task, hh, rfl⟩ := System.timerRun_cases h
  obtain ⟨ping, last, rfl, rfl⟩ := ApiClient.timerWaitTaskResultHandler_cases hh
  by_cases hc : c = d
  · subst hc
    simp only [outstanding, System.putTasks_clients, System.setClient_same, System.putTasks_queue,
      System.setClient_queue, System.putTasks_workers, System.setClient_workers, queued_append,
      queued_singleton, ApiClient.setParams, if_true]
    omega
  · have hne : ¬ d = c := fun heq => hc heq.symm
    simp only [outstanding, System.putTasks_clients, System.setClient_other _ _ hc,
      System.putTasks_queue, System.setClient_queue, System.putTasks_workers,
      System.setClient_workers, queued_append, queued_singleton, if_neg hne, if_neg hc, Nat.add_zero]

/-- Every step but a handshake or a timer run keeps the count or lowers it. -/
theorem outstanding_step (hsafe : s.workers.Safe env) {a : Action} (h : s.step env a = some s')
    (hhs : ∀ error, a ≠ .handshake c error) (htimer : a ≠ .timerRun c) :
    outstanding s' c ≤ outstanding s c := by
  cases a with
  | handshake d error =>
    obtain ⟨-, reads, -, rfl⟩ := System.handshake_cases h
    have hc : c ≠ d := fun heq => hhs error (heq ▸ rfl)
    rw [outstanding_setClient_other _ _ hc]
  | readDone d req => exact outstanding_readDone h
  | writeDone d i error => exact outstanding_writeDone h
  | timerExpire d =>
    obtain ⟨-, rfl⟩ := System.timerExpire_cases h
    by_cases hc : c = d
    · subst hc
      simp [outstanding]
    · rw [outstanding_setClient_other _ _ hc]
  | timerRun d =>
    have hc : c ≠ d := fun heq => htimer (heq ▸ rfl)
    simp [outstanding_timerRun h, hc]
  | getTask => exact outstanding_getTask h
  | work i => exact outstanding_work hsafe h
  | clock now =>
    obtain rfl := Option.some.inj h
    exact Nat.le_refl _

/-! ## What a step does to one client -/

/-- A step touches the client of connection `c` in one of these ways. -/
inductive Touch (env : Extern) (c : Nat) (s : System) (a : Action) (client' : ApiClient) : Prop
  | none (hsame : client' = s.clients c)
  | handshake (error : Bool) (ha : a = .handshake c error)
      (hnew : (s.clients c).connected = false) (reads : Nat) (hreads : reads ≤ 1)
      (hclient : client' = { s.clients c with
        connected := true, reads := (s.clients c).reads + reads })
  | readError (ha : a = .readDone c none) (hreads : (s.clients c).reads ≠ 0)
      (hclient : client' = { s.clients c with reads := (s.clients c).reads - 1 })
  | request (req : HttpReply) (tasks : List Task) (ha : a = .readDone c (some req))
      (hreads : (s.clients c).reads ≠ 0)
      (hclient : ApiClient.requestFromClientReadHandler env c s.now
        { s.clients c with reads := (s.clients c).reads - 1 } req = some (client', tasks))
  | wrote (i : Nat) (error : Bool) (w : Write) (ha : a = .writeDone c i error)
      (hw : (s.clients c).writes[i]? = some w)
      (hclient : client' = ApiClient.writeHandler
        { s.clients c with writes := (s.clients c).writes.eraseIdx i } error w.handler)
  | expired (ha : a = .timerExpire c) (harmed : (s.clients c).timerArmed = true)
      (hclient : client' = { s.clients c with
        timerArmed := false, timerExpired := (s.clients c).timerExpired + 1 })
  | polled (task : Task) (ha : a = .timerRun c) (hexpired : (s.clients c).timerExpired ≠ 0)
      (hclient : ApiClient.timerWaitTaskResultHandler c s.now { s.clients c with
        timerExpired := (s.clients c).timerExpired - 1 } = (client', task))
  | replied (i : Nat) (workers : Workers) (t : Thread) (e : Event) (reply : Reply)
      (rows : List Message) (ha : a = .work i)
      (hw : s.workers.work Op.exec i = some (workers, t, e)) (ht : t.tag.client = c)
      (hop : e.op = .reply reply rows) (hclient : client' = (s.clients c).deliver s.now reply)

theorem step_touch (c : Nat) {a : Action} (h : s.step env a = some s') :
    Touch env c s a (s'.clients c) := by
  cases a with
  | handshake d error =>
    obtain ⟨hnew, reads, hreads, rfl⟩ := System.handshake_cases h
    by_cases hc : c = d
    · subst hc
      exact .handshake error rfl hnew reads hreads (System.setClient_same ..)
    · exact .none (System.setClient_other _ _ hc)
  | readDone d req =>
    obtain ⟨hreads, ⟨rfl, rfl⟩ | ⟨r, client, tasks, rfl, hh, rfl⟩⟩ := System.readDone_cases h
    · by_cases hc : c = d
      · subst hc
        exact .readError rfl hreads (System.setClient_same ..)
      · exact .none (System.setClient_other _ _ hc)
    · by_cases hc : c = d
      · subst hc
        refine .request r tasks rfl hreads ?_
        rw [System.putTasks_clients, System.setClient_same]
        exact hh
      · exact .none (System.setClient_other _ _ hc)
  | writeDone d i error =>
    obtain ⟨w, hw, rfl⟩ := System.writeDone_cases h
    by_cases hc : c = d
    · subst hc
      exact .wrote i error w rfl hw (System.setClient_same ..)
    · exact .none (System.setClient_other _ _ hc)
  | timerExpire d =>
    obtain ⟨harmed, rfl⟩ := System.timerExpire_cases h
    by_cases hc : c = d
    · subst hc
      exact .expired rfl harmed (System.setClient_same ..)
    · exact .none (System.setClient_other _ _ hc)
  | timerRun d =>
    obtain ⟨hexpired, client, task, hh, rfl⟩ := System.timerRun_cases h
    by_cases hc : c = d
    · subst hc
      refine .polled task rfl hexpired ?_
      rw [System.putTasks_clients, System.setClient_same]
      exact hh
    · exact .none (System.setClient_other _ _ hc)
  | getTask =>
    obtain ⟨task, queue, -, rfl⟩ := System.getTask_cases h
    exact .none rfl
  | work i =>
    obtain ⟨workers, t, e, hw, ⟨reply, rows, hop, rfl⟩ | ⟨-, rfl⟩⟩ := System.work_cases h
    · by_cases hc : c = t.tag.client
      · subst hc
        exact .replied i workers t e reply rows rfl hw rfl hop (System.setClient_same ..)
      · exact .none (System.setClient_other _ _ hc)
    · exact .none rfl
  | clock now =>
    obtain rfl := Option.some.inj h
    exact .none rfl

end

/-! ## One thing at a time -/

/-- At most one read and one write are outstanding, and the write's data is in the buffer. -/
structure OneAtATime (client : ApiClient) : Prop where
  read : client.reads ≤ 1
  write : client.writes.length ≤ 1
  buffer : ∀ w ∈ client.writes, client.writeBuffer = w.data

/-- The run of a poll timer's handler finds nothing of the connection outstanding. -/
def PollsWhenQuiet (c : Nat) (s : System) (a : Action) : Prop :=
  a = .timerRun c → outstanding s c = 0

instance (c : Nat) (s : System) (a : Action) : Decidable (PollsWhenQuiet c s a) :=
  inferInstanceAs (Decidable (_ → _))

section

variable {env : Extern} {s s' : System} {c : Nat}

/-- A connection that is not open yet has nothing outstanding and no timer. -/
def Unopened (s : System) (c : Nat) : Prop := (s.clients c).connected = false →
  outstanding s c = 0 ∧ (s.clients c).timerArmed = false ∧ (s.clients c).timerExpired = 0

/-- A reply to a connection takes one of its unanswered tasks. -/
theorem inProgress_pos (hsafe : s.workers.Safe env) {i : Nat} {workers : Workers} {t : Thread}
    {e : Event} {reply : Reply} {rows : List Message}
    (hw : s.workers.work Op.exec i = some (workers, t, e)) (ht : t.tag.client = c)
    (hop : e.op = .reply reply rows) : 0 < inProgress s.workers c := by
  have hcount := inProgress_work hsafe hw c
  rw [replies_reply hop, if_pos ⟨ht, by simp⟩] at hcount
  omega

/-- A connection stays open. -/
theorem connected_step {a : Action} (h : s.step env a = some s')
    (hopen : (s.clients c).connected = true) : (s'.clients c).connected = true := by
  cases step_touch c h with
  | none hsame => rw [hsame, hopen]
  | handshake error ha hnew reads hreads hclient => rw [hclient]
  | readError ha hreads hclient => rw [hclient, ← hopen]
  | request req tasks ha hreads hclient =>
    rw [(ApiClient.requestFromClientReadHandler_cases hclient).2.1, ← hopen]
  | wrote i error w ha hw hclient =>
    rw [hclient, ← hopen]
    obtain ⟨-, heq⟩ | ⟨_, -, -, heq⟩ | ⟨_, -, -, heq⟩ | ⟨-, heq⟩ :=
      ApiClient.writeHandler_cases { s.clients c with writes := (s.clients c).writes.eraseIdx i }
        error w.handler <;> rw [heq]
  | expired ha harmed hclient => rw [hclient, ← hopen]
  | polled task ha hexpired hclient =>
    obtain ⟨ping, last, heq, -⟩ := ApiClient.timerWaitTaskResultHandler_cases hclient
    rw [heq, ← hopen]
    rfl
  | replied i workers t e reply rows ha hw ht hop hclient =>
    obtain ⟨httpCode, data, handler, heq⟩ := ApiClient.deliver_cases (s.clients c) s.now reply
    rw [hclient, heq, ← hopen]

theorem unopened_step (hsafe : s.workers.Safe env) (hs : Unopened s c) {a : Action}
    (h : s.step env a = some s') : Unopened s' c := by
  intro hnew
  have hold : (s.clients c).connected = false := by
    by_contra hopen
    have := connected_step (c := c) h (by simpa using hopen)
    simp [hnew] at this
  obtain ⟨hzero, harmed, hexpired⟩ := hs hold
  have hcount : outstanding s' c ≤ outstanding s c := by
    refine outstanding_step hsafe h ?_ ?_
    · rintro error rfl
      obtain ⟨-, reads, -, rfl⟩ := System.handshake_cases h
      simp at hnew
    · rintro rfl
      exact (System.timerRun_cases h).1 hexpired
  refine ⟨by omega, ?_⟩
  simp only [outstanding] at hzero
  cases step_touch c h with
  | none hsame =>
    rw [hsame]
    exact ⟨harmed, hexpired⟩
  | handshake error ha hnew' reads hreads hclient => simp [hclient] at hnew
  | readError ha hreads hclient => omega
  | request req tasks ha hreads hclient => omega
  | wrote i error w ha hw hclient =>
    obtain ⟨hlt, -⟩ := List.getElem?_eq_some_iff.mp hw
    omega
  | expired ha harmed' hclient => simp [harmed] at harmed'
  | polled task ha hexpired' hclient => exact absurd hexpired hexpired'
  | replied i workers t e reply rows ha hw ht hop hclient =>
    have := inProgress_pos hsafe hw ht hop
    omega

theorem system_safe {ok : System → Action → Prop} (h : Run (System.step env) ok {} s) :
    s.workers.Safe env := workers_safe (System.workers_run h)

/-- What one thing at a time rests on. -/
structure Sequential (s : System) (c : Nat) : Prop where
  one : outstanding s c ≤ 1
  unopened : Unopened s c
  buffer : ∀ w ∈ (s.clients c).writes, (s.clients c).writeBuffer = w.data

theorem Sequential.oneAtATime (h : Sequential s c) : OneAtATime (s.clients c) := by
  have hone := h.one
  simp only [outstanding] at hone
  exact ⟨by omega, by omega, h.buffer⟩

theorem sequential_step (hsafe : s.workers.Safe env) (hs : Sequential s c) {a : Action}
    (hok : PollsWhenQuiet c s a) (h : s.step env a = some s') : Sequential s' c := by
  have hone := hs.one
  refine ⟨?_, unopened_step hsafe hs.unopened h, ?_⟩
  · by_cases htimer : a = .timerRun c
    · subst htimer
      rw [outstanding_timerRun h, hok rfl]
      simp
    by_cases hhs : ∃ error, a = .handshake c error
    · obtain ⟨error, rfl⟩ := hhs
      obtain ⟨hnew, reads, hreads, rfl⟩ := System.handshake_cases h
      have hzero := (hs.unopened hnew).1
      simp only [outstanding] at hzero
      simp only [outstanding, System.setClient_same, System.setClient_queue,
        System.setClient_workers]
      omega
    · have hle := outstanding_step hsafe h (fun error heq => hhs ⟨error, heq⟩) htimer
      omega
  · -- a write is started only when none is outstanding
    simp only [outstanding] at hone
    cases step_touch c h with
    | none hsame =>
      rw [hsame]
      exact hs.buffer
    | handshake error ha hnew reads hreads hclient =>
      rw [hclient]
      exact hs.buffer
    | readError ha hreads hclient =>
      rw [hclient]
      exact hs.buffer
    | request req tasks ha hreads hclient =>
      have hnone : (s.clients c).writes = [] := List.length_eq_zero_iff.mp (by omega)
      cases (ApiClient.requestFromClientReadHandler_cases hclient).2.2.2.2 with
      | wrote data handler hwrites hbuffer => simp [hwrites, hbuffer, hnone]
      | put task _ _ hwrites hbuffer => simp [hwrites, hnone]
    | wrote i error w ha hw hclient =>
      have hkeep : (s'.clients c).writes = (s.clients c).writes.eraseIdx i ∧
          (s'.clients c).writeBuffer = (s.clients c).writeBuffer := by
        rw [hclient]
        obtain ⟨-, heq⟩ | ⟨_, -, -, heq⟩ | ⟨_, -, -, heq⟩ | ⟨-, heq⟩ :=
          ApiClient.writeHandler_cases { s.clients c with
            writes := (s.clients c).writes.eraseIdx i } error w.handler <;>
          exact ⟨by rw [heq], by rw [heq]⟩
      rw [hkeep.1, hkeep.2]
      exact fun w' hw' => hs.buffer w' (List.mem_of_mem_eraseIdx hw')
    | expired ha harmed hclient =>
      rw [hclient]
      exact hs.buffer
    | polled task ha hexpired hclient =>
      obtain ⟨ping, last, heq, -⟩ := ApiClient.timerWaitTaskResultHandler_cases hclient
      rw [heq]
      exact hs.buffer
    | replied i workers t e reply rows ha hw ht hop hclient =>
      have hpos := inProgress_pos hsafe hw ht hop
      have hnone : (s.clients c).writes = [] := List.length_eq_zero_iff.mp (by omega)
      obtain ⟨httpCode, data, handler, heq⟩ := ApiClient.deliver_cases (s.clients c) s.now reply
      rw [hclient, heq]
      simp [hnone]

/-- In a run in which the poll timer of a connection fires only when nothing of the
connection is outstanding, the connection has one read and one write at a time. -/
theorem one_read_and_write_at_a_time (env : Extern) (c : Nat) (s : System)
    (h : Run (System.step env) (PollsWhenQuiet c) {} s) : OneAtATime (s.clients c) := by
  have key : Run (System.step env) anyStep {} s ∧ Sequential s c := by
    refine h.invariant (I := fun s => Run (System.step env) anyStep {} s ∧ Sequential s c)
      ⟨.refl, ?_⟩ ?_
    · refine ⟨Nat.zero_le _, fun _ => ⟨rfl, rfl, rfl⟩, by simp⟩
    · rintro s a s' ⟨hrun, hs⟩ hok hstep
      exact ⟨.tail hrun trivial hstep, sequential_step (system_safe hrun) hs hok hstep⟩
  exact key.2.oneAtATime

end

namespace Sample

def createBody (user : String) : Bytes :=
  Writer.object [("user", Writer.string (bytes user)),
    ("password", Writer.string (bytes "password"))]

def createJson (user : String) : Json :=
  .object [(bytes "user", .string (bytes user)), (bytes "password", .string (bytes "password"))]

/-- The body of an `IDLE` request. -/
def idleBody (uid heartbit : Nat) : Bytes :=
  Writer.object [("uid", Writer.uint64 uid), ("password", Writer.string (bytes "password")),
    ("heartbit", Writer.uint64 heartbit)]

def idleJson (uid heartbit : Nat) : Json :=
  .object [(bytes "uid", .int uid), (bytes "password", .string (bytes "password")),
    (bytes "heartbit", .int heartbit)]

/-- An environment whose parser knows some texts. -/
def knowing (texts : List (Bytes × Json)) : Extern :=
  .sample fun text => (texts.find? (·.1 = text)).map (·.2)

def request (resource : String) (body : Bytes) : HttpReply :=
  { method := bytes "post", resource := bytes resource, body
    parsedHeaders := [(bytes "Content-Type", bytes "application/json")] }

def strangerExt : Extern := knowing [(idleBody 7 0, idleJson 7 0)]

/-- Connection 0 opens, asks for `IDLE` as a user that does not exist and has read the
acknowledgement. -/
def strangerIdles : List Action :=
  [.handshake 0 false, .readDone 0 (some (request "/v1/idle" (idleBody 7 0))), .writeDone 0 0 false]

/-- The timer of connection 0 fires and worker thread `i` refuses the poll. -/
def refusedPoll (i : Nat) : List Action :=
  [.timerExpire 0, .timerRun 0, .getTask, .work i, .work i]

end Sample

theorem one_read_and_write_at_a_time_poll : ∃ s,
    Run (System.step Sample.strangerExt) (PollsWhenQuiet 0) {} s ∧
      (s.clients 0).writes.length = 1 ∧ OneAtATime (s.clients 0) := by
  have hlist : (runList (System.step Sample.strangerExt) (PollsWhenQuiet 0) {}
      (Sample.strangerIdles ++ Sample.refusedPoll 0)).any
      (fun s => (s.clients 0).writes.length = 1) = true := by decide +kernel
  obtain ⟨s, hrun, hlen⟩ := exists_run hlist
  exact ⟨s, hrun, by simpa using hlen, one_read_and_write_at_a_time Sample.strangerExt 0 s hrun⟩

/-- The second poll is refused while the first refusal is still being written. -/
theorem two_writes_at_a_time : ¬ ∀ s, Run (System.step Sample.strangerExt) anyStep {} s →
    OneAtATime (s.clients 0) := by
  intro hclaim
  have hlist : (runList (System.step Sample.strangerExt) anyStep {}
      (Sample.strangerIdles ++ Sample.refusedPoll 0 ++ Sample.refusedPoll 1)).any
      (fun s => (s.clients 0).writes.length = 2) = true := by decide +kernel
  obtain ⟨s, hrun, hlen⟩ := exists_run hlist
  have hone := (hclaim s hrun).write
  simp only [decide_eq_true_eq] at hlen
  omega

end O2Chat.Server
