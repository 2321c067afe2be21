import O2Chat.Server.IdleStart

/-!
# Delivery to an idle connection

A connection that has sent its `IDLE` request is polled from a cursor on, which
starts at the heartbeat of the request and moves behind the newest message of each
response that has been written. `Caught` says that nothing up to a cursor is lost;
it holds of every cursor on its way from a response back to the request details.
-/
namespace O2Chat.Server

open O2Chat.Common O2Chat.Db O2Chat.Lib.Interleaving O2Chat.Lib.Runs

/-- The messages of the responses to a poll. -/
def idleMessages (h : List Event) : List ApiMessage :=
  h.flatMap fun e => match e.op with
    | .reply (.sendMessagesToIdleConn msgs) _ => msgs
    | _ => []

/-- A response to a poll of connection `c` contains the message. -/
def Delivered (s : System) (c : Nat) (m : Message) : Prop :=
  ∃ t ∈ s.workers.threads, t.tag.client = c ∧
    ∃ a ∈ idleMessages t.hist, a.ts = m.ts ∧ a.msg = m.message

instance (s : System) (c : Nat) (m : Message) : Decidable (Delivered s c m) :=
  inferInstanceAs (Decidable (∃ t ∈ s.workers.threads, _ ∧ ∃ a ∈ idleMessages t.hist, _))

/-- A poll of connection `c` has been processed that began after the save `x`. -/
def PolledSince (s : System) (c : Nat) (x : Message × List Nat) : Prop :=
  ∃ t ∈ s.workers.threads, t.tag.client = c ∧ t.tag.cmd = .idle ∧ t.prog.finished = true ∧
    ∃ e ∈ t.hist.getLast?, x ∈ e.pre.saves

instance (s : System) (c : Nat) (x : Message × List Nat) : Decidable (PolledSince s c x) :=
  inferInstanceAs (Decidable (∃ t ∈ s.workers.threads, _ ∧ _ ∧ _ ∧ ∃ e ∈ t.hist.getLast?, _))

/-- The credentials belong to a stored user. -/
def Registered (env : Extern) (params : Params) (s : Storage) : Prop :=
  ∃ v ∈ s.users, v.id = params.uid ∧ v.password = encryptedPass env params.password

instance (env : Extern) (params : Params) (s : Storage) : Decidable (Registered env params s) :=
  inferInstanceAs (Decidable (∃ v ∈ s.users, _))

/-- Connection `c` has just sent an `IDLE` request with the parameters `params` of a
stored user, its first one to be accepted. -/
inductive IdleStart (env : Extern) (c : Nat) (params : Params) (s : System) : Prop
  | request (s₀ : System) (req : HttpReply)
      (hrun : Run (System.step env) SavesInOrder {} s₀)
      (hfirst : ∀ r ∈ (s₀.clients c).received, ¬ StartsIdle env r)
      (hresource : lowercased req.resource = bytes "/v1/idle")
      (hparse : parseMeta env (s₀.clients c).requestDetails.params req.body .idle =
        some ([], params))
      (huser : Registered env params s₀.workers.state.storage)
      (hstep : s₀.step env (.readDone c (some req)) = some s)

/-! ## What a cursor is good for -/

/-- Nothing for the user up to the cursor `ts` is lost, now or later. -/
structure Caught (c : Nat) (params : Params) (s : System) (ts : Nat) : Prop where
  bound : ts ≤ params.ts ∨ ∃ x ∈ s.workers.state.saves, ts ≤ x.1.ts
  delivered : ∀ x ∈ s.workers.state.saves, params.uid ∈ x.2 → params.ts < x.1.ts →
    x.1.ts ≤ ts → Delivered s c x.1

section

variable {env : Extern} {s s' : System} {a : Action} {c ts : Nat} {params : Params}

theorem Caught.of_le (h : ts ≤ params.ts) : Caught c params s ts :=
  ⟨Or.inl h, fun x _ _ hnew hle => by omega⟩

theorem Caught.max {ts' : Nat} (h : Caught c params s ts) (h' : Caught c params s ts') :
    Caught c params s (max ts ts') := by
  rcases Nat.le_total ts ts' with hle | hle
  · rw [Nat.max_eq_right hle]
    exact h'
  · rw [Nat.max_eq_left hle]
    exact h

theorem Delivered.step {m : Message} (hd : Delivered s c m) (h : s.step env a = some s') :
    Delivered s' c m := by
  obtain ⟨t, ht, hclient, api, hapi, hsame⟩ := hd
  obtain ⟨u, hu, htag, hhist⟩ := threads_grow h ht
  refine ⟨u, hu, by rw [htag, hclient], api, ?_, hsame⟩
  obtain ⟨e, he, hmsgs⟩ := List.mem_flatMap.mp hapi
  exact List.mem_flatMap.mpr ⟨e, hhist e he, hmsgs⟩

/-- What is saved later is newer than the cursor. -/
theorem Caught.step (hc : Caught c params s ts) (hok : SavesInOrder s a)
    (h : s.step env a = some s') : Caught c params s' ts := by
  obtain ⟨new, hsaves, hnew⟩ := saves_step hok h
  have hbound := hc.bound
  constructor
  · rw [hsaves]
    exact hbound.imp_right fun ⟨y, hy, hle⟩ => ⟨y, List.mem_append_left _ hy, hle⟩
  · rw [hsaves]
    intro x hx hu hlt hle
    rcases List.mem_append.mp hx with hold | hlate
    · exact (hc.delivered x hold hu hlt hle).step h
    · rcases hbound with hstart | ⟨y, hy, hy'⟩
      · omega
      · have := hnew x hlate y hy
        omega

/-! ## Responses -/

theorem SameMessages.mem {msgs : List ApiMessage} {rows : List Message}
    (h : SameMessages msgs rows) {m : Message} (hm : m ∈ rows) :
    ∃ api ∈ msgs, api.ts = m.ts ∧ api.msg = m.message := by
  have hin : (m.ts, m.message) ∈ msgs.map fun a => (a.ts, a.msg) := by
    rw [h]
    exact List.mem_map_of_mem hm
  obtain ⟨api, hapi, heq⟩ := List.mem_map.mp hin
  exact ⟨api, hapi, (Prod.mk.inj heq).1, (Prod.mk.inj heq).2⟩

theorem SameMessages.row {msgs : List ApiMessage} {rows : List Message}
    (h : SameMessages msgs rows) {api : ApiMessage} (hapi : api ∈ msgs) :
    ∃ m ∈ rows, m.ts = api.ts := by
  have hin : (api.ts, api.msg) ∈ rows.map fun m => (m.ts, m.message) := by
    rw [← h]
    exact List.mem_map_of_mem hapi
  obtain ⟨m, hm, heq⟩ := List.mem_map.mp hin
  exact ⟨m, hm, (Prod.mk.inj heq).1⟩

/-! ## The client while it is polled -/

/-- The client reads no request, and `P` holds of every cursor in it. -/
structure IdleClient (params : Params) (P : Nat → Prop) (client : ApiClient) : Prop where
  connected : client.connected = true
  reads : client.reads = 0
  command : client.requestDetails.command = .idle
  params : client.requestDetails.params = { params with ts := client.requestDetails.params.ts }
  cursor : P client.requestDetails.params.ts
  newest : P client.newestMsgTimestamp
  writes : ∀ w ∈ client.writes,
    w.handler = .idleStarted ∨ ∃ maxTs, w.handler = .idleWrote maxTs ∧ P maxTs

section

variable {P P' : Nat → Prop} {client client' : ApiClient}

theorem IdleClient.mono (h : IdleClient params P client) (hP : ∀ ts, P ts → P' ts) :
    IdleClient params P' client := by
  refine ⟨h.connected, h.reads, h.command, h.params, hP _ h.cursor, hP _ h.newest, ?_⟩
  intro w hw
  exact (h.writes w hw).imp_right fun ⟨maxTs, hidle, hp⟩ => ⟨maxTs, hidle, hP _ hp⟩

theorem IdleClient.wrote (h : IdleClient params P client) {i : Nat} {w : Write} {error : Bool}
    (hw : client.writes[i]? = some w) : IdleClient params P
      (ApiClient.writeHandler { client with writes := client.writes.eraseIdx i } error w.handler) := by
  have hrest : ∀ w' ∈ client.writes.eraseIdx i,
      w'.handler = .idleStarted ∨ ∃ maxTs, w'.handler = .idleWrote maxTs ∧ P maxTs :=
    fun w' hw' => h.writes w' (List.mem_of_mem_eraseIdx hw')
  rcases h.writes w (List.mem_of_getElem? hw) with hstarted | ⟨maxTs, hidle, hp⟩
  · rw [hstarted]
    exact ⟨h.connected, h.reads, h.command, h.params, h.cursor, h.newest, hrest⟩
  · rw [hidle]
    cases error with
    | true => exact ⟨h.connected, h.reads, h.command, h.params, h.cursor, h.newest, hrest⟩
    | false => exact ⟨h.connected, h.reads, h.command, h.params, h.cursor, hp, hrest⟩

/-- The timer handler moves the cursor to one of the two it has. -/
theorem IdleClient.polled (h : IdleClient params P client)
    (hmax : ∀ ts ts', P ts → P ts' → P (max ts ts')) {id now n : Nat} {task : Task}
    (hh : ApiClient.timerWaitTaskResultHandler id now { client with timerExpired := n } =
      (client', task)) :
    IdleClient params P client' ∧ task.cmd = .idle ∧
      task.request = { params with ts := task.request.ts } ∧ P task.request.ts := by
  obtain ⟨ping, last, rfl, rfl⟩ := ApiClient.timerWaitTaskResultHandler_cases hh
  have hcursor := hmax _ _ h.cursor h.newest
  have hparams := h.params
  refine ⟨⟨h.connected, h.reads, h.command, ?_, hcursor, h.newest, h.writes⟩, h.command, ?_, hcursor⟩
  · dsimp only [ApiClient.setParams]
    rw [hparams]
  · dsimp only
    rw [hparams]

theorem IdleClient.delivered (h : IdleClient params P client) {msgs : List ApiMessage} {now : Nat}
    (hmax : P (maxTimestamp msgs)) :
    IdleClient params P (client.deliver now (.sendMessagesToIdleConn msgs)) := by
  refine ⟨h.connected, h.reads, h.command, h.params, h.cursor, h.newest, ?_⟩
  intro w hw
  rcases List.mem_append.mp hw with hold | hnew
  · exact h.writes w hold
  · obtain rfl := List.mem_singleton.mp hnew
    exact Or.inr ⟨_, rfl, hmax⟩

end

/-! ## The session -/

theorem Registered.extends {st st' : Storage} (h : Registered env params st)
    (hext : st.Extends st') : Registered env params st' := by
  obtain ⟨v, hv, hid, hpass⟩ := h
  obtain ⟨v', hv', hkey⟩ := hext.user hv
  have hsame : v'.id = v.id ∧ v'.password = v.password := by
    simp only [User.key, User.mk.injEq] at hkey
    exact ⟨hkey.1, hkey.2.2.2.2.1⟩
  exact ⟨v', hv', hsame.1.trans hid, hsame.2.trans hpass⟩

/-- A poll of the session, from a cursor up to which nothing is lost. -/
structure PollTask (c : Nat) (params : Params) (s : System) (task : Task) : Prop where
  cmd : task.cmd = .idle
  request : task.request = { params with ts := task.request.ts }
  caught : Caught c params s task.request.ts

/-- A poll in progress or finished. -/
structure PollThread (env : Extern) (c : Nat) (params : Params) (s : System) (t : Thread) : Prop where
  task : PollTask c params s t.tag
  registered : ∀ e ∈ t.hist, Registered env params e.pre.storage
  scans : ScansOk params.uid t.hist

/-- The connection is polled. A task of an earlier request has been answered. -/
structure Session (env : Extern) (c : Nat) (params : Params) (s : System) : Prop where
  client : IdleClient params (Caught c params s) (s.clients c)
  registered : Registered env params s.workers.state.storage
  queue : ∀ task ∈ s.queue, task.client = c → PollTask c params s task
  threads : ∀ t ∈ s.workers.threads, t.tag.client = c →
    (t.tag.cmd ≠ .idle ∧ unanswered t = false) ∨ PollThread env c params s t

theorem PollTask.uid {task : Task} (h : PollTask c params s task) : task.request.uid = params.uid := by
  rw [h.request]

theorem PollTask.step {task : Task} (ht : PollTask c params s task) (hok : SavesInOrder s a)
    (h : s.step env a = some s') : PollTask c params s' task :=
  ⟨ht.cmd, ht.request, ht.caught.step hok h⟩

theorem PollTask.matches {task : Task} (h : PollTask c params s task) {st : Storage}
    (hr : Registered env params st) : Matches env task st := by
  obtain ⟨v, hv, hid, hpass⟩ := hr
  refine ⟨v, hv, ?_, ?_⟩
  · rw [if_neg (by simp [h.cmd]), h.uid, hid]
  · rw [h.request, hpass]

theorem PollThread.step {t : Thread} (ht : PollThread env c params s t) (hok : SavesInOrder s a)
    (h : s.step env a = some s') : PollThread env c params s' t :=
  ⟨ht.task.step hok h, ht.registered, ht.scans⟩

/-- A poll of the session is not refused. -/
theorem PollThread.not_refused {t : Thread} (ht : PollThread env c params s t) :
    ¬ Refused env t.tag t.hist := by
  rintro ⟨st, hfirst, hnot⟩
  obtain ⟨e, he, rfl⟩ := Option.map_eq_some_iff.mp hfirst
  exact hnot (ht.task.matches (ht.registered e (List.mem_of_getLast? he)))

/-- Nothing is lost up to the newest message of a response. -/
theorem caught_response (hrec : Recorded s) {t : Thread} (hmem : t ∈ s.workers.threads)
    (ht : PollThread env c params s t) {msgs : List ApiMessage} {rows : List Message}
    (hs : Scanned t.tag rows t.hist) (hsame : SameMessages msgs rows)
    (hok : SavesInOrder s a) (h : s.step env a = some s')
    (hsent : ∀ api ∈ msgs, ∀ m : Message, api.ts = m.ts → api.msg = m.message → Delivered s' c m) :
    Caught c params s' (maxTimestamp msgs) := by
  have htime := hrec.timeline hmem
  have huid := ht.task.uid
  rcases maxTimestamp_mem msgs with hzero | ⟨newest, hnewest, hmax⟩
  · rw [hzero]
    exact Caught.of_le (Nat.zero_le _)
  obtain ⟨row, hrow, hts⟩ := hsame.row hnewest
  obtain ⟨y, hy, hyrow⟩ := hs.saved htime hrow
  obtain ⟨new, hsaves, hlate⟩ := saves_step hok h
  constructor
  · rw [hsaves]
    exact Or.inr ⟨y, List.mem_append_left _ hy, by omega⟩
  · rw [hsaves]
    intro x hin hu hlt hle
    have hx : x ∈ s.workers.state.saves := by
      rcases List.mem_append.mp hin with hold | hnew
      · exact hold
      · have := hlate x hnew y hy
        omega
    by_cases hcursor : x.1.ts ≤ t.tag.request.ts
    · exact (ht.task.caught.delivered x hx hu hlt hcursor).step h
    · obtain ⟨m, hm, hbody⟩ := hs.upTo htime hrec.now (huid ▸ ht.scans) hrow hx
        (huid ▸ hu) (by omega) (by omega)
      obtain ⟨api, hapi, hapits, hapimsg⟩ := hsame.mem hm
      exact hsent api hapi x.1 (hapits.trans (ts_eq_of_body hbody))
        (hapimsg.trans (message_eq_of_body hbody))

/-! ## Steps of the session -/

theorem delivered_of_reply {i : Nat} {t : Thread} {e : Event} {msgs : List ApiMessage}
    {rows : List Message} (hw : s.workers.work Op.exec i = some (s'.workers, t, e))
    (ht : t.tag.client = c) (hop : e.op = .reply (.sendMessagesToIdleConn msgs) rows)
    {api : ApiMessage} (hapi : api ∈ msgs) {m : Message} (hts : api.ts = m.ts)
    (hmsg : api.msg = m.message) : Delivered s' c m := by
  obtain ⟨hi, k, -, -, -, hworkers⟩ := Pool.work_cases hw
  obtain ⟨hlt, -⟩ := List.getElem?_eq_some_iff.mp hi
  refine ⟨⟨t.tag, k e.res, e :: t.hist⟩, ?_, ht, api, ?_, hts, hmsg⟩
  · rw [hworkers]
    exact List.mem_set hlt _
  · refine List.mem_flatMap.mpr ⟨e, List.mem_cons_self, ?_⟩
    rw [hop]
    exact hapi

theorem workers_of_work {i : Nat} {p : Workers} {t : Thread} {e : Event}
    (h : s.step env (.work i) = some s') (hw : s.workers.work Op.exec i = some (p, t, e)) :
    s'.workers = p := by
  obtain ⟨p', t', e', hw', hs'⟩ := System.work_cases (show s.work i = some s' from h)
  rw [hw'] at hw
  obtain ⟨rfl, -⟩ := Prod.mk.inj (Option.some.inj hw)
  rcases hs' with ⟨reply, rows, -, rfl⟩ | ⟨-, rfl⟩
  · rfl
  · rfl

theorem step_extends (h : s.step env a = some s') : Ext s.workers.state s'.workers.state := by
  rcases System.step_workers h with hsame | ⟨b, hb⟩
  · rw [hsame]
    exact .refl _
  · exact workers_step_extends hb

/-- A step keeps the client polled when replies to the connection are good. -/
theorem idleClient_step {P : Nat → Prop} (hnow : IdleClient params P (s.clients c))
    (hmax : ∀ ts ts', P ts → P ts' → P (max ts ts')) (h : s.step env a = some s')
    (hreply : ∀ i workers t e reply rows, a = .work i →
      s.workers.work Op.exec i = some (workers, t, e) → t.tag.client = c →
      e.op = .reply reply rows → ∃ msgs, reply = .sendMessagesToIdleConn msgs ∧
        P (maxTimestamp msgs)) : IdleClient params P (s'.clients c) := by
  cases step_touch c h with
  | none hsame =>
    rw [hsame]
    exact hnow
  | handshake error ha hnew reads hreads hclient =>
    rw [hnow.connected] at hnew
    cases hnew
  | readError ha hreads hclient => exact absurd hnow.reads hreads
  | request req tasks ha hreads hclient => exact absurd hnow.reads hreads
  | wrote i error w ha hw hclient =>
    rw [hclient]
    exact hnow.wrote hw
  | expired ha harmed hclient =>
    rw [hclient]
    exact ⟨hnow.connected, hnow.reads, hnow.command, hnow.params, hnow.cursor, hnow.newest, hnow.writes⟩
  | polled task ha hexpired hclient => exact (hnow.polled hmax hclient).1
  | replied i workers t e reply rows ha hw ht hop hclient =>
    obtain ⟨msgs, rfl, hp⟩ := hreply i workers t e reply rows ha hw ht hop
    rw [hclient]
    exact hnow.delivered hp

/-- A poll that replies and is not refused sends what its scans returned. -/
theorem reply_of_poll
    (hpoll : Pool.Safe Op.exec Inv Grows (PollGood env) (PollDone env) s.workers) {i : Nat}
    {workers : Workers} {t : Thread} {e : Event} {reply : Reply} {rows : List Message}
    (hw : s.workers.work Op.exec i = some (workers, t, e)) (hcmd : t.tag.cmd = .idle)
    (hnot : ¬ Refused env t.tag t.hist) (hop : e.op = .reply reply rows) :
    ∃ msgs, reply = .sendMessagesToIdleConn msgs ∧ SameMessages msgs rows ∧
      Scanned t.tag rows t.hist := by
  have hgood := (hpoll.work Grows.refl @Grows.trans hw).2.2
  exact (hgood hcmd e t.hist rfl reply rows hop).resolve_left hnot

/-- The client of the connection after a step. -/
theorem session_client (hsafe : s.workers.Safe env)
    (hpoll : Pool.Safe Op.exec Inv Grows (PollGood env) (PollDone env) s.workers)
    (hrec : Recorded s) (hs : Session env c params s) (hok : SavesInOrder s a)
    (h : s.step env a = some s') : IdleClient params (Caught c params s') (s'.clients c) := by
  have hnow := hs.client.mono fun ts (hc : Caught c params s ts) => hc.step hok h
  refine idleClient_step hnow (fun _ _ => Caught.max) h ?_
  intro i workers t e reply rows ha hw ht hop
  subst ha
  have hmem := List.mem_of_getElem? (Pool.work_cases hw).1
  rcases hs.threads t hmem ht with ⟨-, hanswered⟩ | hthread
  · rw [unanswered_of_reply hsafe hw hop] at hanswered
    cases hanswered
  · obtain ⟨msgs, rfl, hsame, hscans⟩ :=
      reply_of_poll hpoll hw hthread.task.cmd hthread.not_refused hop
    rw [← workers_of_work h hw] at hw
    refine ⟨msgs, rfl, caught_response hrec hmem hthread hscans hsame hok h ?_⟩
    intro api hapi m hts hmsg
    exact delivered_of_reply hw ht hop hapi hts hmsg

/-- The thread that performs an operation goes on as it was. -/
theorem session_work (hs : Session env c params s) (hok : SavesInOrder s a)
    (hscan : ScansComplete c s a) (h : s.step env a = some s') {t u : Thread} {e : Event}
    (hp : Performs s a t e) (htag : u.tag = t.tag) (hhist : u.hist = e :: t.hist) (hu : u.tag.client = c) :
    (u.tag.cmd ≠ .idle ∧ unanswered u = false) ∨ PollThread env c params s' u := by
  have ht : t.tag.client = c := htag ▸ hu
  rcases hs.threads t hp.mem ht with ⟨hcmd, hanswered⟩ | hthread
  · left
    obtain ⟨k, hprog⟩ := hp.prog
    have hreplied : replies t.hist ≠ [] := by
      intro hquiet
      simp [unanswered, hquiet, hprog, Prog.finished] at hanswered
    refine ⟨by rw [htag]; exact hcmd, ?_⟩
    rw [unanswered, hhist, replies_cons]
    simp [hreplied]
  · right
    refine ⟨?_, ?_, ?_⟩
    · rw [htag]
      exact hthread.task.step hok h
    · rw [hhist]
      intro e' he'
      rcases List.mem_cons.mp he' with rfl | hold
      · rw [hp.pre]
        exact hs.registered
      · exact hthread.registered e' hold
    · rw [hhist]
      refine ⟨fun cid opt hop => ?_, hthread.scans⟩
      rw [hp.pre, ← hthread.task.uid]
      exact hscan t hp.worker ht (cid, opt) (hp.scansNext hop)

theorem session_step (hsafe : s.workers.Safe env)
    (hpoll : Pool.Safe Op.exec Inv Grows (PollGood env) (PollDone env) s.workers)
    (hrec : Recorded s) (hs : Session env c params s) (hok : SavesInOrder s a)
    (hscan : ScansComplete c s a) (h : s.step env a = some s') : Session env c params s' := by
  have hclient := session_client hsafe hpoll hrec hs hok h
  refine ⟨hclient, hs.registered.extends (step_extends h), ?_, ?_⟩
  · intro task htask hc
    rcases queue_step h htask with hold | ⟨req, ha⟩ | ⟨ha, client, hh⟩
    · exact (hs.queue task hold hc).step hok h
    · -- the connection reads no request
      subst ha
      exact absurd (hc ▸ hs.client.reads) (System.reads_of_readDone h)
    · subst hc
      have hnow := hs.client.mono fun ts (hcaught : Caught task.client params s ts) =>
        hcaught.step hok h
      obtain ⟨-, hcmd, hrequest, hcaught⟩ := hnow.polled (fun _ _ => Caught.max) hh
      exact ⟨hcmd, hrequest, hcaught⟩
  · intro u hu hc
    rcases threads_step h hu with hold | ⟨task, htask, rfl⟩ | ⟨i, t, e, rfl, hw, htag, hhist⟩
    · exact (hs.threads u hold hc).imp_right fun ht => ht.step hok h
    · right
      exact ⟨(hs.queue task htask hc).step hok h, by simp, trivial⟩
    · exact session_work hs hok hscan h (performs_of_work hw) htag hhist hc

/-! ## Runs of the session -/

/-- The client after the `IDLE` request that it has read. -/
def startedIdle (client : ApiClient) (req : HttpReply) (params : Params) (now : Nat) : ApiClient :=
  (((ApiClient.noteRequest { client with reads := client.reads - 1 } req).setCommand
    .idle).setParams params).sendOkResponseAndStartIdle now

/-- The `IDLE` request finds nothing of the connection outstanding but itself. -/
theorem idleStart_cases (hstart : IdleStart env c params s) : ∃ s₀ req,
    Run (System.step env) SavesInOrder {} s₀ ∧ Fresh s₀ c ∧
      Registered env params s₀.workers.state.storage ∧ (s₀.clients c).connected = true ∧
      (s₀.clients c).reads = 1 ∧ (s₀.clients c).writes = [] ∧ queued s₀.queue c = 0 ∧
      inProgress s₀.workers c = 0 ∧ s₀.step env (.readDone c (some req)) = some s ∧
      s = (s₀.setClient c (startedIdle (s₀.clients c) req params s₀.now)).putTasks [] := by
  obtain ⟨s₀, req, hrun, hfirst, hresource, hparse, huser, hstep⟩ := hstart
  have hfresh := fresh_of_run hrun hfirst
  have hone := hfresh.sequential.one
  obtain ⟨hreads, ⟨hnone, -⟩ | ⟨r, client, tasks, hr, hh, hs⟩⟩ := System.readDone_cases
    (show s₀.readDone env c (some req) = some s from hstep)
  · cases hnone
  obtain rfl := Option.some.inj hr
  have hhandled : ApiClient.requestFromClientReadHandler env c s₀.now
      { s₀.clients c with reads := (s₀.clients c).reads - 1 } req =
      some (startedIdle (s₀.clients c) req params s₀.now, []) := by
    unfold ApiClient.requestFromClientReadHandler
    dsimp only
    rw [if_pos hresource]
    unfold ApiClient.idleHandler
    have hparams : ((ApiClient.noteRequest { s₀.clients c with
        reads := (s₀.clients c).reads - 1 } req).setCommand .idle).requestDetails.params =
        (s₀.clients c).requestDetails.params := rfl
    dsimp only
    rw [hparams, hparse]
    simp [startedIdle]
  obtain ⟨rfl, rfl⟩ := Prod.mk.inj (Option.some.inj (hh.symm.trans hhandled))
  unfold outstanding at hone
  have hopen : (s₀.clients c).connected = true := by
    by_contra hclosed
    have hzero := (hfresh.sequential.unopened (by simpa using hclosed)).1
    unfold outstanding at hzero
    omega
  have hwrites : (s₀.clients c).writes = [] := List.length_eq_zero_iff.mp (by omega)
  exact ⟨s₀, req, hrun, hfresh, huser, hopen, by omega, hwrites, by omega, by omega, hstep, hs⟩

/-- Such a client polls with the parameters of the request. -/
theorem idleClient_started {P : Nat → Prop} {client : ApiClient} {req : HttpReply} {now : Nat}
    (hopen : client.connected = true) (hreads : client.reads = 1) (hwrites : client.writes = [])
    (hts : P params.ts) (hnewest : P client.newestMsgTimestamp) :
    IdleClient params P (startedIdle client req params now) := by
  refine ⟨hopen, ?_, rfl, rfl, hts, hnewest, ?_⟩
  · show client.reads - 1 = 0
    omega
  · intro w hw
    have hlast : w ∈ client.writes ++ [⟨_, .idleStarted⟩] := hw
    rw [hwrites] at hlast
    exact Or.inl (by rw [List.mem_singleton.mp hlast])

/-- The session begins. -/
theorem session_start (hstart : IdleStart env c params s) :
    Run (System.step env) SavesInOrder {} s ∧ Session env c params s := by
  obtain ⟨s₀, req, hrun, hfresh, huser, hopen, hreads, hwrites, hqueued, hprogress, hstep, hs⟩ :=
    idleStart_cases hstart
  have hquiet : SavesInOrder s₀ (.readDone c (some req)) := by
    intro t ht
    cases ht
  refine ⟨.tail hrun hquiet hstep, ?_⟩
  subst hs
  refine ⟨?_, huser, ?_, ?_⟩
  · rw [System.putTasks_clients, System.setClient_same]
    refine idleClient_started hopen hreads hwrites (Caught.of_le (Nat.le_refl _)) ?_
    rw [hfresh.newest]
    exact Caught.of_le (Nat.zero_le _)
  · intro task htask hc
    have hold : task ∈ s₀.queue := by simpa using htask
    simpa [hc] using List.countP_eq_zero.mp hqueued task hold
  · intro t ht hc
    have hcmd := hfresh.tasks t.tag (List.mem_append_right _ (List.mem_map_of_mem ht)) hc
    have hanswered := List.countP_eq_zero.mp hprogress t ht
    exact Or.inl ⟨hcmd, by simpa [hc] using hanswered⟩

/-- Take a connection that has sent its `IDLE` request for a stored user, and a run in
which messages are saved with increasing times and every scan of a poll of the connection
is complete. Then a message that is newer than the heartbeat of the request and was saved
to a chat of the user is contained in a response on the connection as soon as a poll has
been processed after the save. -/
theorem idle_delivers (env : Extern) (c : Nat) (params : Params) (s₁ s : System)
    (hstart : IdleStart env c params s₁)
    (h : Run (System.step env) (fun s a => SavesInOrder s a ∧ ScansComplete c s a) s₁ s)
    (x : Message × List Nat) (hx : x ∈ s.workers.state.saves) (hu : params.uid ∈ x.2)
    (hnew : params.ts < x.1.ts) (hpolled : PolledSince s c x) : Delivered s c x.1 := by
  obtain ⟨hrun, hsession⟩ := session_start hstart
  have key : Run (System.step env) SavesInOrder {} s ∧ Session env c params s := by
    refine h.invariant (I := fun s => Run (System.step env) SavesInOrder {} s ∧
      Session env c params s) ⟨hrun, hsession⟩ ?_
    rintro s a s' ⟨hrun, hs⟩ ⟨hok, hscan⟩ hstep
    have hpoll := workers_poll (System.workers_run hrun)
    exact ⟨.tail hrun hok hstep,
      session_step (system_safe hrun) hpoll (recorded_of_run hrun) hs hok hscan hstep⟩
  obtain ⟨hrun, hs⟩ := key
  have hrec := recorded_of_run hrun
  obtain ⟨t, ht, hclient, hcmd, hfin, e, he, hsaved⟩ := hpolled
  rcases hs.threads t ht hclient with ⟨hother, -⟩ | hthread
  · exact absurd hcmd hother
  by_cases hcursor : x.1.ts ≤ t.tag.request.ts
  · exact hthread.task.caught.delivered x hx hu hnew hcursor
  rcases (workers_poll (System.workers_run hrun)).finished ht hfin hcmd with
    hrefused | ⟨rows, hscans, hreply⟩
  · exact absurd hrefused hthread.not_refused
  have htime := hrec.timeline ht
  have huid := hthread.task.uid
  obtain ⟨m, hm, hbody⟩ := hscans.since htime (huid ▸ hthread.scans)
    (htime.mem_of_last he hsaved) (huid ▸ hu) (by omega)
  rcases hreply with hempty | ⟨e', he', msgs, hop, hsame⟩
  · rw [hempty] at hm
    cases hm
  · obtain ⟨api, hapi, hts, hmsg⟩ := hsame.mem hm
    refine ⟨t, ht, hclient, api, ?_, hts.trans (ts_eq_of_body hbody),
      hmsg.trans (message_eq_of_body hbody)⟩
    refine List.mem_flatMap.mpr ⟨e', he', ?_⟩
    rw [hop]
    exact hapi

end

namespace Sample

def idleExt : Extern := knowing [(createBody "amy", createJson "amy"), (idleBody 1 0, idleJson 1 0),
  (sendBody 1 "amy" "note", sendJson 1 "amy" "note"), (createBody "bob", createJson "bob"),
  (sendBody 2 "amy" "hello", sendJson 2 "amy" "hello")]

def amy : Params := { uid := 1, password := bytes "password" }

/-- Amy's `IDLE` request on connection 1. -/
def amyIdles : HttpReply := request "/v1/idle" (idleBody 1 0)

/-- Amy registers on connection 0, asks for `IDLE` on connection 1, and `rest` follows. -/
def idleRun (ok : System → Action → Prop) [∀ s a, Decidable (ok s a)] (rest : List Action)
    (p : System → Bool) : Bool :=
  (runList (System.step idleExt) SavesInOrder {} (amyRegisters ++ [.handshake 1 false])).any
    fun s₀ => (s₀.clients 1).received = [] && Registered idleExt amy s₀.workers.state.storage &&
      parseMeta idleExt (s₀.clients 1).requestDetails.params amyIdles.body .idle = some ([], amy) &&
      (s₀.step idleExt (.readDone 1 (some amyIdles))).any fun s₁ =>
        (runList (System.step idleExt) ok s₁ rest).any p

theorem exists_idleRun {ok : System → Action → Prop} [∀ s a, Decidable (ok s a)]
    {rest : List Action} {p : System → Bool} (h : idleRun ok rest p = true) :
    ∃ s₁ s, IdleStart idleExt 1 amy s₁ ∧ Run (System.step idleExt) ok s₁ s ∧ p s = true := by
  obtain ⟨s₀, hlist, hp⟩ := (Option.any_eq_true _ _).mp h
  simp only [Bool.and_eq_true, decide_eq_true_eq] at hp
  obtain ⟨⟨⟨hnone, huser⟩, hparse⟩, hrest⟩ := hp
  obtain ⟨s₁, hstep, hp⟩ := (Option.any_eq_true _ _).mp hrest
  obtain ⟨s, hrun, hp⟩ := exists_run hp
  refine ⟨s₁, s, ?_, hrun, hp⟩
  exact .request s₀ amyIdles (Run.of_runList .refl hlist) (by simp [hnone]) (by decide) hparse
    huser hstep

/-- Amy writes a note to herself at time `ts`; worker thread `i` saves it. -/
def noteAt (ts i : Nat) : List Action := .clock ts :: note i ++ [.writeDone 0 0 false]

/-- After a note of amy bob registers, and writes to her. -/
def noteAndHello : List Action :=
  noteAt 1 1 ++ bobRegisters 2 ++ .clock 2 ::
    served "/v1/message/send" (sendBody 2 "amy" "hello") 3 5 ++ [.writeDone 0 0 false]

/-- The acknowledgement of the `IDLE` request is written; then a poll performs `n` operations
as worker thread `i`, and its response is written. -/
def pollAfter (actions : List Action) (i n : Nat) : List Action :=
  .writeDone 1 0 false :: actions ++ [.timerExpire 1, .timerRun 1, .getTask] ++
    List.replicate n (.work i) ++ [.writeDone 1 0 false]

/-- The save of a note. -/
def saved (ts : Nat) : Message × List Nat :=
  ({ userFrom := 1, chatTo := 1, ts, message := bytes "note" }, [1])

end Sample

theorem idle_delivers_two_senders : ∃ s, s.workers.state.saves.map (·.1.userFrom) = [1, 2] ∧
    ∀ x ∈ s.workers.state.saves, PolledSince s 1 x ∧ Delivered s 1 x.1 := by
  have hlist : Sample.idleRun (fun s a => SavesInOrder s a ∧ ScansComplete 1 s a)
      (Sample.pollAfter Sample.noteAndHello 4 11) (fun s =>
        s.workers.state.saves.map (·.1.userFrom) = [1, 2] ∧ ∀ x ∈ s.workers.state.saves,
          Sample.amy.uid ∈ x.2 ∧ Sample.amy.ts < x.1.ts ∧ PolledSince s 1 x) = true := by
    decide +kernel
  obtain ⟨s₁, s, hstart, hrun, hfacts⟩ := Sample.exists_idleRun hlist
  obtain ⟨hsenders, hsaves⟩ := of_decide_eq_true hfacts
  refine ⟨s, hsenders, fun x hx => ?_⟩
  obtain ⟨huid, hts, hpolled⟩ := hsaves x hx
  exact ⟨hpolled, idle_delivers Sample.idleExt 1 Sample.amy s₁ s hstart hrun x hx huid hts hpolled⟩

/-- Of four messages saved to one chat before a poll the first is lost. -/
theorem fourth_message_loses_first : ¬ ∀ (params : Params) (s₁ s : System),
    IdleStart Sample.idleExt 1 params s₁ →
    Run (System.step Sample.idleExt) (fun s a => SavesInOrder s a ∧ PollsWhenQuiet 1 s a) s₁ s →
    ∀ x ∈ s.workers.state.saves, params.uid ∈ x.2 → params.ts < x.1.ts → PolledSince s 1 x →
      Delivered s 1 x.1 := by
  intro hclaim
  have hlist : Sample.idleRun (fun s a => SavesInOrder s a ∧ PollsWhenQuiet 1 s a)
      (Sample.pollAfter (Sample.noteAt 1 1 ++ Sample.noteAt 2 2 ++ Sample.noteAt 3 3 ++
        Sample.noteAt 4 4) 5 13) (fun s => Sample.saved 1 ∈ s.workers.state.saves ∧
          PolledSince s 1 (Sample.saved 1) ∧ ¬ Delivered s 1 (Sample.saved 1).1) = true := by
    decide +kernel
  obtain ⟨s₁, s, hstart, hrun, hfacts⟩ := Sample.exists_idleRun hlist
  obtain ⟨hsaved, hpolled, hlost⟩ := of_decide_eq_true hfacts
  exact hlost (hclaim Sample.amy s₁ s hstart hrun (Sample.saved 1) hsaved (by decide) (by decide)
    hpolled)

end O2Chat.Server
