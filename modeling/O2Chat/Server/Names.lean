import O2Chat.Server.ChatNames
import O2Chat.Server.System

/-!
# Names are not empty

`parse_meta` refuses an empty name, so a task that comes from an accepted request names
the user or chat it creates. The poll timer makes its tasks from whatever the details of
its connection hold, a refused request included. As long as these name what they would
create, no user and no chat without a name is stored.
-/
namespace O2Chat.Server

open O2Chat.Common O2Chat.Db O2Chat.Lib.Interleaving O2Chat.Lib.Runs

/-- A new user or chat has a name. -/
def CreatesNamed (cmd : Cmd) (params : Params) : Prop :=
  (cmd = .userCreate → params.user ≠ []) ∧ (cmd = .chatCreate → params.chatName ≠ [])

instance (cmd : Cmd) (params : Params) : Decidable (CreatesNamed cmd params) :=
  inferInstanceAs (Decidable (_ ∧ _))

/-- The poll timer runs only when its task would not create anything without a name. -/
def PollsNamed (s : System) : Action → Prop
  | .timerRun c =>
    CreatesNamed (s.clients c).requestDetails.command (s.clients c).requestDetails.params
  | _ => True

instance (s : System) (a : Action) : Decidable (PollsNamed s a) := by
  cases a <;> unfold PollsNamed <;> infer_instance

/-! ## Tasks -/

section

variable {env : Extern} {params params' : Params} {json : Bytes} {command : Cmd}

/-- What `parse_meta` accepts is named. -/
theorem parseMeta_named (h : parseMeta env params json command = some ([], params')) :
    CreatesNamed command params' := by
  unfold parseMeta at h
  cases hparse : env.parse (cstr json) with
  | none =>
    rw [hparse] at h
    obtain ⟨herr, -⟩ := Prod.mk.inj (Option.some.inj h)
    exact absurd herr (by decide)
  | some doc =>
    rw [hparse] at h
    obtain ⟨password, -, h⟩ := required_ok (fun _ => stringParam_error) h
    constructor
    · rintro rfl
      obtain ⟨user, huser, h⟩ := required_ok (fun _ => stringParam_error) h
      rcases ite_eq_iff.mp h with ⟨-, h⟩ | ⟨-, h⟩
      · obtain ⟨herr, -⟩ := Prod.mk.inj (Option.some.inj h)
        exact absurd herr (by decide)
      · obtain ⟨-, rfl⟩ := Prod.mk.inj (Option.some.inj h)
        exact stringParam_ne_nil huser
    · rintro rfl
      obtain ⟨uid, -, h⟩ := required_ok (fun _ => uintParam_error) h
      obtain ⟨name, hname, h⟩ := required_ok (fun _ => stringParam_error) h
      obtain ⟨-, rfl⟩ := Prod.mk.inj (Option.some.inj h)
      exact stringParam_ne_nil hname

/-- The tasks of a request are named. -/
theorem request_named {id now : Nat} {c c' : ApiClient} {req : HttpReply} {tasks : List Task}
    (h : c.requestFromClientReadHandler env id now req = some (c', tasks)) :
    ∀ task ∈ tasks, CreatesNamed task.cmd task.request := by
  intro task htask
  obtain ⟨-, hparse, -⟩ := ApiClient.request_task h htask
  exact parseMeta_named hparse

end

/-- Every task that waits or is being processed is named. -/
def TasksNamed (s : System) : Prop :=
  (∀ task ∈ s.queue, CreatesNamed task.cmd task.request) ∧
    ∀ t ∈ s.workers.threads, CreatesNamed t.tag.cmd t.tag.request

/-- The threads of a pool after a step of one of them have the same tasks. -/
theorem work_tags {p : Workers} {P : Task → Prop} (hp : ∀ t ∈ p.threads, P t.tag) {i : Nat}
    {p' : Workers} {t : Thread} {e : Event} (hw : p.work Op.exec i = some (p', t, e)) :
    ∀ t ∈ p'.threads, P t.tag := by
  obtain ⟨hi, k, -, -, -, rfl⟩ := Pool.work_cases hw
  intro u hu
  rcases List.mem_or_eq_of_mem_set hu with hold | rfl
  · exact hp u hold
  · exact hp t (List.mem_of_getElem? hi)

theorem tasksNamed_put {s : System} (h : TasksNamed s) {c : Nat} {client : ApiClient}
    {tasks : List Task} (htasks : ∀ task ∈ tasks, CreatesNamed task.cmd task.request) :
    TasksNamed ((s.setClient c client).putTasks tasks) := by
  refine ⟨?_, h.2⟩
  intro task htask
  rcases List.mem_append.mp htask with hold | hnew
  · exact h.1 task hold
  · exact htasks task hnew

/-- The condition is exact for one step: it decides whether the tasks stay named. -/
theorem tasksNamed_step {env : Extern} {s s' : System} (h : TasksNamed s) {a : Action}
    (hs : s.step env a = some s') : TasksNamed s' ↔ PollsNamed s a := by
  cases a with
  | handshake c error =>
    obtain ⟨-, reads, -, rfl⟩ := System.handshake_cases hs
    exact iff_of_true h trivial
  | readDone c req =>
    obtain ⟨-, ⟨-, rfl⟩ | ⟨r, client, tasks, -, hh, rfl⟩⟩ := System.readDone_cases hs
    · exact iff_of_true h trivial
    · exact iff_of_true (tasksNamed_put h (request_named hh)) trivial
  | writeDone c i error =>
    obtain ⟨w, -, rfl⟩ := System.writeDone_cases hs
    exact iff_of_true h trivial
  | timerExpire c =>
    obtain ⟨-, rfl⟩ := System.timerExpire_cases hs
    exact iff_of_true h trivial
  | timerRun c =>
    obtain ⟨-, client, task, hdone, rfl⟩ := System.timerRun_cases hs
    obtain ⟨ping, lastClientPing, -, rfl⟩ := ApiClient.timerWaitTaskResultHandler_cases hdone
    constructor
    · intro hnamed
      exact hnamed.1 _ (List.mem_append_right _ List.mem_cons_self)
    · intro hok
      refine tasksNamed_put h ?_
      intro task htask
      obtain rfl := List.mem_singleton.mp htask
      exact hok
  | getTask =>
    obtain ⟨task, queue, hq, rfl⟩ := System.getTask_cases hs
    obtain ⟨hqueue, hthreads⟩ := h
    rw [hq] at hqueue
    refine iff_of_true ⟨fun t ht => hqueue t (List.mem_cons_of_mem _ ht), ?_⟩ trivial
    intro t ht
    rcases List.mem_append.mp ht with hold | hnew
    · exact hthreads t hold
    · obtain rfl := List.mem_singleton.mp hnew
      exact hqueue task List.mem_cons_self
  | work i =>
    obtain ⟨workers, t, e, hw, hs'⟩ := System.work_cases hs
    have htags := work_tags (P := fun task => CreatesNamed task.cmd task.request) h.2 hw
    obtain ⟨reply, rows, -, rfl⟩ | ⟨-, rfl⟩ := hs'
    · exact iff_of_true ⟨h.1, htags⟩ trivial
    · exact iff_of_true ⟨h.1, htags⟩ trivial
  | clock now =>
    obtain rfl := Option.some.inj hs
    exact iff_of_true h trivial

/-! ## Programs -/

/-- The operation creates nothing without a name. -/
def NamesNew : Op → Prop
  | .db (.createUser name _ _) => name ≠ []
  | .db (.createChat name _) => name ≠ []
  | _ => True

theorem namesNew_readOnly (c : Call) (h : c.readOnly = true) : NamesNew (.db c) := by
  cases c with
  | createUser name pass stpath => cases h
  | createChat name uid => cases h
  | _ => trivial

theorem all_call_named {c : Call} (h : NamesNew (.db c)) : (call c).All NamesNew := all_call h

theorem all_send (r : Reply) (rows : List Message) : (sendRows r rows).All NamesNew :=
  all_sendRows trivial

theorem all_time : (time : Work Nat).All NamesNew := ⟨trivial, fun _ => trivial⟩

theorem all_check (env : Extern) (task : Task) : (lookupCheckPass env task).All NamesNew :=
  all_lookupCheckPass namesNew_readOnly (fun _ _ _ => trivial) env task

theorem all_checkByName (env : Extern) (name : Bytes) (task : Task) (checkPass : Bool) :
    (lookupCheckPassByName env name task checkPass).All NamesNew :=
  all_lookupCheckPassByName namesNew_readOnly (fun _ _ _ => trivial) env name task checkPass

theorem all_chats (uid : Nat) : (lookupChatsForUserId uid).All NamesNew :=
  (all_call_named (by trivial)).bind fun chats =>
    Prog.All.traverse (fun chatid => all_call_named (c := .lookupChatById chatid) trivial) chats

theorem all_format (msgs : List Message) : (toApiFormat msgs).All NamesNew := by
  refine Prog.All.traverse (fun msg => ?_) msgs
  exact (all_call_named (by trivial)).bind fun chat => (all_call_named (by trivial)).bind fun user => trivial

theorem all_withChat (task : Task) {k : Chat → Work Unit} (hk : ∀ chat, (k chat).All NamesNew) :
    (withChat task k).All NamesNew := by
  refine (all_call_named (by trivial)).bind fun chats => ?_
  split
  · exact hk _
  · exact all_send _ _

/-- What goes on for a user that has been found. -/
theorem all_found {user : User} {k : Work Unit} (hk : k.All NamesNew) :
    (if user.id = 0 then (return () : Work Unit) else k).All NamesNew := by
  split
  · trivial
  · exact hk

/-- Processing a named task creates nothing without a name. -/
theorem processTask_named (env : Extern) {task : Task}
    (h : CreatesNamed task.cmd task.request) : (processTask env task).All NamesNew := by
  unfold processTask
  cases hcmd : task.cmd with
  | idle =>
    refine (all_check env task).bind fun user => all_found ?_
    refine all_time.bind fun now => (all_call_named (by trivial)).bind fun _ => ?_
    refine (all_chats user.id).bind fun chats => ?_
    refine (Prog.All.traverse (fun chat => all_call_named (c := .getMessages chat.id _) trivial)
      chats).bind fun batch => ?_
    dsimp only
    split
    · exact (all_format _).bind fun api => all_send _ _
    · split
      · exact all_send _ _
      · trivial
  | userStatus =>
    refine (all_check env task).bind fun user => all_found ?_
    refine (all_checkByName env _ task false).bind fun userTo => all_found ?_
    exact all_time.bind fun now => all_send _ _
  | userHistory =>
    refine (all_check env task).bind fun user => all_found ?_
    refine (all_checkByName env _ task false).bind fun userTo => all_found ?_
    refine (all_call_named (by trivial)).bind fun msgsTo => (all_call_named (by trivial)).bind fun msgsFrom => ?_
    exact (all_format _).bind fun api => all_send _ _
  | messageSend =>
    refine (all_check env task).bind fun user => all_found ?_
    refine (all_call_named (by trivial)).bind fun usersTo => ?_
    split
    · exact all_send _ _
    · exact all_time.bind fun now => (all_call_named (by trivial)).bind fun _ => all_send _ _
    · exact all_send _ _
  | userCreate =>
    refine (all_call_named (c := .createUser _ _ _) (h.1 hcmd)).bind fun user => ?_
    split
    · exact all_send _ _
    · exact all_time.bind fun now => all_send _ _
  | userLogin =>
    refine (all_checkByName env _ task true).bind fun user => all_found ?_
    exact all_time.bind fun now => all_send _ _
  | chatCreate =>
    refine (all_check env task).bind fun user => all_found ?_
    refine (all_call_named (c := .createChat _ _) (h.2 hcmd)).bind fun chat => ?_
    split
    · exact all_send _ _
    · exact all_time.bind fun now => all_send _ _
  | chatAdduser =>
    refine (all_check env task).bind fun user => all_found ?_
    refine (all_checkByName env _ task false).bind fun toAdd => all_found ?_
    exact all_withChat task fun chat => (all_call_named (by trivial)).bind fun _ => all_send _ _
  | messageSendChat =>
    refine (all_check env task).bind fun user => all_found ?_
    refine all_withChat task fun chat => ?_
    exact all_time.bind fun now => (all_call_named (by trivial)).bind fun _ => all_send _ _
  | chatHistory | chatStatus | messageRecent | cmdLast => trivial

/-! ## The store -/

/-- A call that creates nothing without a name keeps the names of chats. -/
theorem chatsNamed_step {s s' : Storage} (h : ∀ c ∈ s.chats, c.name ≠ []) {c : Call}
    (hc : NamesNew (.db c)) (hs : s.step c = some s') : ∀ d ∈ s'.chats, d.name ≠ [] := by
  intro d hd
  rcases Storage.step_chats hs with hsame | ⟨name, uid, e, rfl, happ, rfl, -⟩ |
    ⟨name, pass, stpath, e, rfl, happ, rfl, -⟩
  · exact h d (hsame ▸ hd)
  all_goals
    rw [happ] at hd
    rcases List.mem_append.mp hd with hold | hnew
    · exact h d hold
    · obtain rfl := List.mem_singleton.mp hnew
      exact hc

/-- As long as the poll timer is given named tasks, tasks and chats have names. -/
theorem named_of_run {env : Extern} {s : System} (h : Run (System.step env) PollsNamed {} s) :
    TasksNamed s ∧ ∀ c ∈ s.workers.state.storage.chats, c.name ≠ [] := by
  induction h with
  | refl =>
    refine ⟨⟨?_, ?_⟩, ?_⟩
    · intro task htask
      cases htask
    · intro t ht
      cases ht
    · intro c hc
      cases hc
  | @tail s s' a hrun hok hs ih =>
    obtain ⟨htasks, hchats⟩ := ih
    refine ⟨(tasksNamed_step htasks hs).mpr hok, ?_⟩
    rcases System.step_workers hs with hsame | ⟨b, hb⟩
    · rw [hsame]
      exact hchats
    cases b with
    | take task =>
      obtain hpool := Option.some.inj hb
      rw [← hpool]
      exact hchats
    | clock now =>
      obtain hpool := Option.some.inj hb
      rw [← hpool]
      exact hchats
    | work i =>
      obtain ⟨⟨q, t, e⟩, hw, rfl⟩ := Option.map_eq_some_iff.mp hb
      obtain ⟨hi, k, hprog, -, hexec, hq⟩ := Pool.work_cases hw
      have ht := List.mem_of_getElem? hi
      -- the thread is still within the program of its task
      have hfollows := workers_tracked (System.workers_run hrun) t ht
      have hrest := ((processTask_named env (htasks.2 t ht)).follows hfollows).2
      rw [hprog] at hrest
      have hop : NamesNew e.op := hrest.1
      rw [hq]
      rcases Op.exec_storage hexec with hsame | ⟨c, hc, hstep⟩
      · show ∀ c ∈ e.post.storage.chats, c.name ≠ []
        rw [hsame]
        exact hchats
      · rw [hc] at hop
        exact chatsNamed_step hchats hop hstep

/-- A user has the name of a chat. -/
theorem users_named {s : Storage} (hi : s.Integrity) (h : ∀ c ∈ s.chats, c.name ≠ []) :
    ∀ u ∈ s.users, u.name ≠ [] :=
  fun u hu => h _ (hi.selfChat u hu).1

end O2Chat.Server
