import O2Chat.Net.Headers
import O2Chat.Server.Carried
import O2Chat.Server.Provenance

/-!
# Every stored string is a C string

`parse_meta` reads strings with `GetString`, which ends them at a NUL. So nothing that a request
leaves in the details of its connection, in a task or in the store has a NUL in it, and a
response with names and texts from the store means the same to a reader of C strings.
-/
namespace O2Chat.Server

open O2Chat.Common O2Chat.Db O2Chat.Lib.Interleaving O2Chat.Lib.Linearization O2Chat.Lib.Runs

/-! ## Parameters -/

/-- No string has a NUL. -/
structure Params.Terminated (p : Params) : Prop where
  message : 0 ∉ p.message
  toUser : 0 ∉ p.toUser
  user : 0 ∉ p.user
  password : 0 ∉ p.password
  chatName : 0 ∉ p.chatName
  chatAdduser : 0 ∉ p.chatAdduser

theorem Params.terminated_default : Params.Terminated {} := by constructor <;> simp

section

variable {env : Extern} {params params' : Params} {json err : Bytes} {command : Cmd} {doc : Json}

theorem stringParam_terminated {name : String} {value : Bytes}
    (h : findRequiredStringParam doc name = some (.ok value)) : 0 ∉ value := by
  unfold findRequiredStringParam at h
  split at h
  · cases h
  · cases Option.some.inj h
  · rename_i found _
    split at h
    · cases Option.some.inj h
    · cases Option.some.inj h
    · rename_i b s hstring
      obtain rfl := Except.ok.inj (Option.some.inj h)
      cases found with
      | string text =>
        rw [← Option.some.inj hstring]
        exact Net.zero_notMem_cstr text
      | _ => cases hstring

/-- A property of the parameters that every string that is filled in keeps. -/
theorem required_keeps {α : Type} {found : Option (Except Bytes α)} {P : Params → Prop}
    {k : α → Option (Bytes × Params)} (h : required found params k = some (err, params'))
    (hp : P params)
    (hk : ∀ value, found = some (.ok value) → k value = some (err, params') → P params') :
    P params' := by
  unfold required at h
  split at h
  · cases h
  · obtain ⟨-, rfl⟩ := Prod.mk.inj (Option.some.inj h)
    exact hp
  · exact hk _ rfl h

theorem parseMeta_terminated (h : parseMeta env params json command = some (err, params'))
    (hp : params.Terminated) : params'.Terminated := by
  have hend : ∀ {e : Bytes} {p : Params}, some (e, p) = some (err, params') →
      p.Terminated → params'.Terminated := by
    intro e p h hp
    obtain ⟨-, rfl⟩ := Prod.mk.inj (Option.some.inj h)
    exact hp
  unfold parseMeta at h
  cases hparse : env.parse (cstr json) with
  | none =>
    rw [hparse] at h
    exact hend h hp
  | some doc =>
    rw [hparse] at h
    refine required_keeps h hp fun password hpassword h => ?_
    have hp : Params.Terminated { params with password } :=
      { hp with password := stringParam_terminated hpassword }
    rcases ite_eq_iff.mp h with ⟨-, h⟩ | ⟨-, h⟩
    · refine required_keeps h hp fun user huser h => ?_
      have hp : Params.Terminated { params with password, user } :=
        { hp with user := stringParam_terminated huser }
      rcases ite_eq_iff.mp h with ⟨-, h⟩ | ⟨-, h⟩
      · exact hend h hp
      · exact hend h hp
    refine required_keeps h hp fun uid _ h => ?_
    have hp : Params.Terminated { params with password, uid } := { hp with }
    rcases ite_eq_iff.mp h with ⟨-, h⟩ | ⟨-, h⟩
    · refine required_keeps h hp fun name hname h => ?_
      have hp : Params.Terminated { params with password, uid, chatName := name } :=
        { hp with chatName := stringParam_terminated hname }
      rcases ite_eq_iff.mp h with ⟨-, h⟩ | ⟨-, h⟩
      · exact required_keeps h hp fun adduser hadd h =>
          hend h { hp with chatAdduser := stringParam_terminated hadd }
      · exact hend h hp
    rcases ite_eq_iff.mp h with ⟨-, h⟩ | ⟨-, h⟩
    · exact hend (optionalUint_ok h) { hp with }
    rcases ite_eq_iff.mp h with ⟨-, h⟩ | ⟨-, h⟩
    · refine required_keeps h hp fun user huser h => ?_
      have hp : Params.Terminated { params with password, uid, user } :=
        { hp with user := stringParam_terminated huser }
      exact hend (optionalUint_ok h) { hp with }
    rcases ite_eq_iff.mp h with ⟨-, h⟩ | ⟨-, h⟩
    · refine required_keeps h hp fun message hmessage h => ?_
      have hp : Params.Terminated { params with password, uid, message } :=
        { hp with message := stringParam_terminated hmessage }
      rcases ite_eq_iff.mp h with ⟨-, h⟩ | ⟨-, h⟩
      · exact required_keeps h hp fun toUser hto h =>
          hend h { hp with toUser := stringParam_terminated hto }
      · exact required_keeps h hp fun name hname h =>
          hend h { hp with chatName := stringParam_terminated hname }
    · exact hend h hp

end

/-! ## Requests and tasks -/

section

variable {env : Extern} {s s' : System} {a : Action}

theorem request_terminated {client client' : ApiClient} {id now : Nat} {req : HttpReply}
    {tasks : List Task}
    (h : client.requestFromClientReadHandler env id now req = some (client', tasks))
    (hc : client.requestDetails.params.Terminated) :
    client'.requestDetails.params.Terminated := by
  unfold ApiClient.requestFromClientReadHandler at h
  dsimp only at h
  split at h
  · unfold ApiClient.idleHandler at h
    dsimp only at h
    split at h
    · cases h
    rename_i err params hparse
    have hparams := parseMeta_terminated hparse hc
    split at h
    · obtain ⟨rfl, -⟩ := Prod.mk.inj (Option.some.inj h)
      exact hparams
    · obtain ⟨rfl, -⟩ := Prod.mk.inj (Option.some.inj h)
      exact hparams
  split at h
  · unfold ApiClient.v1Handler ApiClient.handlerImpl at h
    split at h
    · split at h
      · cases h
      rename_i err params hparse
      have hparams := parseMeta_terminated hparse hc
      dsimp only at h
      split at h
      · obtain ⟨rfl, -⟩ := Prod.mk.inj (Option.some.inj h)
        exact hparams
      · obtain ⟨rfl, -⟩ := Prod.mk.inj (Option.some.inj h)
        exact hparams
    · obtain ⟨rfl, -⟩ := Prod.mk.inj (Option.some.inj h)
      exact hc
  · obtain ⟨rfl, -⟩ := Prod.mk.inj (Option.some.inj h)
    exact hc

/-- Nothing that a request has left behind has a NUL. -/
structure Terminated (s : System) : Prop where
  clients : ∀ c, (s.clients c).requestDetails.params.Terminated
  queue : ∀ task ∈ s.queue, task.request.Terminated
  threads : ∀ t ∈ s.workers.threads, t.tag.request.Terminated

theorem Terminated.client (hs : Terminated s) (h : s.step env a = some s') (c : Nat) :
    (s'.clients c).requestDetails.params.Terminated := by
  have hc := hs.clients c
  cases step_touch c h with
  | none hsame =>
    rw [hsame]
    exact hc
  | handshake error ha hnew reads hreads hclient =>
    rw [hclient]
    exact hc
  | readError ha hreads hclient =>
    rw [hclient]
    exact hc
  | request req tasks ha hreads hclient => exact request_terminated hclient hc
  | wrote i error w ha hw hclient =>
    rw [hclient]
    obtain ⟨-, heq⟩ | ⟨_, -, -, heq⟩ | ⟨_, -, -, heq⟩ | ⟨-, heq⟩ :=
      ApiClient.writeHandler_cases { s.clients c with writes := (s.clients c).writes.eraseIdx i }
        error w.handler <;>
    · rw [heq]
      exact hc
  | expired ha harmed hclient =>
    rw [hclient]
    exact hc
  | polled task ha hexpired hclient =>
    obtain ⟨ping, last, heq, -⟩ := ApiClient.timerWaitTaskResultHandler_cases hclient
    rw [heq]
    exact { hc with }
  | replied i workers t e reply rows ha hw ht hop hclient =>
    obtain ⟨httpCode, data, handler, heq⟩ := ApiClient.deliver_cases (s.clients c) s.now reply
    rw [hclient, heq]
    exact hc

theorem terminated_step (hs : Terminated s) (h : s.step env a = some s') : Terminated s' := by
  refine ⟨hs.client h, ?_, ?_⟩
  · intro task htask
    rcases queue_step h htask with hold | ⟨req, rfl⟩ | ⟨-, client, hh⟩
    · exact hs.queue task hold
    · obtain ⟨-, ⟨hnone, -⟩ | ⟨r, client, tasks, -, hh, rfl⟩⟩ := System.readDone_cases
        (show s.readDone env task.client (some req) = some s' from h)
      · cases hnone
      rcases List.mem_append.mp htask with hold | hnew
      · exact hs.queue task hold
      · rw [(ApiClient.request_task hh hnew).2.2.2.2]
        exact request_terminated hh (hs.clients task.client)
    · obtain ⟨ping, last, -, heq⟩ := ApiClient.timerWaitTaskResultHandler_cases hh
      have hc := hs.clients task.client
      rw [heq]
      exact { hc with }
  · intro u hu
    rcases threads_step h hu with hold | ⟨task, htask, rfl⟩ | ⟨i, t, e, -, hw, htag, -⟩
    · exact hs.threads u hold
    · exact hs.queue task htask
    · rw [htag]
      exact hs.threads t (List.mem_of_getElem? (Pool.work_cases hw).1)

theorem terminated_of_run {ok : System → Action → Prop} (h : Run (System.step env) ok {} s) :
    Terminated s := by
  refine h.invariant ⟨fun _ => Params.terminated_default, by simp, by simp [Workers.init]⟩ ?_
  exact fun _ _ _ hs _ hstep => terminated_step hs hstep

end

/-! ## The room -/

/-- The names and the texts have no NUL. -/
structure Room.Terminated (r : Room) : Prop where
  account : ∀ name a, r.account name = some a → 0 ∉ name
  chat : ∀ id name, r.chat id = some name → 0 ∉ name
  posts : ∀ p ∈ r.posts, 0 ∉ p.text

section

variable {env : Extern} {task : Task} {r r' : Room} {answer : Answer}

theorem notMem_update {id : Nat} {name : Bytes} (hr : ∀ id name, r.chat id = some name → 0 ∉ name)
    (hname : 0 ∉ name) {c : Nat} {n : Bytes}
    (h : Function.update r.chat id (some name) c = some n) : 0 ∉ n := by
  by_cases hc : c = id
  · subst hc
    rw [Function.update_self] at h
    rw [← Option.some.inj h]
    exact hname
  · rw [Function.update_of_ne hc] at h
    exact hr c n h

theorem Change.terminated (h : Change env task r answer r') (ht : task.request.Terminated)
    (hr : r.Terminated) : r'.Terminated := by
  have hpost : ∀ p : Post, 0 ∉ p.text → Room.Terminated (r.publish p) := by
    intro p hp
    refine ⟨hr.account, hr.chat, ?_⟩
    intro q hq
    rcases List.mem_append.mp hq with hold | hnew
    · exact hr.posts q hold
    · rw [List.mem_singleton.mp hnew]
      exact hp
  cases h with
  | unchanged hans => exact hr
  | @registered a hcmd hname hchat =>
    refine ⟨?_, fun _ _ h => notMem_update hr.chat ht.user h, hr.posts⟩
    intro name b hb
    by_cases hsame : name = task.request.user
    · rw [hsame]
      exact ht.user
    · have hold : r.account name = some b := (Function.update_of_ne hsame _ _).symm.trans hb
      exact hr.account name b hold
  | opened hcmd hp hid =>
    exact ⟨hr.account, fun _ _ h => notMem_update hr.chat ht.chatName h, hr.posts⟩
  | admitted hcmd hp ha hc => exact ⟨hr.account, hr.chat, hr.posts⟩
  | sent hcmd hp ha => exact hpost _ ht.message
  | sentChat hcmd hp hc => exact hpost _ ht.message
  | touched hcmd =>
    refine ⟨?_, hr.chat, hr.posts⟩
    intro name b hb
    obtain ⟨a, ha, -⟩ := Option.map_eq_some_iff.mp hb
    exact hr.account name a ha

theorem serves_terminated {log : List (Entry Task Answer)}
    (h : Serves (Room.serve env) Room.empty log r)
    (hlog : ∀ en ∈ log, en.command.request.Terminated) : r.Terminated := by
  refine h.invariant (I := fun log r =>
    (∀ en ∈ log, en.command.request.Terminated) → r.Terminated) ?_ ?_ hlog
  · intro _
    constructor <;> simp [Room.empty]
  · intro log r en r' ih hserve hall
    obtain ⟨hold, hnew⟩ := List.forall_mem_append.mp hall
    exact (serve_change hserve).terminated (hnew en List.mem_cons_self) (ih hold)

end

/-! ## The store -/

/-- No name of a user or of a chat and no text of a message has a NUL. -/
structure StoresCStrings (s : Storage) : Prop where
  users : ∀ u ∈ s.users, 0 ∉ u.name
  chats : ∀ c ∈ s.chats, 0 ∉ c.name
  messages : ∀ msg ∈ s.messages, 0 ∉ msg.message

theorem storesCStrings_of_room {s : Storage} (hi : s.Integrity) (h : (room s).Terminated) :
    StoresCStrings s := by
  refine ⟨fun u hu => ?_, fun c hc => ?_, fun msg hmsg => ?_⟩
  · exact h.account u.name _ ((account_eq_some hi).mpr ⟨u, hu, rfl, rfl⟩)
  · exact h.chat c.id c.name ((chat_eq_some hi).mpr hc)
  · exact h.posts (post msg) (List.mem_map_of_mem hmsg)

theorem storesCStrings_of_run {env : Extern} {ok : System → Action → Prop} {s : System}
    (h : Run (System.step env) ok {} s) : StoresCStrings s.workers.state.storage := by
  obtain ⟨log, hp, hlog⟩ := exists_log (System.workers_run h)
  have hlin := linearization_of_log hp hlog
  refine storesCStrings_of_room (system_safe h).inv (serves_terminated hlin.serves ?_)
  intro en hen
  obtain ⟨t, ht, htag, -⟩ := hlin.started en hen
  rw [← htag]
  exact (terminated_of_run h).threads t (List.mem_of_getElem? ht)

namespace Sample

/-- A name that goes on after a NUL. -/
def cutName : Json :=
  .object [(bytes "user", .string (bytes "am" ++ 0 :: bytes "y")),
    (bytes "password", .string (bytes "password"))]

end Sample

/-- In every run, whatever the bodies of the requests are: no name of a user, no name of a chat
and no text of a message in the store has a NUL. -/
theorem stored_strings_terminated (env : Extern) (s : System)
    (h : Run (System.step env) anyStep {} s) : StoresCStrings s.workers.state.storage :=
  storesCStrings_of_run h

theorem stored_strings_terminated_cut : ∃ s,
    Run (System.step (.sample fun _ => some Sample.cutName)) anyStep {} s ∧
      s.workers.state.storage.users.map (·.name) = [bytes "am"] ∧
      StoresCStrings s.workers.state.storage := by
  have hlist : (runList (System.step (.sample fun _ => some Sample.cutName)) anyStep {}
      Sample.amyRegisters).any
      (fun s => s.workers.state.storage.users.map (·.name) = [bytes "am"]) = true := by
    decide +kernel
  obtain ⟨s, hrun, hs⟩ := exists_run hlist
  exact ⟨s, hrun, of_decide_eq_true hs, stored_strings_terminated _ s hrun⟩

end O2Chat.Server
