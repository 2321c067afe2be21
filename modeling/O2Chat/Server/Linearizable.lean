import O2Chat.Lib.Linearization
import O2Chat.Server.Room
import O2Chat.Server.WorkerRuns

/-!
# The workers are linearizable

Every command takes effect in one of its locked sections: the one that changes the
tables, or the lookup that decides the answer. `processTask_takes` follows each branch
of `processQueue` to this section and compares it with `Room.serve`. What an earlier
section has found out (the password of a user, a user's self chat, the name of a chat)
still holds there because rows are never deleted or renamed.
-/
namespace O2Chat.Server

open O2Chat.Common O2Chat.Db O2Chat.Lib.Interleaving O2Chat.Lib.Linearization O2Chat.Lib.Runs

def declined (code : Nat) (api : ApiStatusCode) (desc : String) : Answer :=
  .refused (.sendErrorResponse code api (bytes desc))

/-- The reply tells the answer; bodies also carry the time at which they were built. -/
def Answer.ConveyedBy : Answer → Reply → Prop
  | .refused r, reply => reply = r
  | .user name a, reply => ∃ now, reply = .sendOkResponse (okResponseBodyOfUser
      { id := a.id, selfChatId := a.selfChat, heartbit := a.heartbit, name } now)
  | .chat id name, reply => ∃ now, reply = .sendOkResponse (okResponseBodyOfChat { id, name } now)
  | .done, reply => reply = .sendOkResponse statusOk
  | .served, reply => ∃ msgs, reply = .sendMessages msgs ∨ reply = .sendMessagesToIdleConn msgs

/-- The first lookup of a task that comes with a user id. -/
def pointById (env : Extern) (task : Task) (user : User) : Option Answer :=
  if user.id = 0 then some (declined 409 .errConstraint "user does not exist")
  else if encryptedPass env task.request.password ≠ user.password then
    some (declined 403 .errConstraint "wrong password")
  else none

/-- The lookup of the user that a task names. -/
def pointByName (env : Extern) (task : Task) : List User → Option Answer
  | [] => some (declined 404 .errNotFound
      (if task.cmd = .messageSend then "user to does not exist" else "user does not exist"))
  | [user] => match task.cmd with
    | .userLogin =>
      if encryptedPass env task.request.password ≠ user.password then
        some (declined 403 .errConstraint "wrong password")
      else some (.user user.name (account user))
    | .userStatus => some (.user user.name (account user))
    | .userHistory => some .served
    | _ => none
  | _ => none

def pointByChat : List Chat → Option Answer
  | [_] => none
  | _ => some (declined 404 .errNotFound "chat does not exist")

def point (env : Extern) (task : Task) (before : List Event) : Event → Option Answer
  | ⟨_, .db (.lookupUserById _), user, _⟩ =>
    if before.isEmpty = true then pointById env task user else none
  | ⟨_, .db (.lookupUserByName _), users, _⟩ => pointByName env task users
  | ⟨_, .db (.lookupChatByName _), chats, _⟩ => pointByChat chats
  | ⟨_, .db (.createUser ..), user, _⟩ =>
    if user.id = 0 then some (declined 409 .errConstraint "user already exists")
    else some (.user user.name (account user))
  | ⟨_, .db (.createChat ..), chat, _⟩ =>
    if chat.id = 0 then some (declined 409 .errConstraint "chat already exists")
    else some (.chat chat.id chat.name)
  | ⟨_, .db (.addUserToChat ..), _, _⟩ => some .done
  | ⟨_, .db (.saveMessage _), _, _⟩ => some .done
  | ⟨_, .db (.updateUserHeartBit ..), _, _⟩ => some .served
  | _ => none

def isReply (o : Op) : Prop := ∃ reply rows, o = .reply reply rows

/-- The workers as an implementation of the room. -/
def roomObject (env : Extern) : Object Shared Task Op Op.Res Room Answer where
  abs s := room s.storage
  spec := Room.serve env
  point := point env
  visible := isReply
  agrees answer o := ∃ reply rows, o = .reply reply rows ∧ answer.ConveyedBy reply

/-- The history of a task that has taken effect with this answer, or not yet. -/
abbrev Took (env : Extern) (task : Task) (r : Option Answer) (h : List Event) : Prop :=
  Linear (roomObject env) task r h

/-- The program goes on to take effect once and ends after it. -/
abbrev Takes (env : Extern) (task : Task) (p : Work Unit) (h : List Event) (s : Shared) : Prop :=
  wp Op.exec Inv Ext (fun h => ∃ r, Took env task r h) p
    (fun _ h _ => ∃ answer, Took env task (some answer) h) h s

/-- It does so from a history that is in order. -/
def Goes (env : Extern) (task : Task) (p : Work Unit) (h : List Event) (s : Shared) : Prop :=
  (∃ r, Took env task r h) ∧ Takes env task p h s

section

variable {env : Extern} {task : Task} {h : List Event} {s : Shared}

/-! ## Points -/

theorem point_lookupUserByName {s₁ : Shared} {name : Bytes} {users : List User} :
    point env task h ⟨s, .db (.lookupUserByName name), users, s₁⟩ = pointByName env task users := rfl

theorem point_lookupChatByName {s₁ : Shared} {name : Bytes} {chats : List Chat} :
    point env task h ⟨s, .db (.lookupChatByName name), chats, s₁⟩ = pointByChat chats := rfl

theorem point_createUser {s₁ : Shared} {name pass stpath : Bytes} {user : User} (hid : user.id ≠ 0) :
    point env task h ⟨s, .db (.createUser name pass stpath), user, s₁⟩ =
      some (.user user.name (account user)) := if_neg hid

theorem point_createChat {s₁ : Shared} {name : Bytes} {uid : Nat} {chat : Chat} (hid : chat.id ≠ 0) :
    point env task h ⟨s, .db (.createChat name uid), chat, s₁⟩ =
      some (.chat chat.id chat.name) := if_neg hid

/-! ## Histories -/

theorem Took.start : Took env task none [] := Linear.start

theorem Took.read {r : Option Answer} {c : Call} {v : c.Result} (ht : Took env task r h)
    (hpoint : point env task h ⟨s, .db c, v, s⟩ = none) :
    Took env task r (⟨s, .db c, v, s⟩ :: h) :=
  .silent ht hpoint rfl (by rintro ⟨reply, rows, hop⟩; cases hop)

theorem Took.call {t : Shared} {answer : Answer} {c : Call} {v : c.Result}
    (ht : Took env task none h) (hpoint : point env task h ⟨s, .db c, v, t⟩ = some answer)
    (hserve : Room.serve env task (room s.storage) answer (room t.storage)) :
    Took env task (some answer) (⟨s, .db c, v, t⟩ :: h) :=
  .effect ht hpoint hserve (by rintro ⟨reply, rows, hop⟩; cases hop)

/-! ## Rules for the operations -/

theorem takes_read {c : Call} {k : c.Result → Work Unit} (hro : c.readOnly = true)
    (hk : ∀ s₁ r, Ext s s₁ → Inv s₁ → c.exec s₁.storage = some (s₁.storage, r) →
      Goes env task (k r) (⟨s₁, .db c, r, s₁⟩ :: h) s₁) :
    Takes env task (.op (.db c) k) h s := by
  intro s₁ hext hinv s₂ r hexec
  obtain ⟨⟨storage, r'⟩, hc, heq⟩ := Option.map_eq_some_iff.mp hexec
  have hsame := Call.exec_readOnly hro hc
  have hnosave : savedBy s₁.storage c = [] := by cases c <;> first | rfl | cases hro
  obtain ⟨rfl, rfl⟩ : s₁ = s₂ ∧ r' = r := by
    rw [Prod.mk.injEq] at heq
    refine ⟨?_, heq.2⟩
    rw [← heq.1, hnosave, hsame, List.append_nil]
  subst hsame
  obtain ⟨hr, hgo⟩ := hk s₁ r' hext hinv hc
  exact ⟨hinv, .refl _, hr, hgo⟩

theorem takes_time {k : Nat → Work Unit} {r : Option Answer} (ht : Took env task r h)
    (hk : ∀ s₁, Ext s s₁ → Inv s₁ → Took env task r (⟨s₁, .time, s₁.clock, s₁⟩ :: h) →
      Takes env task (k s₁.clock) (⟨s₁, .time, s₁.clock, s₁⟩ :: h) s₁) :
    Takes env task (.op .time k) h s := by
  intro s₁ hext hinv s₂ now hexec
  obtain ⟨rfl, rfl⟩ := Prod.mk.inj (Option.some.inj hexec)
  have ht' : Took env task r (⟨s₁, .time, s₁.clock, s₁⟩ :: h) :=
    .silent ht rfl rfl (by rintro ⟨reply, rows, hop⟩; cases hop)
  exact ⟨hinv, .refl _, ⟨r, ht'⟩, hk s₁ hext hinv ht'⟩

/-- A locked section that may write, with arguments that keep integrity. -/
theorem takes_call {c : Call} {k : c.Result → Work Unit}
    (hvalid : ∀ s₁, Ext s s₁ → Inv s₁ → c.Valid s₁.storage)
    (hk : ∀ (s₁ s₂ : Shared) r, Ext s s₁ → Ext s₁ s₂ → Inv s₁ → Inv s₂ →
      c.exec s₁.storage = some (s₂.storage, r) →
      Goes env task (k r) (⟨s₁, .db c, r, s₂⟩ :: h) s₂) :
    Takes env task (.op (.db c) k) h s := by
  intro s₁ hext hinv s₂ r hexec
  obtain ⟨⟨storage, r'⟩, hc, heq⟩ := Option.map_eq_some_iff.mp hexec
  obtain ⟨rfl, rfl⟩ := Prod.mk.inj heq
  have hinv' := Call.exec_integrity hinv (hvalid s₁ hext hinv) hc
  have hext' := Call.exec_extends hc
  exact ⟨hinv', hext', hk s₁ _ r' hext hext' hinv hinv' hc⟩

theorem takes_send {answer : Answer} {reply : Reply} {rows : List Message} {k : Unit → Work Unit}
    (ht : Took env task (some answer) h) (hconveyed : answer.ConveyedBy reply)
    (hk : k () = .pure ()) :
    Takes env task (.op (.reply reply rows) k) h s := by
  intro s₁ hext hinv s₂ r hexec
  obtain ⟨rfl, -⟩ := Prod.mk.inj (Option.some.inj hexec)
  have ht' : Took env task (some answer) (⟨s₁, .reply reply rows, r, s₁⟩ :: h) :=
    .shows ht rfl rfl ⟨reply, rows, rfl, hconveyed⟩
  refine ⟨hinv, .refl _, ⟨_, ht'⟩, ?_⟩
  rw [hk]
  exact ⟨answer, ht'⟩

/-- The time is read for the body of the reply. -/
theorem takes_time_send {answer : Answer} {reply : Nat → Reply}
    (ht : Took env task (some answer) h) (hconveyed : ∀ now, answer.ConveyedBy (reply now)) :
    Takes env task (.op .time fun now => .op (.reply (reply now) []) .pure) h s :=
  takes_time ht fun s₁ _ _ ht => takes_send ht (hconveyed s₁.clock) rfl

/-! ## The password of the user -/

/-- The credentials of the task are those of a stored user. -/
def Known (env : Extern) (task : Task) (s : Storage) : Prop :=
  ∃ u ∈ s.users, u.id = task.request.uid ∧ u.password = encryptedPass env task.request.password

theorem Known.mono {s s' : Storage} (hk : Known env task s) (hext : s.Extends s') :
    Known env task s' := by
  obtain ⟨u, hu, hid, hpass⟩ := hk
  obtain ⟨v, hv, hkey⟩ := hext.user hu
  obtain ⟨hvid, -, -, hvpass⟩ := User.of_key_eq hkey
  exact ⟨v, hv, hvid.trans hid, hvpass.trans hpass⟩

/-- Once known, the task stays authorized. -/
theorem Known.authorized {s : Storage} (hk : Known env task s) (hi : s.Integrity) {k : Service}
    {answer : Answer} {room' : Room} (hserve : k (room s) answer room') :
    Room.authorized env task k (room s) answer room' := by
  obtain ⟨u, hu, hid, hpass⟩ := hk
  refine Or.inr ⟨u.name, account u, (account_eq_some hi).mpr ⟨u, hu, rfl, rfl⟩, hid, ?_⟩
  rw [account_password, if_pos hpass]
  exact hserve

theorem takes_authenticated {k : User → Work Unit} {rest : Service}
    (hserve : Room.serve env task = Room.authorized env task rest)
    (hk : ∀ user h s₁, Inv s₁ → user ∈ s₁.storage.users → user.id = task.request.uid →
      Known env task s₁.storage → Took env task none h → h ≠ [] → Takes env task (k user) h s₁) :
    Takes env task ((lookupCheckPass env task).bind fun user =>
      if user.id = 0 then .pure () else k user) [] s := by
  unfold lookupCheckPass call send Prog.perform
  simp only [Prog.bind_eq, Prog.op_bind, Prog.pure_bind]
  refine takes_read rfl fun s₁ user hext hinv hexec => ?_
  obtain ⟨-, rfl⟩ := Prod.mk.inj (Option.some.inj hexec)
  have hpoint : point env task [] ⟨s₁, .db (.lookupUserById task.request.uid),
      s₁.storage.lookupUserById task.request.uid, s₁⟩ =
      pointById env task (s₁.storage.lookupUserById task.request.uid) := rfl
  by_cases hid : (s₁.storage.lookupUserById task.request.uid).id = 0
  · -- nobody has this id
    have hnone : ¬ (room s₁.storage).HasUser task.request.uid := by
      rw [hasUser_iff hinv]
      rintro ⟨u, hu, heq⟩
      have hpos := (hinv.userId_pos hu).1
      rw [← heq, hinv.lookupUserById_eq hu] at hid
      omega
    have ht := Took.start.call
      (hpoint.trans (if_pos hid)) (by rw [hserve]; exact Or.inl ⟨hnone, rfl, rfl⟩)
    refine ⟨⟨_, ht⟩, ?_⟩
    rw [if_pos hid]
    exact takes_send ht rfl rfl
  obtain ⟨hmem, huid⟩ := Storage.mem_of_lookupUserById hid
  by_cases hpass : encryptedPass env task.request.password =
      (s₁.storage.lookupUserById task.request.uid).password
  · have ht := Took.start.read
      (hpoint.trans (by simp [pointById, hid, hpass]))
    refine ⟨⟨_, ht⟩, ?_⟩
    rw [if_neg hid, if_neg (not_not.mpr hpass), Prog.pure_eq, Prog.pure_bind, if_neg hid]
    exact hk _ _ s₁ hinv hmem huid ⟨_, hmem, huid, hpass.symm⟩ ht (by simp)
  · have hrefused : pointById env task (s₁.storage.lookupUserById task.request.uid) =
        some (declined 403 .errConstraint "wrong password") := by simp [pointById, hid, hpass]
    have ht := Took.start.call (hpoint.trans hrefused) (by
      rw [hserve]
      refine Or.inr ⟨_, _, (account_eq_some hinv).mpr ⟨_, hmem, rfl, rfl⟩, huid, ?_⟩
      rw [account_password, if_neg (Ne.symm hpass)]
      exact ⟨rfl, rfl⟩)
    refine ⟨⟨_, ht⟩, ?_⟩
    rw [if_neg hid, if_pos hpass]
    exact takes_send ht rfl rfl

/-! ## Names -/

theorem found_none {name : Bytes} {missing : String} {k : Account → Service} {storage : Storage}
    (hnone : (room storage).account name = none) : Room.found name missing k (room storage)
      (declined 404 .errNotFound missing) (room storage) := by
  simp only [Room.found, hnone]
  exact ⟨rfl, rfl⟩

theorem found_user {name : Bytes} {missing : String} {k : Account → Service} {storage : Storage}
    {user : User} {answer : Answer} {room' : Room} (hi : storage.Integrity)
    (hu : user ∈ storage.users) (hname : user.name = name)
    (hk : k (account user) (room storage) answer room') :
    Room.found name missing k (room storage) answer room' := by
  simp only [Room.found, (account_eq_some hi).mpr ⟨user, hu, hname, rfl⟩]
  exact hk

/-- A name finds nobody or one user. -/
theorem takes_lookupUserByName {name : Bytes} {k : List User → Work Unit}
    (hnone : ∀ s₁, Ext s s₁ → Inv s₁ → (room s₁.storage).account name = none →
      Goes env task (k []) (⟨s₁, .db (.lookupUserByName name), [], s₁⟩ :: h) s₁)
    (hone : ∀ s₁ user, Ext s s₁ → Inv s₁ → user ∈ s₁.storage.users → user.name = name →
      Goes env task (k [user]) (⟨s₁, .db (.lookupUserByName name), [user], s₁⟩ :: h) s₁) :
    Takes env task (.op (.db (.lookupUserByName name)) k) h s := by
  refine takes_read rfl fun s₁ users hext hinv hexec => ?_
  obtain ⟨-, hfound⟩ := Prod.mk.inj (Option.some.inj hexec)
  subst hfound
  by_cases hany : ∃ u ∈ s₁.storage.users, u.name = name
  · obtain ⟨u, hu, rfl⟩ := hany
    rw [hinv.lookupUserByName_eq hu]
    exact hone s₁ u hext hinv hu rfl
  · have hempty : s₁.storage.lookupUserByName name = [] := by
      rw [Storage.lookupUserByName, List.filter_eq_nil_iff]
      intro u hu heq
      exact hany ⟨u, hu, by simpa using heq⟩
    rw [hempty]
    exact hnone s₁ hext hinv (account_eq_none.mpr fun u hu heq => hany ⟨u, hu, heq⟩)

/-- The lookup of a second user by name. -/
theorem takes_found {name : Bytes} {k : User → Work Unit} {rest : Account → Service}
    (hcmd : task.cmd ≠ .messageSend)
    (hserve : Room.serve env task =
      Room.authorized env task (Room.found name "user does not exist" rest))
    (hk : ∀ user s₁, Ext s s₁ → Inv s₁ → user ∈ s₁.storage.users → user.name = name →
      Goes env task (k user) (⟨s₁, .db (.lookupUserByName name), [user], s₁⟩ :: h) s₁)
    (hknown : Known env task s.storage) (ht : Took env task none h) :
    Takes env task ((lookupCheckPassByName env name task false).bind fun user =>
      if user.id = 0 then .pure () else k user) h s := by
  unfold lookupCheckPassByName call send Prog.perform
  simp only [Prog.bind_eq, Prog.op_bind, Prog.pure_bind]
  refine takes_lookupUserByName (fun s₁ hext hinv hnone => ?_) fun s₁ user hext hinv hu hname => ?_
  · have hpoint : point env task h ⟨s₁, .db (.lookupUserByName name), [], s₁⟩ =
        some (declined 404 .errNotFound "user does not exist") := by
      simp [point_lookupUserByName, pointByName, hcmd]
    have ht := ht.call hpoint (by
      rw [hserve]
      exact (hknown.mono hext).authorized hinv (found_none hnone))
    exact ⟨⟨_, ht⟩, takes_send ht rfl rfl⟩
  · have hid : user.id ≠ 0 := by have := (hinv.userId_pos hu).1; omega
    simpa [hid] using hk user s₁ hext hinv hu hname

/-- The lookup of a chat by name. -/
theorem takes_withChat {k : Chat → Work Unit}
    (hserve : ∀ s₁, Ext s s₁ → Inv s₁ →
      (¬ ∃! id, (room s₁.storage).chat id = some task.request.chatName) →
      Room.serve env task (room s₁.storage) (declined 404 .errNotFound "chat does not exist")
        (room s₁.storage))
    (hk : ∀ chat e s₁, Ext s s₁ → Inv s₁ → chat ∈ s₁.storage.chats →
      chat.name = task.request.chatName → Took env task none (e :: h) →
      Takes env task (k chat) (e :: h) s₁)
    (ht : Took env task none h) : Takes env task (withChat task k) h s := by
  unfold withChat call send Prog.perform
  simp only [Prog.bind_eq, Prog.op_bind, Prog.pure_bind]
  refine takes_read rfl fun s₁ chats hext hinv hexec => ?_
  obtain ⟨-, hfound⟩ := Prod.mk.inj (Option.some.inj hexec)
  split
  · rename_i chat
    obtain ⟨hmem, hname⟩ := Storage.mem_lookupChatByName (hfound ▸ List.mem_singleton.mpr rfl)
    have ht := ht.read (s := s₁) (c := .lookupChatByName task.request.chatName) (v := [chat]) rfl
    exact ⟨⟨_, ht⟩, hk chat _ s₁ hext hinv hmem hname ht⟩
  · rename_i hnot
    have hunique : ¬ ∃! id, (room s₁.storage).chat id = some task.request.chatName := by
      intro hone
      obtain ⟨id, hlookup⟩ := lookupChatByName_eq hinv hone
      exact hnot _ (hfound.symm.trans hlookup)
    have hpoint : point env task h ⟨s₁, .db (.lookupChatByName task.request.chatName), chats, s₁⟩ =
        some (declined 404 .errNotFound "chat does not exist") := by
      rw [point_lookupChatByName]
      unfold pointByChat
      split
      · exact absurd rfl (hnot _)
      · rfl
    have ht := ht.call hpoint (hserve s₁ hext hinv hunique)
    exact ⟨⟨_, ht⟩, takes_send ht rfl rfl⟩

/-! ## Operations without effect -/

/-- What a task asks for after it has taken effect. -/
def Silent : Op → Prop
  | .db (.lookupUserById _) | .db (.lookupChatById _) | .db (.chatIdsForUserId _)
  | .db (.getMessages ..) | .db (.selectMessages ..) | .time => True
  | _ => False

theorem Silent.exec (env : Extern) (task : Task) (h : List Event) {o : Op} (ho : Silent o)
    {s s' : Shared} {r : o.Res} (hi : Inv s) (he : o.exec s = some (s', r)) : Inv s' ∧ room s'.storage = room s.storage ∧
      (h ≠ [] → point env task h ⟨s, o, r, s'⟩ = none) ∧ ¬ isReply o := by
  have hreply : ¬ isReply o := by
    rintro ⟨reply, rows, rfl⟩
    exact ho
  cases o with
  | reply => exact absurd ho id
  | time =>
    obtain ⟨rfl, -⟩ := Prod.mk.inj (Option.some.inj he)
    exact ⟨hi, rfl, fun _ => rfl, hreply⟩
  | db c =>
    obtain ⟨done, hc, heq⟩ := Option.map_eq_some_iff.mp he
    obtain ⟨rfl, -⟩ := Prod.mk.inj heq
    have hvalid : c.Valid s.storage := by
      cases c <;> trivial
    refine ⟨Call.exec_integrity hi hvalid hc, ?_, fun hne => ?_, hreply⟩
    · cases c with
      | getMessages chatid opt => exact room_getMessages hc
      | lookupUserById | lookupChatById | chatIdsForUserId | selectMessages =>
        exact congrArg room (Call.exec_readOnly rfl hc)
      | _ => exact absurd ho id
    · cases c with
      | lookupUserById id =>
        obtain ⟨e, rest, rfl⟩ := List.exists_cons_of_ne_nil hne
        rfl
      | lookupChatById | chatIdsForUserId | getMessages | selectMessages => rfl
      | _ => exact absurd ho id

theorem takes_silent {α : Type} {p : Work α} {f : α → Work Unit} {r : Option Answer}
    (hp : p.All Silent) (ht : Took env task r h) (hne : h ≠ [])
    (hk : ∀ a h s, Took env task r h → h ≠ [] → Takes env task (f a) h s) :
    Takes env task (p.bind f) h s := by
  induction p generalizing h s with
  | pure a => exact hk a h s ht hne
  | op o k ih =>
    intro s₁ hext hinv s₂ res hexec
    obtain ⟨hinv', hroom, hpoint, hreply⟩ := Silent.exec env task h hp.1 hinv hexec
    have ht' : Took env task r (⟨s₁, o, res, s₂⟩ :: h) := .silent ht (hpoint hne) hroom hreply
    exact ⟨hinv', Op.exec_extends hexec, ⟨r, ht'⟩, ih res (hp.2 res) ht' (by simp)⟩

theorem silent_call {c : Call} (hc : Silent (.db c)) : (call c).All Silent := all_call hc

theorem silent_toApiFormat (msgs : List Message) : (toApiFormat msgs).All Silent := by
  refine Prog.All.traverse (fun msg => ?_) msgs
  refine (silent_call (c := .lookupChatById msg.chatTo) trivial).bind fun chat => ?_
  exact (silent_call (c := .lookupUserById msg.userFrom) trivial).bind fun user => trivial

theorem silent_lookupChatsForUserId (uid : Nat) : (lookupChatsForUserId uid).All Silent := by
  refine (silent_call (c := .chatIdsForUserId uid) trivial).bind fun ids => ?_
  exact Prog.All.traverse (fun chatid => silent_call (c := .lookupChatById chatid) trivial) ids

/-! ## The branches -/

theorem takes_processUserLogin (hcmd : task.cmd = .userLogin) :
    Takes env task (processUserLogin env task) [] s := by
  have hserve : Room.serve env task = Room.serveUserLogin env task := by
    simp only [Room.serve, hcmd]
  unfold processUserLogin lookupCheckPassByName call send time Prog.perform
  simp only [Prog.bind_eq, Prog.op_bind, Prog.pure_bind]
  refine takes_lookupUserByName (fun s₁ _ _ hnone => ?_) fun s₁ user _ hinv hu hname => ?_
  · have hpoint : point env task [] ⟨s₁, .db (.lookupUserByName task.request.user), [], s₁⟩ =
        some (declined 404 .errNotFound "user does not exist") := by
      simp [point_lookupUserByName, pointByName, hcmd]
    have ht := Took.start.call hpoint (by rw [hserve]; exact found_none hnone)
    exact ⟨⟨_, ht⟩, takes_send ht rfl rfl⟩
  have hid : user.id ≠ 0 := by have := (hinv.userId_pos hu).1; omega
  by_cases hpass : encryptedPass env task.request.password = user.password
  · have hpoint : point env task [] ⟨s₁, .db (.lookupUserByName task.request.user), [user], s₁⟩ =
        some (.user task.request.user (account user)) := by
      simp [point_lookupUserByName, pointByName, hcmd, hpass, hname]
    have ht := Took.start.call hpoint (by
      rw [hserve]
      refine found_user hinv hu hname ?_
      rw [account_password, if_pos hpass.symm]
      exact ⟨rfl, rfl⟩)
    refine ⟨⟨_, ht⟩, ?_⟩
    simp only [hpass, ne_eq, not_true_eq_false, and_false, if_false, hid, Prog.pure_eq,
      Prog.pure_bind]
    exact takes_time_send ht fun now => ⟨now, by rw [← hname]; rfl⟩
  · have hpoint : point env task [] ⟨s₁, .db (.lookupUserByName task.request.user), [user], s₁⟩ =
        some (declined 403 .errConstraint "wrong password") := by
      simp [point_lookupUserByName, pointByName, hcmd, hpass]
    have ht := Took.start.call hpoint (by
      rw [hserve]
      refine found_user hinv hu hname ?_
      rw [account_password, if_neg (Ne.symm hpass)]
      exact ⟨rfl, rfl⟩)
    refine ⟨⟨_, ht⟩, ?_⟩
    simp only [hpass, ne_eq, not_false_eq_true, and_self, if_true]
    exact takes_send ht rfl rfl

theorem takes_processUserStatus (hcmd : task.cmd = .userStatus) :
    Takes env task (processUserStatus env task) [] s := by
  have hserve : Room.serve env task = Room.serveUserStatus env task := by
    simp only [Room.serve, hcmd]
  refine takes_authenticated hserve fun user h s _ _ _ hknown ht _ => ?_
  refine takes_found (by simp [hcmd]) hserve (fun userTo s₁ hext hinv hu hname => ?_) hknown ht
  have hpoint : point env task h ⟨s₁, .db (.lookupUserByName task.request.user), [userTo], s₁⟩ =
      some (.user task.request.user (account userTo)) := by
    simp [point_lookupUserByName, pointByName, hcmd, hname]
  have ht := ht.call hpoint (by
    rw [hserve]
    exact (hknown.mono hext).authorized hinv (found_user hinv hu hname ⟨rfl, rfl⟩))
  exact ⟨⟨_, ht⟩, takes_time_send ht fun now => ⟨now, by rw [← hname]; rfl⟩⟩

theorem takes_processUserHistory (hcmd : task.cmd = .userHistory) :
    Takes env task (processUserHistory env task) [] s := by
  have hserve : Room.serve env task = Room.serveUserHistory env task := by
    simp only [Room.serve, hcmd]
  refine takes_authenticated hserve fun user h s _ _ _ hknown ht _ => ?_
  refine takes_found (by simp [hcmd]) hserve (fun userTo s₁ hext hinv hu hname => ?_) hknown ht
  have hpoint : point env task h ⟨s₁, .db (.lookupUserByName task.request.user), [userTo], s₁⟩ =
      some .served := by
    simp [point_lookupUserByName, pointByName, hcmd]
  have ht := ht.call hpoint (by
    rw [hserve]
    exact (hknown.mono hext).authorized hinv (found_user hinv hu hname ⟨rfl, rfl⟩))
  refine ⟨⟨_, ht⟩, ?_⟩
  -- both scans and the names come after
  refine takes_silent (silent_call trivial) ht (by simp) fun msgsTo h s ht hne => ?_
  refine takes_silent (silent_call trivial) ht hne fun msgsFrom h s ht hne => ?_
  refine takes_silent (silent_toApiFormat _) ht hne fun apiMsgs h s ht _ => ?_
  exact takes_send ht ⟨apiMsgs, Or.inl rfl⟩ rfl

theorem takes_processUserCreate (hcmd : task.cmd = .userCreate) :
    Takes env task (processUserCreate env task) [] s := by
  have hserve : Room.serve env task = Room.serveUserCreate env task := by
    simp only [Room.serve, hcmd]
  unfold processUserCreate call send time Prog.perform
  simp only [Prog.bind_eq, Prog.op_bind, Prog.pure_bind]
  refine takes_call (fun _ _ _ => trivial) fun s₁ s₂ user _ _ hinv hinv' hexec => ?_
  rcases Storage.createUser_cases hexec with ⟨⟨v, hv, hname⟩, hsame, rfl⟩ | ⟨hnew, -, -, huser, -⟩
  · -- the name is taken
    have ht := (@Took.start env task).call (s := s₁) (t := s₂)
      (c := .createUser task.request.user (encryptedPass env task.request.password) task.storage)
      (v := ({} : User)) rfl (by
        rw [hserve, hsame]
        simp only [Room.serveUserCreate, (account_eq_some hinv).mpr ⟨v, hv, hname, rfl⟩]
        exact ⟨rfl, rfl⟩)
    exact ⟨⟨_, ht⟩, takes_send ht rfl rfl⟩
  · have hid : user.id ≠ 0 := by simp [huser, hinv.userCounter]
    have hpoint : point env task [] ⟨s₁, .db (.createUser task.request.user
        (encryptedPass env task.request.password) task.storage), user, s₂⟩ =
        some (.user task.request.user (account user)) := by
      rw [point_createUser hid]
      rw [huser]
    have ht := Took.start.call hpoint (by
      rw [hserve]
      simp only [Room.serveUserCreate, account_eq_none.mpr hnew]
      refine ⟨account user, hid, ?_, ?_, ?_, ?_, ?_, rfl,
        room_createUser hinv hexec hinv' hnew⟩
      · simp [huser, hinv.chatCounter]
      · rw [huser]
        rfl
      · rw [huser]
        rfl
      · rw [hasUser_iff hinv]
        rintro ⟨v, hv, heq⟩
        have hlt := (hinv.userId_pos hv).2
        rw [heq, account_id, huser] at hlt
        exact Nat.lt_irrefl _ hlt
      · rw [chat_eq_none]
        intro c hc heq
        have hlt := (hinv.chatId_pos hc).2
        rw [heq, account_selfChat, huser] at hlt
        exact Nat.lt_irrefl _ hlt)
    refine ⟨⟨_, ht⟩, ?_⟩
    rw [if_neg hid]
    exact takes_time_send ht fun now => ⟨now, by rw [huser]; rfl⟩

theorem takes_processChatCreate (hcmd : task.cmd = .chatCreate) :
    Takes env task (processChatCreate env task) [] s := by
  have hserve : Room.serve env task = Room.serveChatCreate env task := by
    simp only [Room.serve, hcmd]
  refine takes_authenticated hserve fun user h s hinv hmem huid hknown ht _ => ?_
  have hpos : 0 < task.request.uid := by
    have := (hinv.userId_pos hmem).1
    omega
  unfold call send time Prog.perform
  simp only [Prog.bind_eq, Prog.op_bind, Prog.pure_bind]
  refine takes_call ?_ fun s₁ s₂ chat hext _ hinv hinv' hexec => ?_
  · intro s₁ hext _ _
    obtain ⟨v, hv, hid, -⟩ := hknown.mono hext
    rw [← hid]
    exact List.mem_map_of_mem hv
  have hknown := hknown.mono hext
  rcases Storage.createChat_cases hexec with ⟨⟨d, hd, hname⟩, hsame, rfl⟩ | ⟨hnew, -, hchat, -⟩
  · have ht := ht.call (s := s₁) (t := s₂)
      (c := .createChat task.request.chatName task.request.uid) (v := ({} : Chat)) rfl (by
        rw [hserve, hsame]
        refine hknown.authorized hinv (Or.inl ⟨⟨d.id, ?_⟩, rfl, rfl⟩)
        rw [← hname]
        exact (chat_eq_some hinv).mpr hd)
    exact ⟨⟨_, ht⟩, takes_send ht rfl rfl⟩
  · have hid : chat.id ≠ 0 := by simp [hchat, hinv.chatCounter]
    have hpoint : point env task h ⟨s₁, .db (.createChat task.request.chatName task.request.uid),
        chat, s₂⟩ = some (.chat chat.id task.request.chatName) := by
      rw [point_createChat hid]
      rw [hchat]
    have ht := ht.call hpoint (by
      rw [hserve]
      refine hknown.authorized hinv (Or.inr ⟨?_, chat.id, hid, ?_, rfl,
        room_createChat hinv hexec hinv' hpos hnew⟩)
      · intro id hsome
        exact hnew _ ((chat_eq_some hinv).mp hsome) rfl
      · rw [chat_eq_none]
        intro c hc heq
        have hlt := (hinv.chatId_pos hc).2
        rw [heq, hchat] at hlt
        exact Nat.lt_irrefl _ hlt)
    refine ⟨⟨_, ht⟩, ?_⟩
    rw [if_neg hid]
    exact takes_time_send ht fun now => ⟨now, by rw [hchat]⟩

theorem takes_processMessageSend (hcmd : task.cmd = .messageSend) :
    Takes env task (processMessageSend env task) [] s := by
  have hserve : Room.serve env task = Room.serveMessageSend env task := by
    simp only [Room.serve, hcmd]
  refine takes_authenticated hserve fun user h s hinv hmem huid hknown ht _ => ?_
  have hstored : StoredUser s.storage user := ⟨user, hmem, rfl⟩
  unfold call send time Prog.perform
  simp only [Prog.bind_eq, Prog.op_bind, Prog.pure_bind]
  refine takes_lookupUserByName (fun s₁ hext hinv hnone => ?_) fun s₁ userTo hext _ hu hname => ?_
  · have hpoint : point env task h ⟨s₁, .db (.lookupUserByName task.request.toUser), [], s₁⟩ =
        some (declined 404 .errNotFound "user to does not exist") := by
      simp [point_lookupUserByName, pointByName, hcmd]
    have ht := ht.call hpoint (by
      rw [hserve]
      exact (hknown.mono hext).authorized hinv (found_none hnone))
    exact ⟨⟨_, ht⟩, takes_send ht rfl rfl⟩
  have ht := ht.read (s := s₁) (c := .lookupUserByName task.request.toUser) (v := [userTo])
    (by simp [point_lookupUserByName, pointByName, hcmd])
  have hto : StoredUser s₁.storage userTo := ⟨userTo, hu, rfl⟩
  refine ⟨⟨_, ht⟩, takes_time ht fun s₂ hext₂ _ ht => ?_⟩
  refine takes_call (fun s₃ hext₃ hinv₃ => ?_) fun s₃ s₄ r hext₃ _ hinv₃ _ hexec => ?_
  · exact ⟨(((hstored.mono hext).mono hext₂).mono hext₃).mem_userIds,
      (((hto.mono hext₂).mono hext₃).self hinv₃).1⟩
  -- the self chat that was looked up is still the one of that name
  obtain ⟨v, hv, hkey⟩ := (hto.mono hext₂).mono hext₃
  obtain ⟨-, hself, hvname, -⟩ := User.of_key_eq hkey
  obtain ⟨storage, hsaved, heq⟩ := Option.map_eq_some_iff.mp hexec
  obtain ⟨rfl, -⟩ := Prod.mk.inj heq
  have ht := ht.call (t := s₄) (v := r) rfl (by
    rw [hserve]
    refine (((hknown.mono hext).mono hext₂).mono hext₃).authorized hinv₃
      (found_user hinv₃ hv (hvname.trans hname) ⟨s₂.clock, rfl, ?_⟩)
    rw [room_saveMessage hsaved, account_selfChat, hself, ← huid]
    rfl)
  exact ⟨⟨_, ht⟩, takes_send ht rfl rfl⟩

theorem takes_processMessageSendChat (hcmd : task.cmd = .messageSendChat) :
    Takes env task (processMessageSendChat env task) [] s := by
  have hserve : Room.serve env task = Room.serveMessageSendChat env task := by
    simp only [Room.serve, hcmd]
  refine takes_authenticated hserve fun user h s hinv hmem huid hknown ht _ => ?_
  have hstored : StoredUser s.storage user := ⟨user, hmem, rfl⟩
  refine takes_withChat (fun s₁ hext hinv hnone => ?_) (fun chat e s₁ hext _ hchat hname ht => ?_) ht
  · rw [hserve]
    exact (hknown.mono hext).authorized hinv (Or.inl ⟨hnone, rfl, rfl⟩)
  refine takes_time ht fun s₂ hext₂ _ ht => ?_
  refine takes_call (fun s₃ hext₃ hinv₃ => ?_) fun s₃ s₄ r hext₃ _ hinv₃ _ hexec => ?_
  · exact ⟨(((hstored.mono hext).mono hext₂).mono hext₃).mem_userIds,
      List.mem_map_of_mem (hext₃.chats.subset (hext₂.chats.subset hchat))⟩
  obtain ⟨storage, hsaved, heq⟩ := Option.map_eq_some_iff.mp hexec
  obtain ⟨rfl, -⟩ := Prod.mk.inj heq
  have ht := ht.call (t := s₄) (v := r) rfl (by
    rw [hserve]
    refine (((hknown.mono hext).mono hext₂).mono hext₃).authorized hinv₃
      (Or.inr ⟨chat.id, ?_, s₂.clock, rfl, ?_⟩)
    · rw [← hname]
      exact (chat_eq_some hinv₃).mpr (hext₃.chats.subset (hext₂.chats.subset hchat))
    · rw [room_saveMessage hsaved, ← huid]
      rfl)
  exact ⟨⟨_, ht⟩, takes_send ht rfl rfl⟩

theorem takes_processChatAdduser (hcmd : task.cmd = .chatAdduser) :
    Takes env task (processChatAdduser env task) [] s := by
  have hserve : Room.serve env task = Room.serveChatAdduser env task := by
    simp only [Room.serve, hcmd]
  refine takes_authenticated hserve fun user h s _ _ _ hknown ht _ => ?_
  refine takes_found (by simp [hcmd]) hserve (fun toAdd s₁ hext₁ hinv₁ hu hname => ?_) hknown ht
  have ht := ht.read (s := s₁) (c := .lookupUserByName task.request.chatAdduser) (v := [toAdd])
    (by simp [point_lookupUserByName, pointByName, hcmd])
  have hknown := hknown.mono hext₁
  refine ⟨⟨_, ht⟩, takes_withChat (fun s₂ hext₂ hinv₂ hnone => ?_)
    (fun chat e s₂ hext₂ _ hchat hcname ht => ?_) ht⟩
  · obtain ⟨v, hv, hkey⟩ := StoredUser.mono ⟨toAdd, hu, rfl⟩ hext₂
    obtain ⟨-, -, hvname, -⟩ := User.of_key_eq hkey
    rw [hserve]
    exact (hknown.mono hext₂).authorized hinv₂
      (found_user hinv₂ hv (hvname.trans hname) (Or.inl ⟨hnone, rfl, rfl⟩))
  have hstored : StoredUser s₂.storage toAdd := StoredUser.mono ⟨toAdd, hu, rfl⟩ hext₂
  unfold call send Prog.perform
  simp only [Prog.bind_eq, Prog.op_bind, Prog.pure_bind]
  refine takes_call (fun s₃ hext₃ _ => ?_) fun s₃ s₄ r hext₃ _ hinv₃ _ hexec => ?_
  · exact ⟨List.mem_map_of_mem (hext₃.chats.subset hchat), (hstored.mono hext₃).mem_userIds⟩
  obtain ⟨v, hv, hkey⟩ := hstored.mono hext₃
  obtain ⟨hvid, -, hvname, -⟩ := User.of_key_eq hkey
  obtain ⟨storage, hadded, heq⟩ := Option.map_eq_some_iff.mp hexec
  obtain ⟨rfl, -⟩ := Prod.mk.inj heq
  have ht := ht.call (t := s₄) (v := r) rfl (by
    rw [hserve]
    refine ((hknown.mono hext₂).mono hext₃).authorized hinv₃
      (found_user hinv₃ hv (hvname.trans hname) (Or.inr ⟨chat.id, ?_, rfl, ?_⟩))
    · rw [← hcname]
      exact (chat_eq_some hinv₃).mpr (hext₃.chats.subset hchat)
    · rw [room_addUserToChat hadded, account_id, hvid])
  exact ⟨⟨_, ht⟩, takes_send ht rfl rfl⟩

theorem takes_processIdle (hcmd : task.cmd = .idle) :
    Takes env task (processIdle env task) [] s := by
  have hserve : Room.serve env task = Room.serveIdle env task := by
    simp only [Room.serve, hcmd]
  refine takes_authenticated hserve fun user h s _ _ huid hknown ht _ => ?_
  refine takes_time ht fun s₁ hext₁ _ ht => ?_
  refine takes_call (fun _ _ _ => trivial) fun s₂ s₃ r hext₂ _ hinv₂ hinv₃ hexec => ?_
  obtain ⟨hstorage, -⟩ := Prod.mk.inj (Option.some.inj hexec)
  have ht := ht.call (t := s₃) (v := r) rfl (by
    rw [hserve]
    refine ((hknown.mono hext₁).mono hext₂).authorized hinv₂ ⟨s₁.clock, rfl, ?_⟩
    rw [← hstorage, room_updateUserHeartBit hinv₂ user s₁.clock (hstorage ▸ hinv₃), huid])
  refine ⟨⟨_, ht⟩, ?_⟩
  rw [Prog.pure_bind]
  -- the chats and their messages come after
  refine takes_silent (silent_lookupChatsForUserId _) ht (by simp) fun chats h s ht hne => ?_
  have hbatch : (Prog.traverse (fun chat : Chat =>
      call (.getMessages chat.id { ts := task.request.ts })) chats).All Silent :=
    Prog.All.traverse (fun chat => silent_call (c := .getMessages chat.id _) trivial) chats
  refine takes_silent hbatch ht hne fun batch h s ht hne => ?_
  dsimp only
  split
  · refine takes_silent (silent_toApiFormat _) ht hne fun apiMsgs h s ht _ => ?_
    exact takes_send ht ⟨apiMsgs, Or.inr rfl⟩ rfl
  · split
    · exact takes_send ht ⟨[], Or.inr rfl⟩ rfl
    · exact ⟨_, ht⟩

/-- The commands that `processQueue` knows. -/
def processed : Cmd → Bool
  | .chatHistory | .chatStatus | .messageRecent | .cmdLast => false
  | _ => true

/-- A finished task has taken effect. -/
def Effective (env : Extern) (task : Task) (h : List Event) : Prop :=
  processed task.cmd = true → ∃ answer, Took env task (some answer) h

theorem processTask_takes (env : Extern) (task : Task) (s : Shared) :
    Owes Op.exec Inv Ext (fun task h => ∃ r, Took env task r h) (Effective env) task
      (processTask env task) [] s := by
  have hend : ∀ p : Work Unit, Takes env task p [] s →
      wp Op.exec Inv Ext (fun h => ∃ r, Took env task r h) p
        (fun _ h _ => Effective env task h) [] s :=
    fun p hp => wp_mono (fun _ _ _ hq _ => hq) hp
  unfold Owes processTask
  split <;> rename_i hcmd
  · exact hend _ (takes_processIdle hcmd)
  · exact hend _ (takes_processUserStatus hcmd)
  · exact hend _ (takes_processUserHistory hcmd)
  · exact hend _ (takes_processMessageSend hcmd)
  · exact hend _ (takes_processUserCreate hcmd)
  · exact hend _ (takes_processUserLogin hcmd)
  · exact hend _ (takes_processChatCreate hcmd)
  · exact hend _ (takes_processChatAdduser hcmd)
  · exact hend _ (takes_processMessageSendChat hcmd)
  all_goals exact fun hp => by simp [hcmd, processed] at hp

end

/-! ## Runs -/

/-- The log explains the workers by the room, starting with the empty one. -/
abbrev Log (env : Extern) (p : Workers) (log : List (Entry Task Answer)) : Prop :=
  Explains (roomObject env) Room.empty p log

abbrev Workers.Takes (env : Extern) (p : Workers) : Prop :=
  Pool.Safe Op.exec Inv Ext (fun task h => ∃ r, Took env task r h) (Effective env) p

section

variable {env : Extern} {p p' : Workers}

theorem log_init (env : Extern) : Log env Workers.init [] :=
  ⟨by
    have hroom : (roomObject env).abs Workers.init.state = Room.empty := room_init
    rw [hroom]
    exact .nil, by simp, by simp [Workers.init]⟩

/-- A step extends the log. -/
theorem log_step {log : List (Entry Task Answer)} (hp : p.Takes env) (hlog : Log env p log)
    {a : WorkerAction} (hs : p.step env a = some p') :
    p'.Takes env ∧ ∃ ext, Log env p' (log ++ ext) := by
  cases a with
  | take task =>
    obtain rfl := Option.some.inj hs
    exact ⟨hp.spawn ⟨none, Took.start⟩ fun s _ => processTask_takes env task s, [],
      by simpa using hlog.spawn task _⟩
  | work i =>
    obtain ⟨⟨q, t, e⟩, hw, rfl⟩ := Option.map_eq_some_iff.mp hs
    obtain ⟨hsafe, -, hlinear⟩ := hp.work (fun _ => .refl _) @ext_trans hw
    obtain ⟨ext, hext, -⟩ := hlog.work hw hlinear
    exact ⟨hsafe, ext, hext⟩
  | clock now =>
    obtain rfl := Option.some.inj hs
    exact ⟨hp.extend @ext_trans (.refl _) hp.inv, [], by rw [List.append_nil]; exact hlog.extend rfl⟩

theorem log_run {ok : Workers → WorkerAction → Prop} {log : List (Entry Task Answer)}
    (hp : p.Takes env) (hlog : Log env p log) (h : Run (Workers.step env) ok p p') :
    p'.Takes env ∧ ∃ ext, Log env p' (log ++ ext) := by
  refine h.invariant (I := fun p' => p'.Takes env ∧ ∃ ext, Log env p' (log ++ ext))
    ⟨hp, [], by simpa using hlog⟩ ?_
  rintro q a q' ⟨hq, ext, hext⟩ - hs
  obtain ⟨hq', ext', hext'⟩ := log_step hq hext hs
  exact ⟨hq', ext ++ ext', by rw [← List.append_assoc]; exact hext'⟩

end

theorem mem_replies {h : List Event} {reply : Reply} (hr : reply ∈ replies h) :
    ∃ e ∈ h, ∃ rows, e.op = .reply reply rows := by
  obtain ⟨e, he, hop⟩ := List.mem_filterMap.mp hr
  refine ⟨e, he, ?_⟩
  split at hop
  · rename_i rows heq
    obtain rfl := Option.some.inj hop
    exact ⟨rows, heq⟩
  · cases hop

/-- The commands of the log, served by the room one after the other, lead to the present
tables and give the answers that the workers have sent. -/
structure Linearization (env : Extern) (p : Workers) (log : List (Entry Task Answer)) : Prop where
  serves : Serves (Room.serve env) Room.empty log (room p.state.storage)
  /-- no task is served twice -/
  once : (log.map (·.thread)).Nodup
  /-- nor one that has not started -/
  started : ∀ en ∈ log, ∃ t, p.threads[en.thread]? = some t ∧ t.tag = en.command ∧ t.hist ≠ []
  finished : ∀ i t, p.threads[i]? = some t → t.prog.finished = true →
    processed t.tag.cmd = true → ∃ answer, ⟨i, t.tag, answer⟩ ∈ log
  replied : ∀ i t, p.threads[i]? = some t → ∀ reply ∈ replies t.hist,
    ∃ answer, ⟨i, t.tag, answer⟩ ∈ log ∧ answer.ConveyedBy reply

theorem linearization_of_log {env : Extern} {p : Workers} {log : List (Entry Task Answer)}
    (hp : p.Takes env) (hlog : Log env p log) : Linearization env p log := by
  refine ⟨hlog.serves, hlog.once, fun en hen => hlog.started hen, ?_, ?_⟩
  · intro i t ht hfin hproc
    obtain ⟨answer, hans⟩ := hp.finished (List.mem_of_getElem? ht) hfin hproc
    exact ⟨answer, hlog.served ht hans⟩
  · intro i t ht reply hr
    obtain ⟨e, he, rows, hop⟩ := mem_replies hr
    obtain ⟨answer, hmem, reply', rows', hop', hconveyed⟩ := hlog.shown ht he ⟨reply, rows, hop⟩
    obtain ⟨rfl, -⟩ := Op.reply.inj (hop.symm.trans hop')
    exact ⟨answer, hmem, hconveyed⟩

theorem exists_log {ok : Workers → WorkerAction → Prop} {env : Extern} {p : Workers}
    (h : Run (Workers.step env) ok Workers.init p) : ∃ log, p.Takes env ∧ Log env p log := by
  have hinit : Workers.init.Takes env :=
    ⟨Storage.integrity_empty, by simp [Workers.init], by simp [Workers.init]⟩
  obtain ⟨hp, log, hlog⟩ := log_run hinit (log_init env) h
  exact ⟨log, hp, hlog⟩

/-- However the workers interleave, they execute the commands in some order one at a
time. The order only grows at its end, so whoever has finished at one time stands
before whoever starts later. -/
theorem workers_linearizable (env : Extern) (p p' : Workers)
    (h : Run (Workers.step env) anyStep Workers.init p)
    (h' : Run (Workers.step env) anyStep p p') :
    ∃ log ext, Linearization env p log ∧ Linearization env p' (log ++ ext) := by
  obtain ⟨log, hp, hlog⟩ := exists_log h
  obtain ⟨hp', ext, hext⟩ := log_run hp hlog h'
  exact ⟨log, ext, linearization_of_log hp hlog, linearization_of_log hp' hext⟩

namespace Sample

/-- A message from the first user to `user`. -/
def line (user message : String) : Task :=
  { cmd := .messageSend, client := 0,
    request := { uid := 1, password := bytes "password", toUser := bytes user,
                 message := bytes message } }

/-- The second user opens a chat. -/
def openChat (name : String) : Task :=
  { cmd := .chatCreate, client := 1,
    request := { uid := 2, password := bytes "password", chatName := bytes name } }

end Sample

theorem workers_linearizable_two_users : ∃ p p' log ext,
    Run (Workers.step Sample.env) anyStep Workers.init p ∧
      Run (Workers.step Sample.env) anyStep p p' ∧ p.state.storage.users.length = 2 ∧
      p'.state.storage.messages.length = 1 ∧ p'.state.storage.chats.length = 3 ∧
      Linearization Sample.env p log ∧ Linearization Sample.env p' (log ++ ext) := by
  have hlist : (runList (Workers.step Sample.env) anyStep Workers.init
      (Sample.alone 0 (Sample.create "bob") 3 ++ Sample.alone 1 (Sample.create "amy") 3)).any
      (fun p => p.state.storage.users.length = 2 ∧
        (runList (Workers.step Sample.env) anyStep p
          ([.take (Sample.line "amy" "hi"), .take (Sample.openChat "tea")] ++
            [.work 2, .work 3, .work 2, .work 3, .work 2, .work 3, .work 2, .work 3, .work 2])).any
          fun p' => p'.state.storage.messages.length = 1 ∧
            p'.state.storage.chats.length = 3) = true := by decide +kernel
  obtain ⟨p, hrun, hp⟩ := exists_run hlist
  simp only [decide_eq_true_eq] at hp
  obtain ⟨p', hrun', hp'⟩ := exists_run hp.2
  simp only [decide_eq_true_eq] at hp'
  obtain ⟨log, ext, hlog, hext⟩ := workers_linearizable Sample.env p p' hrun hrun'
  exact ⟨p, p', log, ext, hrun, hrun', hp.1, hp'.1, hp'.2, hlog, hext⟩

end O2Chat.Server
