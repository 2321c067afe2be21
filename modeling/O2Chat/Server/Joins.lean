import O2Chat.Server.Connection
import O2Chat.Server.Names

/-!
# Lookups that lock more than once

`lookupChatsForUserId`, `lookupUsersForChatId` and `to_api_format` read several rows, one
locked section each, and the server goes on in between. What they put together is as if
it had been read at once: ids and names of a stored row never change, and no row goes away.
-/
namespace O2Chat.Server

open O2Chat.Common O2Chat.Db O2Chat.Lib.Interleaving O2Chat.Lib.Runs

/-- What the reads of a program have seen: stores with integrity that extend the one at
its start, in the order of time. -/
structure SeenFrom (s : Storage) (h : List Event) : Prop where
  start : ∀ e ∈ h, s.Extends e.pre.storage
  integrity : ∀ e ∈ h, e.pre.storage.Integrity
  order : h.Pairwise fun new old => old.pre.storage.Extends new.pre.storage

/-- From `s` the program has performed the events `h`, while the server went on to `s'`. -/
abbrev Reads {α : Type} (env : Extern) (s : System) (p : Work α) (s' : System) (h : List Event)
    (q : Work α) : Prop :=
  Beside Op.exec (System.step env) (fun s => s.workers.state) s p s' h q

/-! ## Rows in later stores -/

section

variable {s s' : Storage}

theorem lookupChat_later (hext : s.Extends s') (hi : s'.Integrity) {id : Nat} (hid : id ∈ s.chatIds) :
    s'.lookupChatById id ∈ s.chats ∧ (s'.lookupChatById id).id = id := by
  obtain ⟨c, hc, rfl⟩ := List.mem_map.mp hid
  have hlater : c ∈ s'.chats := hext.chats.subset hc
  obtain ⟨hfound, hsame⟩ := Storage.mem_of_lookupChatById (List.mem_map_of_mem hlater)
  rw [hi.chat_eq hfound hlater hsame]
  exact ⟨hc, rfl⟩

theorem lookupUser_later (hext : s.Extends s') (hi : s'.Integrity) {id : Nat} (hid : id ∈ s.userIds) :
    (∃ u ∈ s.users, u.key = (s'.lookupUserById id).key) ∧ (s'.lookupUserById id).id = id := by
  obtain ⟨u, hu, rfl⟩ := List.mem_map.mp hid
  obtain ⟨v, hv, hkey⟩ := hext.user hu
  obtain ⟨hid, -⟩ := User.of_key_eq hkey
  rw [← hid, hi.lookupUserById_eq hv]
  exact ⟨⟨u, hu, hkey.symm⟩, rfl⟩

end

/-- The history of a single call. -/
theorem follows_call {c : Call} {h : List Event} {r : c.Result}
    (hf : Follows Op.exec (call c) h (.pure r)) : ∃ pre post s',
      h = [⟨pre, .db c, r, post⟩] ∧ c.exec pre.storage = some (s', r) := by
  rcases Follows.of_op hf with ⟨-, hq⟩ | ⟨pre, r', post, later, hexec, rfl, hrest⟩
  · cases hq
  · obtain ⟨rfl, hr⟩ := hrest.of_pure
    cases hr
    obtain ⟨⟨s', r''⟩, hcall, heq⟩ := Option.map_eq_some_iff.mp hexec
    obtain ⟨-, rfl⟩ := Prod.mk.inj heq
    exact ⟨pre, post, s', rfl, hcall⟩

/-! ## The chats of a user and the users of a chat -/

/-- The chats that the user is a member of, with their names. -/
structure MemberChats (s : Storage) (uid : Nat) (chats : List Chat) : Prop where
  ids : chats.map (·.id) = s.chatIdsForUserId uid
  nodup : (chats.map (·.id)).Nodup
  stored : ∀ c ∈ chats, c.id ≠ 0 ∧ c ∈ s.chats

/-- The members of the chat; their heartbeats may be newer. -/
structure ChatMembers (s : Storage) (chatid : Nat) (users : List User) : Prop where
  ids : users.map (·.id) = s.userIdsForChatId chatid
  nodup : (users.map (·.id)).Nodup
  stored : ∀ u ∈ users, u.id ≠ 0 ∧ ∃ v ∈ s.users, v.key = u.key

/-- Rows that were looked up one by one for ids. -/
theorem rows_joined {β : Type} {id : β → Nat} {p : β → Prop} {ids : List Nat} {rows : List β}
    (h : List.Forall₂ (fun i row => p row ∧ id row = i) ids rows) :
    rows.map id = ids ∧ ∀ row ∈ rows, p row := by
  induction h with
  | nil => exact ⟨rfl, by simp⟩
  | cons hrow _ ih =>
    obtain ⟨hids, hall⟩ := ih
    refine ⟨?_, ?_⟩
    · rw [List.map_cons, hrow.2, hids]
    · intro row hmem
      rcases List.mem_cons.mp hmem with rfl | hmem
      · exact hrow.1
      · exact hall row hmem

theorem chatIdsForUserId_nodup {s : Storage} (hi : s.Integrity) (uid : Nat) :
    (s.chatIdsForUserId uid).Nodup := by
  refine List.Nodup.map_on ?_ (hi.chatuserNodup.filter _)
  rintro ⟨c, u⟩ hr ⟨c', u'⟩ hr' (rfl : c = c')
  have hu : u = uid := by simpa using (List.mem_filter.mp hr).2
  have hu' : u' = uid := by simpa using (List.mem_filter.mp hr').2
  rw [hu, hu']

theorem userIdsForChatId_nodup {s : Storage} (hi : s.Integrity) (chatid : Nat) :
    (s.userIdsForChatId chatid).Nodup := by
  refine List.Nodup.map_on ?_ (hi.chatuserNodup.filter _)
  rintro ⟨c, u⟩ hr ⟨c', u'⟩ hr' (rfl : u = u')
  have hc : c = chatid := by simpa using (List.mem_filter.mp hr).2
  have hc' : c' = chatid := by simpa using (List.mem_filter.mp hr').2
  rw [hc, hc']

/-- A member's chats are stored. -/
theorem mem_chatIdsForUserId {s : Storage} (hi : s.Integrity) {uid id : Nat}
    (h : id ∈ s.chatIdsForUserId uid) : id ∈ s.chatIds := by
  obtain ⟨r, hr, rfl⟩ := List.mem_map.mp h
  exact (hi.links r (List.mem_filter.mp hr).1).1

theorem mem_userIdsForChatId {s : Storage} (hi : s.Integrity) {chatid id : Nat}
    (h : id ∈ s.userIdsForChatId chatid) : id ∈ s.userIds := by
  obtain ⟨r, hr, rfl⟩ := List.mem_map.mp h
  exact (hi.links r (List.mem_filter.mp hr).1).2

/-- A history that begins with one call. -/
theorem follows_call_bind {α : Type} {c : Call} {k : c.Result → Work α} {h : List Event} {a : α}
    (hf : Follows Op.exec ((call c).bind k) h (.pure a)) : ∃ pre r post s' later,
      h = later ++ [⟨pre, .db c, r, post⟩] ∧ c.exec pre.storage = some (s', r) ∧
      Follows Op.exec (k r) later (.pure a) := by
  obtain ⟨r, later, earlier, rfl, hfirst, hrest⟩ := hf.of_bind_pure
  obtain ⟨pre, post, s', rfl, hcall⟩ := follows_call hfirst
  exact ⟨pre, r, post, s', later, rfl, hcall, hrest⟩

variable {s : Storage} {h : List Event}

/-- The rows are read after the membership. -/
theorem SeenFrom.later {later : List Event} {first : Event} (hseen : SeenFrom s (later ++ [first])) :
    ∀ e ∈ later, first.pre.storage.Extends e.pre.storage ∧ e.pre.storage.Integrity := by
  intro e he
  exact ⟨(List.pairwise_append.mp hseen.order).2.2 e he first (List.mem_singleton.mpr rfl),
    hseen.integrity e (List.mem_append_left _ he)⟩

theorem lookupChats_joined {uid : Nat} {chats : List Chat} (hseen : SeenFrom s h)
    (hf : Follows Op.exec (lookupChatsForUserId uid) h (.pure chats)) :
    ∃ later first, h = later ++ [first] ∧ MemberChats first.pre.storage uid chats := by
  obtain ⟨pre, ids, post, s', later, rfl, hcall, hrest⟩ := follows_call_bind hf
  obtain ⟨-, rfl⟩ := Prod.mk.inj (Option.some.inj hcall)
  have hi : pre.storage.Integrity := hseen.integrity _ (List.mem_append_right _ List.mem_cons_self)
  have hrows : List.Forall₂ (fun id c => c ∈ pre.storage.chats ∧ c.id = id)
      (pre.storage.chatIdsForUserId uid) chats := by
    refine hrest.of_traverse.imp ?_
    rintro id c ⟨hid, part, hsub, hpart⟩
    obtain ⟨pre', post', s'', rfl, hcall'⟩ := follows_call hpart
    obtain ⟨-, rfl⟩ := Prod.mk.inj (Option.some.inj hcall')
    obtain ⟨hext, hi'⟩ := hseen.later _ (hsub List.mem_cons_self)
    exact lookupChat_later hext hi' (mem_chatIdsForUserId hi hid)
  obtain ⟨hids, hstored⟩ := rows_joined hrows
  refine ⟨later, _, rfl, hids, hids ▸ chatIdsForUserId_nodup hi uid, ?_⟩
  intro c hc
  have hpos := (hi.chatId_pos (hstored c hc)).1
  exact ⟨by omega, hstored c hc⟩

theorem lookupUsers_joined {chatid : Nat} {users : List User} (hseen : SeenFrom s h)
    (hf : Follows Op.exec (lookupUsersForChatId chatid) h (.pure users)) :
    ∃ later first, h = later ++ [first] ∧ ChatMembers first.pre.storage chatid users := by
  obtain ⟨pre, ids, post, s', later, rfl, hcall, hrest⟩ := follows_call_bind hf
  obtain ⟨-, rfl⟩ := Prod.mk.inj (Option.some.inj hcall)
  have hi : pre.storage.Integrity := hseen.integrity _ (List.mem_append_right _ List.mem_cons_self)
  have hrows : List.Forall₂ (fun id u => (∃ v ∈ pre.storage.users, v.key = u.key) ∧ u.id = id)
      (pre.storage.userIdsForChatId chatid) users := by
    refine hrest.of_traverse.imp ?_
    rintro id u ⟨hid, part, hsub, hpart⟩
    obtain ⟨pre', post', s'', rfl, hcall'⟩ := follows_call hpart
    obtain ⟨-, rfl⟩ := Prod.mk.inj (Option.some.inj hcall')
    obtain ⟨hext, hi'⟩ := hseen.later _ (hsub List.mem_cons_self)
    exact lookupUser_later hext hi' (mem_userIdsForChatId hi hid)
  obtain ⟨hids, hstored⟩ := rows_joined hrows
  refine ⟨later, _, rfl, hids, hids ▸ userIdsForChatId_nodup hi chatid, ?_⟩
  intro u hu
  obtain ⟨v, hv, hkey⟩ := hstored u hu
  have hpos := (hi.userId_pos hv).1
  have hid := (User.of_key_eq hkey).1
  exact ⟨by omega, v, hv, hkey⟩

/-! ## Messages in the format of the api -/

/-- `msg` is a stored message, up to its flags. -/
def IsStored (s : Storage) (msg : Message) : Prop := ∃ row ∈ s.messages, row.body = msg.body

/-- The message with the name of its sender and the name of its chat. -/
structure Attributed (s : Storage) (msg : Message) (api : ApiMessage) : Prop where
  ts : api.ts = msg.ts
  text : api.msg = msg.message
  sender : ∃ u ∈ s.users, u.id = msg.userFrom ∧ u.name = api.from_
  chat : ∃ c ∈ s.chats, c.id = msg.chatTo ∧ c.name = api.to_

theorem toApiFormat_attributed {msgs : List Message} {api : List ApiMessage} (hi : s.Integrity)
    (hseen : SeenFrom s h) (hmsgs : ∀ msg ∈ msgs, IsStored s msg)
    (hf : Follows Op.exec (toApiFormat msgs) h (.pure api)) :
    List.Forall₂ (Attributed s) msgs api := by
  refine (Follows.of_traverse hf).imp ?_
  rintro msg entry ⟨hmsg, part, hsub, hpart⟩
  obtain ⟨row, hrow, hbody⟩ := hmsgs msg hmsg
  obtain ⟨hfrom, hto, -, -⟩ := Message.of_body_eq hbody
  obtain ⟨hsender, hchat⟩ := hi.messages row hrow
  obtain ⟨pre₁, chat, post₁, s₁, later, rfl, hcall₁, hrest⟩ := follows_call_bind hpart
  obtain ⟨-, rfl⟩ := Prod.mk.inj (Option.some.inj hcall₁)
  obtain ⟨pre₂, user, post₂, s₂, later₂, rfl, hcall₂, hrest⟩ := follows_call_bind hrest
  obtain ⟨-, rfl⟩ := Prod.mk.inj (Option.some.inj hcall₂)
  obtain ⟨-, hentry⟩ := hrest.of_pure
  cases hentry
  have hin₁ := hsub (List.mem_append_right _ List.mem_cons_self)
  have hin₂ := hsub (List.mem_append_left _ (List.mem_append_right _ List.mem_cons_self))
  rw [hto] at hchat
  rw [hfrom] at hsender
  obtain ⟨hc, hcid⟩ := lookupChat_later (hseen.start _ hin₁) (hseen.integrity _ hin₁) hchat
  obtain ⟨⟨u, hu, hkey⟩, huid⟩ :=
    lookupUser_later (hseen.start _ hin₂) (hseen.integrity _ hin₂) hsender
  obtain ⟨hid, -, hname, -⟩ := User.of_key_eq hkey
  exact ⟨rfl, rfl, ⟨u, hu, hid.trans huid, hname⟩, ⟨_, hc, hcid, rfl⟩⟩

/-- With names in the store there are names in the api. -/
theorem attributed_named {msgs : List Message} {api : List ApiMessage}
    (hall : List.Forall₂ (Attributed s) msgs api) (hi : s.Integrity)
    (hchats : ∀ c ∈ s.chats, c.name ≠ []) : ∀ entry ∈ api, entry.from_ ≠ [] ∧ entry.to_ ≠ [] := by
  have husers := users_named hi hchats
  induction hall with
  | nil => simp
  | cons hentry _ ih =>
    intro entry hmem
    rcases List.mem_cons.mp hmem with rfl | hmem
    · obtain ⟨u, hu, -, hfrom⟩ := hentry.sender
      obtain ⟨c, hc, -, hto⟩ := hentry.chat
      exact ⟨hfrom ▸ husers u hu, hto ▸ hchats c hc⟩
    · exact ih entry hmem

/-! ## Beside the server -/

theorem safe_step {env : Extern} {s s' : System} {a : Action} (h : s.workers.Safe env)
    (hs : s.step env a = some s') :
    s'.workers.Safe env ∧ Ext s.workers.state s'.workers.state := by
  rcases System.step_workers hs with hsame | ⟨b, hb⟩
  · rw [hsame]
    exact ⟨h, .refl _⟩
  · exact ⟨workers_safe_step h hb, workers_step_extends hb⟩

theorem Reads.seen {env : Extern} {α : Type} {s s' : System} {p q : Work α} {h : List Event}
    (hsafe : s.workers.Safe env) (hr : Reads env s p s' h q) :
    SeenFrom s.workers.state.storage h := by
  obtain ⟨-, hpast, horder⟩ := hr.recorded (I := fun s => s.workers.Safe env) (fun _ => .refl _)
    @ext_trans (fun _ _ _ => safe_step) hsafe
  refine ⟨fun e he => (hpast e he).2.1, ?_, horder⟩
  intro e he
  obtain ⟨⟨s₁, hs₁, hpre⟩, -⟩ := hpast e he
  rw [← hpre]
  exact hs₁.inv

/-- Whatever the server does between the locked sections, the chats are those the user was
a member of when the first one ran, the users are the members of the chat then, and stored
messages get the names of their sender and chat. As long as the poll timer runs for
requests that name what they create, the names are not empty; and each other run of the
timer puts a task into the queue that names nothing. -/
theorem joins_consistent (env : Extern) (s : System) (h : Run (System.step env) anyStep {} s) :
    (∀ uid s' hist chats, Reads env s (lookupChatsForUserId uid) s' hist (.pure chats) →
      ∃ later first, hist = later ++ [first] ∧ MemberChats first.pre.storage uid chats) ∧
    (∀ chatid s' hist users, Reads env s (lookupUsersForChatId chatid) s' hist (.pure users) →
      ∃ later first, hist = later ++ [first] ∧ ChatMembers first.pre.storage chatid users) ∧
    (∀ msgs s' hist api, (∀ msg ∈ msgs, IsStored s.workers.state.storage msg) →
      Reads env s (toApiFormat msgs) s' hist (.pure api) →
      List.Forall₂ (Attributed s.workers.state.storage) msgs api ∧
        (Run (System.step env) PollsNamed {} s → ∀ entry ∈ api, entry.from_ ≠ [] ∧ entry.to_ ≠ [])) ∧
    (Run (System.step env) PollsNamed {} s →
      ∀ a s', s.step env a = some s' → (TasksNamed s' ↔ PollsNamed s a)) := by
  have hsafe : s.workers.Safe env := workers_safe (System.workers_run h)
  refine ⟨?_, ?_, ?_, fun hnamed a s' => tasksNamed_step (named_of_run hnamed).1⟩
  · intro uid s' hist chats hr
    exact lookupChats_joined (hr.seen hsafe) hr.follows
  · intro chatid s' hist users hr
    exact lookupUsers_joined (hr.seen hsafe) hr.follows
  · intro msgs s' hist api hmsgs hr
    have hall := toApiFormat_attributed hsafe.inv (hr.seen hsafe) hmsgs hr.follows
    refine ⟨hall, fun hnamed => ?_⟩
    exact attributed_named hall hsafe.inv (named_of_run hnamed).2

/-- A read leaves the shared state as it is. -/
theorem Op.exec_read {c : Call} (hc : c.readOnly = true) {s : Shared} {r : c.Result}
    (h : c.exec s.storage = some (s.storage, r)) : Op.exec (.db c) s = some (s, r) := by
  have hsaves : savedBy s.storage c = [] := by
    cases c <;> first | rfl | cases hc
  simp [Op.exec, h, hsaves]

theorem Reads.call {env : Extern} {α : Type} {s s' : System} {p : Work α} {h : List Event} {c : Call}
    {k : c.Result → Work α} (hr : Reads env s p s' h (.op (.db c) k)) (hc : c.readOnly = true)
    {r : c.Result} (hexec : c.exec s'.workers.state.storage = some (s'.workers.state.storage, r)) :
    ∃ h', Reads env s p s' h' (k r) :=
  ⟨_, hr.own (Op.exec_read hc hexec)⟩

/-- The message with the names as they are stored now. -/
def apiNow (s : System) (msg : Message) : ApiMessage where
  ts := msg.ts
  from_ := (s.workers.state.storage.lookupUserById msg.userFrom).name
  to_ := (s.workers.state.storage.lookupChatById msg.chatTo).name
  msg := msg.message

theorem Reads.apiFormat {env : Extern} {α : Type} {s s' : System} {p : Work α} {h : List Event}
    {msgs : List Message} {k : List ApiMessage → Work α}
    (hr : Reads env s p s' h ((toApiFormat msgs).bind k)) :
    ∃ h', Reads env s p s' h' (k (msgs.map (apiNow s'))) := by
  induction msgs generalizing h k with
  | nil => exact ⟨h, hr⟩
  | cons msg msgs ih =>
    obtain ⟨h₁, hchat⟩ := Reads.call hr rfl rfl
    obtain ⟨h₂, huser⟩ := Reads.call hchat rfl rfl
    have hrest : Reads env s p s' h₂
        (((toApiFormat msgs).bind fun api => .pure (apiNow s' msg :: api)).bind k) := huser
    rw [Prog.bind_assoc] at hrest
    exact ih hrest

/-- Messages are put into the format of the api without a step of the server. -/
theorem reads_toApiFormat (env : Extern) (s : System) (msgs : List Message) :
    ∃ hist, Reads env s (toApiFormat msgs) s hist (.pure (msgs.map (apiNow s))) := by
  cases msgs with
  | nil => exact ⟨[], .start⟩
  | cons msg msgs =>
    have hstart : Reads env s (toApiFormat (msg :: msgs)) s [] (toApiFormat (msg :: msgs)) := .start
    obtain ⟨h₁, hchat⟩ := Reads.call hstart rfl rfl
    obtain ⟨h₂, huser⟩ := Reads.call hchat rfl rfl
    have hrest : Reads env s (toApiFormat (msg :: msgs)) s h₂
        ((toApiFormat msgs).bind fun api => .pure (apiNow s msg :: api)) := huser
    exact hrest.apiFormat

namespace Sample

def credentials (user : String) : Bytes := bytes user ++ bytes " with a password"

/-- A request to create a user without a name, one that is accepted, and a message from
user 1 to that user. -/
def namingExt : Extern := knowing
  [(idleBody 7 0, idleJson 7 0),
    (credentials "", .object [(bytes "password", .string (bytes "password"))]),
    (credentials "bob", .object [(bytes "user", .string (bytes "bob")),
      (bytes "password", .string (bytes "password"))]),
    (bytes "note", .object [(bytes "uid", .int 1), (bytes "password", .string (bytes "password")),
      (bytes "to", .string (bytes "bob")), (bytes "message", .string (bytes "note"))])]

/-- Connection `c` creates bob and writes to him as user 1; thread `i` is the next. -/
def bobAndNote (c i : Nat) : List Action :=
  [.handshake c false, .readDone c (some (request "/v1/user/create" (credentials "bob"))), .getTask,
    .work i, .work i, .work i, .writeDone c 0 false,
    .readDone c (some (request "/v1/message/send" (bytes "note"))), .getTask,
    .work (i + 1), .work (i + 1), .work (i + 1), .work (i + 1), .work (i + 1)]

/-- While a connection is polled, it is refused a request to create a user without a name.
The next poll creates that user. -/
def namelessPoll : List Action :=
  strangerIdles ++ refusedPoll 0 ++
    [.writeDone 0 0 false, .readDone 0 (some (request "/v1/user/create" (credentials ""))),
      .timerExpire 0, .timerRun 0, .getTask, .work 1, .work 1, .work 1]

end Sample

theorem joins_consistent_note : ∃ s msg hist entry,
    Run (System.step Sample.namingExt) PollsNamed {} s ∧
      msg ∈ s.workers.state.storage.messages ∧
      Reads Sample.namingExt s (toApiFormat [msg]) s hist (.pure [entry]) ∧
      entry.from_ ≠ [] ∧ entry.to_ ≠ [] := by
  have hlist : (runList (System.step Sample.namingExt) PollsNamed {} (Sample.bobAndNote 1 0)).any
      (fun s => s.workers.state.storage.messages.length = 1) = true := by decide +kernel
  obtain ⟨s, hrun, hlen⟩ := exists_run hlist
  obtain ⟨msg, hmsg⟩ := List.length_eq_one_iff.mp (of_decide_eq_true hlen)
  obtain ⟨hist, hreads⟩ := reads_toApiFormat Sample.namingExt s [msg]
  have hmem : msg ∈ s.workers.state.storage.messages := by
    rw [hmsg]
    exact List.mem_cons_self
  obtain ⟨-, -, hnames, -⟩ := joins_consistent Sample.namingExt s (hrun.mono fun _ _ _ => trivial)
  obtain ⟨-, hnamed⟩ := hnames [msg] s hist _ (by simpa using ⟨msg, hmem, rfl⟩) hreads
  exact ⟨s, msg, hist, _, hrun, hmem, hreads, hnamed hrun _ List.mem_cons_self⟩

/-- The sender of a stored message has no name. -/
theorem nameless_sender : ∃ s msg hist entry, Run (System.step Sample.namingExt) anyStep {} s ∧
    msg ∈ s.workers.state.storage.messages ∧
    Reads Sample.namingExt s (toApiFormat [msg]) s hist (.pure [entry]) ∧ entry.from_ = [] := by
  have hlist : (runList (System.step Sample.namingExt) anyStep {}
      (Sample.namelessPoll ++ Sample.bobAndNote 1 2)).any
      (fun s => s.workers.state.storage.messages.any fun msg =>
        (s.workers.state.storage.lookupUserById msg.userFrom).name = []) = true := by decide +kernel
  obtain ⟨s, hrun, hany⟩ := exists_run hlist
  obtain ⟨msg, hmsg, hname⟩ := List.any_eq_true.mp hany
  obtain ⟨hist, hreads⟩ := reads_toApiFormat Sample.namingExt s [msg]
  exact ⟨s, msg, hist, _, hrun, hmsg, hreads, of_decide_eq_true hname⟩

end O2Chat.Server
