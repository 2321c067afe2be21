import O2Chat.Server.Linearizable

/-!
# What the order of the commands says about the tables

The room changes in few ways (`Change`), and accounts, chats and members are only
added. So every stored message can be traced to one send command of the log, in the
same order, and every membership to the command that granted it, each with the
password of the user it names; and a command that starts later finds what an earlier
one was told.
-/
namespace O2Chat.Server

open O2Chat.Common O2Chat.Db O2Chat.Lib.Interleaving O2Chat.Lib.Linearization O2Chat.Lib.Runs

/-- The credentials of the task are those of an account. -/
def Room.Permits (env : Extern) (task : Task) (room : Room) : Prop :=
  ∃ name a, room.account name = some a ∧ a.id = task.request.uid ∧
    a.password = encryptedPass env task.request.password

/-- Everything a command does to the room. -/
inductive Change (env : Extern) (task : Task) (room : Room) : Answer → Room → Prop
  | unchanged {answer : Answer} (hans : answer ≠ .done) : Change env task room answer room
  | registered {a : Account} (hcmd : task.cmd = .userCreate)
      (hname : room.account task.request.user = none) (hchat : room.chat a.selfChat = none) :
      Change env task room (.user task.request.user a) (room.register task.request.user a)
  | opened {id : Nat} (hcmd : task.cmd = .chatCreate) (hp : room.Permits env task)
      (hid : room.chat id = none) : Change env task room (.chat id task.request.chatName)
        (room.openChat id task.request.chatName task.request.uid)
  | admitted {chat : Nat} {a : Account} (hcmd : task.cmd = .chatAdduser)
      (hp : room.Permits env task) (ha : room.account task.request.chatAdduser = some a)
      (hc : room.chat chat = some task.request.chatName) :
      Change env task room .done (room.addMember chat a.id)
  | sent {a : Account} {ts : Nat} (hcmd : task.cmd = .messageSend) (hp : room.Permits env task)
      (ha : room.account task.request.toUser = some a) : Change env task room .done
        (room.publish ⟨task.request.uid, a.selfChat, ts, task.request.message⟩)
  | sentChat {chat ts : Nat} (hcmd : task.cmd = .messageSendChat) (hp : room.Permits env task)
      (hc : room.chat chat = some task.request.chatName) : Change env task room .done
        (room.publish ⟨task.request.uid, chat, ts, task.request.message⟩)
  | touched {now : Nat} (hcmd : task.cmd = .idle) :
      Change env task room .served (room.touch task.request.uid now)

section

variable {env : Extern} {task : Task} {r r' : Room} {answer : Answer}

/-! ## Inversion -/

theorem Change.of_refuse {code : Nat} {api : ApiStatusCode} {desc : String}
    (h : Room.refuse code api desc r answer r') : Change env task r answer r' := by
  obtain ⟨rfl, rfl⟩ := h
  exact .unchanged (by simp)

theorem Change.of_authorized {k : Service} (h : Room.authorized env task k r answer r')
    (hk : r.Permits env task → k r answer r' → Change env task r answer r') :
    Change env task r answer r' := by
  rcases h with ⟨-, href⟩ | ⟨name, a, ha, hid, h⟩
  · exact .of_refuse href
  · split at h
    · rename_i hpass
      exact hk ⟨name, a, ha, hid, hpass⟩ h
    · exact .of_refuse h

theorem Change.of_found {name : Bytes} {missing : String} {k : Account → Service}
    (h : Room.found name missing k r answer r')
    (hk : ∀ a, r.account name = some a → k a r answer r' → Change env task r answer r') :
    Change env task r answer r' := by
  unfold Room.found at h
  split at h
  · exact .of_refuse h
  · rename_i a ha
    exact hk a ha h

theorem Change.of_addressed {name : Bytes} {k : Nat → Service}
    (h : Room.addressed name k r answer r')
    (hk : ∀ chat, r.chat chat = some name → k chat r answer r' → Change env task r answer r') :
    Change env task r answer r' := by
  rcases h with ⟨-, href⟩ | ⟨chat, hc, h⟩
  · exact .of_refuse href
  · exact hk chat hc h

theorem serve_change (h : Room.serve env task r answer r') : Change env task r answer r' := by
  cases hcmd : task.cmd <;> simp only [Room.serve, hcmd] at h
  case idle =>
    refine .of_authorized h fun hp h => ?_
    obtain ⟨now, rfl, rfl⟩ := h
    exact .touched hcmd
  case userStatus =>
    refine .of_authorized h fun hp h => .of_found h fun a ha h => ?_
    obtain ⟨rfl, rfl⟩ := h
    exact .unchanged (by simp)
  case userHistory =>
    refine .of_authorized h fun hp h => .of_found h fun a ha h => ?_
    obtain ⟨rfl, rfl⟩ := h
    exact .unchanged (by simp)
  case messageSend =>
    refine .of_authorized h fun hp h => .of_found h fun a ha h => ?_
    obtain ⟨ts, rfl, rfl⟩ := h
    exact .sent hcmd hp ha
  case userCreate =>
    unfold Room.serveUserCreate at h
    split at h
    · exact .of_refuse h
    · rename_i hname
      obtain ⟨a, -, -, -, -, -, hchat, rfl, rfl⟩ := h
      exact .registered hcmd hname hchat
  case userLogin =>
    refine .of_found h fun a ha h => ?_
    by_cases hpass : a.password = encryptedPass env task.request.password
    · rw [if_pos hpass] at h
      obtain ⟨rfl, rfl⟩ := h
      exact .unchanged (by simp)
    · rw [if_neg hpass] at h
      exact .of_refuse h
  case chatCreate =>
    refine .of_authorized h fun hp h => ?_
    rcases h with ⟨-, href⟩ | ⟨-, id, -, hid, rfl, rfl⟩
    · exact .of_refuse href
    · exact .opened hcmd hp hid
  case chatAdduser =>
    refine .of_authorized h fun hp h => .of_found h fun a ha h => .of_addressed h fun c hc h => ?_
    obtain ⟨rfl, rfl⟩ := h
    exact .admitted hcmd hp ha hc
  case messageSendChat =>
    refine .of_authorized h fun hp h => .of_addressed h fun c hc h => ?_
    obtain ⟨ts, rfl, rfl⟩ := h
    exact .sentChat hcmd hp hc

/-! ## The room only grows -/

/-- Accounts keep what they are, up to the heartbeat, and chats their names. -/
structure Room.Grows (r r' : Room) : Prop where
  account : ∀ name a, r.account name = some a →
    ∃ b, r'.account name = some b ∧ b.id = a.id ∧ b.selfChat = a.selfChat ∧ b.password = a.password
  chat : ∀ id name, r.chat id = some name → r'.chat id = some name

theorem Room.Grows.refl (r : Room) : Room.Grows r r := ⟨fun _ a ha => ⟨a, ha, rfl, rfl, rfl⟩, fun _ _ h => h⟩

theorem Room.Grows.trans {r r' r'' : Room} (h : Room.Grows r r') (h' : Room.Grows r' r'') :
    Room.Grows r r'' := by
  refine ⟨fun name a ha => ?_, fun id name hn => h'.chat id name (h.chat id name hn)⟩
  obtain ⟨b, hb, hid, hself, hpass⟩ := h.account name a ha
  obtain ⟨c, hc, hcid, hcself, hcpass⟩ := h'.account name b hb
  exact ⟨c, hc, hcid.trans hid, hcself.trans hself, hcpass.trans hpass⟩

theorem chat_update {id : Nat} {name : Bytes} (hnew : r.chat id = none) {c : Nat} {n : Bytes}
    (h : r.chat c = some n) : Function.update r.chat id (some name) c = some n := by
  rw [Function.update_of_ne]
  · exact h
  · rintro rfl
    simp [hnew] at h

theorem Change.grows (h : Change env task r answer r') : Room.Grows r r' := by
  cases h with
  | unchanged hans => exact .refl r
  | registered hcmd hname hchat =>
    refine ⟨fun name b hb => ⟨b, ?_, rfl, rfl, rfl⟩, fun id name h => chat_update hchat h⟩
    refine (Function.update_of_ne ?_ _ _).trans hb
    rintro rfl
    simp [hname] at hb
  | opened hcmd hp hid =>
    exact ⟨fun _ a ha => ⟨a, ha, rfl, rfl, rfl⟩, fun id name h => chat_update hid h⟩
  | admitted | sent | sentChat => exact ⟨fun _ a ha => ⟨a, ha, rfl, rfl, rfl⟩, fun _ _ h => h⟩
  | @touched now hcmd =>
    refine ⟨fun name a ha => ?_, fun _ _ h => h⟩
    refine ⟨if a.id = task.request.uid then { a with heartbit := now } else a, ?_, ?_⟩
    · simp [Room.touch, ha]
    · split <;> exact ⟨rfl, rfl, rfl⟩

theorem Room.Permits.mono (h : r.Permits env task) (hg : Room.Grows r r') : r'.Permits env task := by
  obtain ⟨name, a, ha, hid, hpass⟩ := h
  obtain ⟨b, hb, hbid, -, hbpass⟩ := hg.account name a ha
  exact ⟨name, b, hb, hbid.trans hid, hbpass.trans hpass⟩

end

/-! ## Messages -/

/-- The task sends this post: with the password of its sender, to the self chat of the
user or to a chat of the name it gives. -/
structure Sent (env : Extern) (room : Room) (task : Task) (post : Post) : Prop where
  permits : room.Permits env task
  sender : post.sender = task.request.uid
  text : post.text = task.request.message
  target : (task.cmd = .messageSend ∧
      ∃ a, room.account task.request.toUser = some a ∧ a.selfChat = post.chat) ∨
    task.cmd = .messageSendChat ∧ room.chat post.chat = some task.request.chatName

/-- The send commands of the log that were accepted. -/
def sends (log : List (Entry Task Answer)) : List Task :=
  (log.filter fun en => isSend en.command.cmd && en.answer = .done).map (·.command)

section

variable {env : Extern} {r r' : Room} {log : List (Entry Task Answer)}

theorem Sent.mono {task : Task} {post : Post} (h : Sent env r task post) (hg : Room.Grows r r') :
    Sent env r' task post := by
  refine ⟨h.permits.mono hg, h.sender, h.text, ?_⟩
  rcases h.target with ⟨hcmd, a, ha, hself⟩ | ⟨hcmd, hchat⟩
  · obtain ⟨b, hb, -, hbself, -⟩ := hg.account _ a ha
    exact Or.inl ⟨hcmd, b, hb, hbself.trans hself⟩
  · exact Or.inr ⟨hcmd, hg.chat _ _ hchat⟩

theorem sends_append (en : Entry Task Answer) :
    sends (log ++ [en]) =
      sends log ++ if isSend en.command.cmd = true ∧ en.answer = .done then [en.command] else [] := by
  rw [sends, List.filter_append, List.map_append]
  congr 1
  by_cases hsend : isSend en.command.cmd = true <;> by_cases hdone : en.answer = .done
  · rw [if_pos ⟨hsend, hdone⟩, List.filter_cons_of_pos (by rw [hsend, hdone]; rfl)]
    rfl
  all_goals
    rw [if_neg (fun h => by simp_all), List.filter_cons_of_neg (by simp_all)]
    rfl

/-- The posts are the accepted sends, one for one and in order. -/
theorem posts_sent (h : Serves (Room.serve env) Room.empty log r) :
    List.Forall₂ (Sent env r) (sends log) r.posts := by
  refine h.invariant (I := fun log r => List.Forall₂ (Sent env r) (sends log) r.posts) .nil ?_
  rintro log r en r' hall hserve
  have hchange := serve_change hserve
  have hold : List.Forall₂ (Sent env r') (sends log) r.posts :=
    hall.imp fun _ _ hs => hs.mono hchange.grows
  have hkeep : ¬ (isSend en.command.cmd = true ∧ en.answer = .done) → r'.posts = r.posts →
      List.Forall₂ (Sent env r') (sends (log ++ [en])) r'.posts := by
    intro hnot hposts
    rw [sends_append, if_neg hnot, List.append_nil, hposts]
    exact hold
  have hadd : isSend en.command.cmd = true → en.answer = .done → ∀ post,
      r'.posts = r.posts ++ [post] → Sent env r' en.command post →
      List.Forall₂ (Sent env r') (sends (log ++ [en])) r'.posts := by
    intro hsend hdone post hposts hsent
    rw [sends_append, if_pos ⟨hsend, hdone⟩, hposts]
    exact List.rel_append hold (.cons hsent .nil)
  have hgrows := hchange.grows
  generalize hans : en.answer = answer at hchange
  cases hchange with
  | unchanged hne => exact hkeep (fun hs => hne (hans.symm.trans hs.2)) rfl
  | registered hcmd => exact hkeep (fun hs => by simp [isSend, hcmd] at hs) rfl
  | opened hcmd => exact hkeep (fun hs => by simp [isSend, hcmd] at hs) rfl
  | admitted hcmd => exact hkeep (fun hs => by simp [isSend, hcmd] at hs) rfl
  | touched hcmd => exact hkeep (fun hs => by simp [isSend, hcmd] at hs) rfl
  | @sent a ts hcmd hp ha =>
    refine hadd (by simp [isSend, hcmd]) hans _ rfl ⟨hp.mono hgrows, rfl, rfl, ?_⟩
    exact Or.inl ⟨hcmd, a, ha, rfl⟩
  | sentChat hcmd hp hc =>
    exact hadd (by simp [isSend, hcmd]) hans _ rfl ⟨hp.mono hgrows, rfl, rfl, Or.inr ⟨hcmd, hc⟩⟩

end

/-! ## Memberships -/

/-- The command of the entry makes the user a member of the chat. -/
inductive Granted (env : Extern) (room : Room) (chat uid : Nat) (en : Entry Task Answer) : Prop
  /-- the self chat of a new user -/
  | registered {name : Bytes} {a : Account} (hcmd : en.command.cmd = .userCreate)
      (hans : en.answer = .user name a) (hchat : a.selfChat = chat) (huid : a.id = uid)
  /-- the chat that the user has opened -/
  | opened {name : Bytes} (hcmd : en.command.cmd = .chatCreate) (hp : room.Permits env en.command)
      (hans : en.answer = .chat chat name) (huid : en.command.request.uid = uid)
  /-- some user has added this one, both chat and user by name -/
  | admitted {a : Account} (hcmd : en.command.cmd = .chatAdduser)
      (hp : room.Permits env en.command) (hans : en.answer = .done)
      (hchat : room.chat chat = some en.command.request.chatName)
      (ha : room.account en.command.request.chatAdduser = some a) (huid : a.id = uid)

section

variable {env : Extern} {r r' : Room} {log : List (Entry Task Answer)}

theorem Granted.mono {chat uid : Nat} {en : Entry Task Answer} (h : Granted env r chat uid en)
    (hg : Room.Grows r r') : Granted env r' chat uid en := by
  cases h with
  | registered hcmd hans hchat huid => exact .registered hcmd hans hchat huid
  | opened hcmd hp hans huid => exact .opened hcmd (hp.mono hg) hans huid
  | admitted hcmd hp hans hchat ha huid =>
    obtain ⟨b, hb, hbid, -⟩ := hg.account _ _ ha
    exact .admitted hcmd (hp.mono hg) hans (hg.chat _ _ hchat) hb (hbid.trans huid)

/-- A member that the command has added was granted it by the command. -/
theorem Change.granted {en : Entry Task Answer} (h : Change env en.command r en.answer r')
    {m : Nat × Nat} (hm : m ∈ r'.member) : m ∈ r.member ∨ Granted env r' m.1 m.2 en := by
  have hgrows := h.grows
  generalize hans : en.answer = answer at h
  cases h with
  | unchanged | touched | sent | sentChat => exact Or.inl hm
  | registered hcmd =>
    rcases Set.mem_insert_iff.mp hm with rfl | hold
    · exact Or.inr (.registered hcmd hans rfl rfl)
    · exact Or.inl hold
  | opened hcmd hp =>
    rcases Set.mem_insert_iff.mp hm with rfl | hold
    · exact Or.inr (.opened hcmd (hp.mono hgrows) hans rfl)
    · exact Or.inl hold
  | @admitted chat a hcmd hp ha hc =>
    rcases Set.mem_insert_iff.mp hm with rfl | hold
    · exact Or.inr (.admitted hcmd (hp.mono hgrows) hans hc ha rfl)
    · exact Or.inl hold

theorem member_granted (h : Serves (Room.serve env) Room.empty log r) :
    ∀ m ∈ r.member, ∃ en ∈ log, Granted env r m.1 m.2 en := by
  refine h.invariant (I := fun log r => ∀ m ∈ r.member, ∃ en ∈ log, Granted env r m.1 m.2 en)
    (by simp [Room.empty]) ?_
  rintro log r en r' hall hserve m hm
  have hchange := serve_change hserve
  rcases hchange.granted hm with hold | hnew
  · obtain ⟨en', hen', hg⟩ := hall m hold
    exact ⟨en', List.mem_append_left _ hen', hg.mono hchange.grows⟩
  · exact ⟨en, by simp, hnew⟩

end

/-! ## Runs -/

namespace Sample

/-- The second user adds the first one. -/
def addFirst (chat : String) : Task :=
  { cmd := .chatAdduser, client := 1,
    request := { uid := 2, password := bytes "password", chatAdduser := bytes "bob",
                 chatName := bytes chat } }

/-- Bob and Amy register; Bob writes to Amy while she opens a chat, to which she adds
him. -/
def tea : List WorkerAction :=
  alone 0 (create "bob") 3 ++ alone 1 (create "amy") 3 ++
    [.take (line "amy" "hi"), .take (openChat "tea")] ++
    [.work 2, .work 3, .work 2, .work 3, .work 2, .work 3, .work 2, .work 3, .work 2] ++
    alone 4 (addFirst "tea") 5

end Sample

/-- The stored messages are, one for one and in order, the send commands that the
workers have executed with success: from the user with whose password the command came,
with its text, to the chat it names. -/
theorem messages_are_sends (env : Extern) (p : Workers)
    (h : Run (Workers.step env) anyStep Workers.init p) : ∃ log, Linearization env p log ∧
      List.Forall₂ (Sent env (room p.state.storage)) (sends log)
        (p.state.storage.messages.map post) := by
  obtain ⟨log, hp, hlog⟩ := exists_log h
  exact ⟨log, linearization_of_log hp hlog, posts_sent hlog.serves⟩

theorem messages_are_sends_tea : ∃ p log,
    Run (Workers.step Sample.env) anyStep Workers.init p ∧
      p.state.storage.messages.map (·.message) = [bytes "hi"] ∧
      Linearization Sample.env p log ∧ List.Forall₂ (Sent Sample.env (room p.state.storage))
        (sends log) (p.state.storage.messages.map post) := by
  have hlist : (runList (Workers.step Sample.env) anyStep Workers.init Sample.tea).any
      (fun p => p.state.storage.messages.map (·.message) = [bytes "hi"]) = true := by
    decide +kernel
  obtain ⟨p, hrun, hp⟩ := exists_run hlist
  obtain ⟨log, hlog, hall⟩ := messages_are_sends Sample.env p hrun
  exact ⟨p, log, hrun, by simpa using hp, hlog, hall⟩

/-- Nobody is a member of a chat unless a command of the log has made them one. -/
theorem members_were_granted (env : Extern) (p : Workers)
    (h : Run (Workers.step env) anyStep Workers.init p) : ∃ log, Linearization env p log ∧
      ∀ row ∈ p.state.storage.chatuser, ∃ en ∈ log,
        Granted env (room p.state.storage) row.chatid row.uid en := by
  obtain ⟨log, hp, hlog⟩ := exists_log h
  exact ⟨log, linearization_of_log hp hlog,
    fun row hrow => member_granted hlog.serves (row.chatid, row.uid) hrow⟩

theorem members_were_granted_tea : ∃ p log,
    Run (Workers.step Sample.env) anyStep Workers.init p ∧
      { chatid := 3, uid := 1 } ∈ p.state.storage.chatuser ∧ Linearization Sample.env p log ∧
      ∃ en ∈ log, Granted Sample.env (room p.state.storage) 3 1 en := by
  have hlist : (runList (Workers.step Sample.env) anyStep Workers.init Sample.tea).any
      (fun p => { chatid := 3, uid := 1 } ∈ p.state.storage.chatuser) = true := by decide +kernel
  obtain ⟨p, hrun, hp⟩ := exists_run hlist
  have hmem : { chatid := 3, uid := 1 } ∈ p.state.storage.chatuser := by simpa using hp
  obtain ⟨log, hlog, hall⟩ := members_were_granted Sample.env p hrun
  exact ⟨p, log, hrun, hmem, hlog, hall _ hmem⟩

/-! ## Later commands -/

theorem serves_grows {env : Extern} {r r' : Room} {log : List (Entry Task Answer)}
    (h : Serves (Room.serve env) r log r') : Room.Grows r r' :=
  h.invariant (I := fun _ r' => Room.Grows r r') (.refl r)
    fun _ _ _ _ hg hs => hg.trans (serve_change hs).grows

/-- A registration that was not refused leaves an account with this password. -/
theorem serve_userCreate {env : Extern} {task : Task} {r r' : Room} {answer : Answer}
    (hcmd : task.cmd = .userCreate) (h : Room.serve env task r answer r') {reply : Reply}
    (hconveyed : answer.ConveyedBy reply) (hok : reply.isError = false) : ∃ a,
      answer = .user task.request.user a ∧ r'.account task.request.user = some a ∧
        a.password = encryptedPass env task.request.password := by
  simp only [Room.serve, hcmd, Room.serveUserCreate] at h
  split at h
  · obtain ⟨rfl, -⟩ := h
    obtain rfl : reply = _ := hconveyed
    cases hok
  · obtain ⟨a, -, -, -, hpass, -, -, rfl, rfl⟩ := h
    exact ⟨a, rfl, Function.update_self _ _ _, hpass⟩

/-- The right password of an account is accepted. -/
theorem serve_userLogin {env : Extern} {task : Task} {r r' : Room} {answer : Answer} {a : Account}
    (hcmd : task.cmd = .userLogin) (h : Room.serve env task r answer r')
    (ha : r.account task.request.user = some a)
    (hpass : a.password = encryptedPass env task.request.password) :
    answer = .user task.request.user a := by
  simp only [Room.serve, hcmd, Room.serveUserLogin, Room.found, ha, if_pos hpass] at h
  exact h.1

/-- Whoever has been told that a registration succeeded can log in from then on, on any
connection: a login that starts later and finishes has one reply, which tells the same ids. -/
theorem login_after_create (env : Extern) (p p' : Workers)
    (h : Run (Workers.step env) anyStep Workers.init p)
    (h' : Run (Workers.step env) anyStep p p') (i j : Nat) (t u : Thread)
    (ht : p.threads[i]? = some t) (hcreate : t.tag.cmd = .userCreate) (reply : Reply)
    (hreply : reply ∈ replies t.hist) (hok : reply.isError = false)
    (hj : p.threads.length ≤ j) (hu : p'.threads[j]? = some u) (hlogin : u.tag.cmd = .userLogin)
    (hname : u.tag.request.user = t.tag.request.user)
    (hpass : u.tag.request.password = t.tag.request.password) :
    ∃ created now, reply = .sendOkResponse (okResponseBodyOfUser created now) ∧
      (u.prog.finished = true → (replies u.hist).length = 1) ∧
      ∀ reply' ∈ replies u.hist, ∃ user now',
        reply' = .sendOkResponse (okResponseBodyOfUser user now') ∧ user.name = created.name ∧
          user.id = created.id ∧ user.selfChatId = created.selfChatId := by
  obtain ⟨log, hp, hlog⟩ := exists_log h
  obtain ⟨hp', ext, hext⟩ := log_run hp hlog h'
  have hl := linearization_of_log hp hlog
  have hl' := linearization_of_log hp' hext
  obtain ⟨middle, hlogged, hlater⟩ := hl'.serves.of_append
  obtain ⟨answer, hen, hconveyed⟩ := hl.replied i t ht reply hreply
  obtain ⟨_, _, b, c, -, hserve, hafter⟩ := hlogged.of_mem hen
  obtain ⟨a, rfl, ha, hapass⟩ := serve_userCreate hcreate hserve hconveyed hok
  obtain ⟨now, rfl⟩ := hconveyed
  have hanswered : answered u.tag.cmd = true := by rw [hlogin]; rfl
  have hone : u.prog.finished = true → (replies u.hist).length = 1 :=
    fun hfin => (workers_safe (h.trans h')).finished (List.mem_of_getElem? hu) hfin hanswered
  refine ⟨_, now, rfl, hone, fun reply' hreply' => ?_⟩
  obtain ⟨answer', hen', hconveyed'⟩ := hl'.replied j u hu reply' hreply'
  -- the login is not in the log of the earlier time
  have hnew : ⟨j, u.tag, answer'⟩ ∈ ext := by
    rcases List.mem_append.mp hen' with hold | hnew
    · obtain ⟨v, hv, -⟩ := hl.started _ hold
      have hlt := (List.getElem?_eq_some_iff.mp hv).1
      exact absurd hlt (Nat.not_lt.mpr hj)
    · exact hnew
  obtain ⟨_, _, b', c', hbefore, hserve', -⟩ := hlater.of_mem hnew
  obtain ⟨a', ha', hid, hself, hpass'⟩ :=
    ((serves_grows hafter).trans (serves_grows hbefore)).account _ a ha
  have hanswer := serve_userLogin hlogin hserve' (hname ▸ ha') (by rw [hpass', hapass, hpass])
  obtain ⟨now', rfl⟩ : ∃ now', reply' = _ := by
    rw [show answer' = _ from hanswer] at hconveyed'
    exact hconveyed'
  exact ⟨_, now', rfl, hname, hid, hself⟩

theorem login_after_create_bob : ∃ p p' t u reply,
    Run (Workers.step Sample.env) anyStep Workers.init p ∧
      Run (Workers.step Sample.env) anyStep p p' ∧ p.threads[0]? = some t ∧
      reply ∈ replies t.hist ∧ p'.threads[1]? = some u ∧ (replies u.hist).length = 1 ∧
      ∃ created now, reply = .sendOkResponse (okResponseBodyOfUser created now) ∧
        ∀ reply' ∈ replies u.hist, ∃ user now',
          reply' = .sendOkResponse (okResponseBodyOfUser user now') ∧ user.name = created.name ∧
            user.id = created.id ∧ user.selfChatId = created.selfChatId := by
  have hlist : (runList (Workers.step Sample.env) anyStep Workers.init
      (Sample.alone 0 (Sample.create "bob") 3)).any (fun p =>
        p.threads.length = 1 ∧ (p.threads[0]?.any fun t => t.tag = Sample.create "bob" ∧
          (replies t.hist).any fun reply => reply.isError = false) ∧
        (runList (Workers.step Sample.env) anyStep p
          (Sample.alone 1 (Sample.login "bob" "password") 3)).any fun p' =>
            p'.threads[1]?.any fun u => u.tag = Sample.login "bob" "password" ∧
              u.prog.finished = true) = true := by decide +kernel
  obtain ⟨p, hrun, hp⟩ := exists_run hlist
  simp only [decide_eq_true_eq] at hp
  obtain ⟨hlen, hfirst, hsecond⟩ := hp
  obtain ⟨p', hrun', hp'⟩ := exists_run hsecond
  obtain ⟨t, ht, hfacts⟩ := (Option.any_eq_true _ _).mp hfirst
  obtain ⟨u, hu, hlogin⟩ := (Option.any_eq_true _ _).mp hp'
  simp only [decide_eq_true_eq] at hfacts hlogin
  obtain ⟨htag, hany⟩ := hfacts
  obtain ⟨hutag, hfin⟩ := hlogin
  obtain ⟨reply, hreply, hok⟩ := List.any_eq_true.mp hany
  obtain ⟨created, now, hcreated, hone, hall⟩ := login_after_create Sample.env p p' hrun hrun' 0 1
    t u ht (by rw [htag]; rfl) reply hreply (by simpa using hok) (Nat.le_of_eq hlen) hu
    (by rw [hutag]; rfl) (by rw [hutag, htag]; rfl) (by rw [hutag, htag]; rfl)
  exact ⟨p, p', t, u, reply, hrun, hrun', ht, hreply, hu, hone hfin, created, now, hcreated, hall⟩

end O2Chat.Server
