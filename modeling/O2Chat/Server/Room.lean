import Mathlib.Data.Set.Insert
import Mathlib.Logic.Function.Basic
import O2Chat.Server.WorkerSpec

/-!
# The chat room

What the server is for, without tables, counters and read marks: accounts by name,
named chats with their members, and the posts in the order in which they were saved.
`serve` says what a command does to the room when it is executed in one step. Ids and
times are any that fit; a chat name that belongs to several chats may be taken for any
of them or be refused.

The messages that `IDLE` and `USER_HISTORY` carry are read in several steps and are
not part of their answers here.
-/
namespace O2Chat.Server

open O2Chat.Common O2Chat.Db

structure Account where
  id : Nat
  selfChat : Nat
  heartbit : Nat
  /-- its checksum -/
  password : Bytes
  deriving DecidableEq

structure Post where
  sender : Nat
  chat : Nat
  ts : Nat
  text : Bytes
  deriving DecidableEq

@[ext] structure Room where
  account : Bytes → Option Account
  chat : Nat → Option Bytes
  /-- pairs of a chat and a user -/
  member : Set (Nat × Nat)
  posts : List Post

inductive Answer
  | refused (reply : Reply)
  | user (name : Bytes) (account : Account)
  | chat (id : Nat) (name : Bytes)
  | done
  | served
  deriving DecidableEq

/-- What a command may do: the room before, the answer and the room after. -/
abbrev Service := Room → Answer → Room → Prop

namespace Room

def empty : Room := ⟨fun _ => none, fun _ => none, ∅, []⟩

def HasUser (room : Room) (uid : Nat) : Prop := ∃ name a, room.account name = some a ∧ a.id = uid

/-! ## Changes -/

/-- A new account comes with a chat of its name. -/
def register (name : Bytes) (a : Account) (room : Room) : Room :=
  { room with
    account := Function.update room.account name (some a)
    chat := Function.update room.chat a.selfChat (some name)
    member := insert (a.selfChat, a.id) room.member }

def openChat (id : Nat) (name : Bytes) (uid : Nat) (room : Room) : Room :=
  { room with
    chat := Function.update room.chat id (some name)
    member := insert (id, uid) room.member }

def addMember (chat uid : Nat) (room : Room) : Room :=
  { room with member := insert (chat, uid) room.member }

def publish (post : Post) (room : Room) : Room := { room with posts := room.posts ++ [post] }

def touch (uid now : Nat) (room : Room) : Room :=
  { room with account := fun name => (room.account name).map fun a =>
      if a.id = uid then { a with heartbit := now } else a }

/-! ## Commands -/

def reply (answer : Answer) (change : Room → Room) : Service := fun room r room' =>
  r = answer ∧ room' = change room

def refuse (code : Nat) (api : ApiStatusCode) (desc : String) : Service :=
  reply (.refused (.sendErrorResponse code api (bytes desc))) id

/-- With the right password of the user. -/
def authorized (env : Extern) (task : Task) (k : Service) : Service := fun room r room' =>
  (¬ room.HasUser task.request.uid ∧ refuse 409 .errConstraint "user does not exist" room r room') ∨
  ∃ name a, room.account name = some a ∧ a.id = task.request.uid ∧
    if a.password = encryptedPass env task.request.password then k room r room'
    else refuse 403 .errConstraint "wrong password" room r room'

def found (name : Bytes) (missing : String) (k : Account → Service) : Service := fun room r room' =>
  match room.account name with
  | none => refuse 404 .errNotFound missing room r room'
  | some a => k a room r room'

def addressed (name : Bytes) (k : Nat → Service) : Service := fun room r room' =>
  ((¬ ∃! id, room.chat id = some name) ∧
    refuse 404 .errNotFound "chat does not exist" room r room') ∨
  ∃ id, room.chat id = some name ∧ k id room r room'

def serveUserCreate (env : Extern) (task : Task) : Service := fun room r room' =>
  match room.account task.request.user with
  | some _ => refuse 409 .errConstraint "user already exists" room r room'
  | none => ∃ a : Account, a.id ≠ 0 ∧ a.selfChat ≠ 0 ∧ a.heartbit = 0 ∧
      a.password = encryptedPass env task.request.password ∧
      ¬ room.HasUser a.id ∧ room.chat a.selfChat = none ∧
      reply (.user task.request.user a) (register task.request.user a) room r room'

def serveUserLogin (env : Extern) (task : Task) : Service :=
  found task.request.user "user does not exist" fun a =>
    if a.password = encryptedPass env task.request.password then
      reply (.user task.request.user a) id
    else refuse 403 .errConstraint "wrong password"

def serveUserStatus (env : Extern) (task : Task) : Service :=
  authorized env task (found task.request.user "user does not exist" fun a =>
    reply (.user task.request.user a) id)

def serveUserHistory (env : Extern) (task : Task) : Service :=
  authorized env task (found task.request.user "user does not exist" fun _ => reply .served id)

def serveMessageSend (env : Extern) (task : Task) : Service :=
  authorized env task (found task.request.toUser "user to does not exist" fun a room r room' =>
    ∃ ts, reply .done
      (publish ⟨task.request.uid, a.selfChat, ts, task.request.message⟩) room r room')

def serveChatCreate (env : Extern) (task : Task) : Service :=
  authorized env task fun room r room' =>
    ((∃ id, room.chat id = some task.request.chatName) ∧
      refuse 409 .errConstraint "chat already exists" room r room') ∨
    (∀ id, room.chat id ≠ some task.request.chatName) ∧ ∃ id, id ≠ 0 ∧ room.chat id = none ∧
      reply (.chat id task.request.chatName)
        (openChat id task.request.chatName task.request.uid) room r room'

def serveChatAdduser (env : Extern) (task : Task) : Service :=
  authorized env task (found task.request.chatAdduser "user does not exist" fun a =>
    addressed task.request.chatName fun chat => reply .done (addMember chat a.id))

def serveMessageSendChat (env : Extern) (task : Task) : Service :=
  authorized env task (addressed task.request.chatName fun chat room r room' =>
    ∃ ts, reply .done (publish ⟨task.request.uid, chat, ts, task.request.message⟩) room r room')

def serveIdle (env : Extern) (task : Task) : Service :=
  authorized env task fun room r room' =>
    ∃ now, reply .served (touch task.request.uid now) room r room'

def serve (env : Extern) (task : Task) : Service :=
  match task.cmd with
  | .idle => serveIdle env task
  | .userStatus => serveUserStatus env task
  | .userHistory => serveUserHistory env task
  | .messageSend => serveMessageSend env task
  | .userCreate => serveUserCreate env task
  | .userLogin => serveUserLogin env task
  | .chatCreate => serveChatCreate env task
  | .chatAdduser => serveChatAdduser env task
  | .messageSendChat => serveMessageSendChat env task
  | .chatHistory | .chatStatus | .messageRecent | .cmdLast => fun _ _ _ => False

end Room

/-! ## The room of a store -/

def account (u : User) : Account := ⟨u.id, u.selfChatId, u.heartbit, u.password⟩

@[simp] theorem account_id (u : User) : (account u).id = u.id := rfl
@[simp] theorem account_selfChat (u : User) : (account u).selfChat = u.selfChatId := rfl
@[simp] theorem account_password (u : User) : (account u).password = u.password := rfl

def post (m : Message) : Post := ⟨m.userFrom, m.chatTo, m.ts, m.message⟩

def room (s : Storage) : Room where
  account name := (s.users.find? (·.name = name)).map account
  chat id := (s.chats.find? (·.id = id)).map (·.name)
  member := {m | { chatid := m.1, uid := m.2 } ∈ s.chatuser}
  posts := s.messages.map post

theorem room_init : room {} = Room.empty := by
  simp [room, Room.empty]

section

variable {s s' : Storage}

theorem account_eq_some (h : s.Integrity) {name : Bytes} {a : Account} :
    (room s).account name = some a ↔ ∃ u ∈ s.users, u.name = name ∧ account u = a := by
  simp only [room, Option.map_eq_some_iff]
  constructor
  · rintro ⟨u, hu, rfl⟩
    exact ⟨u, List.mem_of_find?_eq_some hu, by simpa using List.find?_some hu, rfl⟩
  · rintro ⟨u, hu, rfl, rfl⟩
    refine ⟨u, ?_, rfl⟩
    cases hf : s.users.find? (·.name = u.name) with
    | none =>
      have := List.find?_eq_none.mp hf u hu
      simp at this
    | some v =>
      have hv : v.name = u.name := by simpa using List.find?_some hf
      rw [h.user_eq_of_name (List.mem_of_find?_eq_some hf) hu hv]

theorem account_eq_none {name : Bytes} :
    (room s).account name = none ↔ ∀ u ∈ s.users, u.name ≠ name := by
  simp [room]

theorem chat_eq_some (h : s.Integrity) {id : Nat} {name : Bytes} :
    (room s).chat id = some name ↔ { id, name } ∈ s.chats := by
  simp only [room, Option.map_eq_some_iff]
  constructor
  · rintro ⟨c, hc, rfl⟩
    have hid : c.id = id := by simpa using List.find?_some hc
    subst hid
    exact List.mem_of_find?_eq_some hc
  · intro hc
    cases hf : s.chats.find? (·.id = id) with
    | none =>
      have := List.find?_eq_none.mp hf _ hc
      simp at this
    | some d =>
      have hd : d.id = id := by simpa using List.find?_some hf
      exact ⟨d, rfl, by rw [h.chat_eq (List.mem_of_find?_eq_some hf) hc hd]⟩

theorem chat_eq_none {id : Nat} : (room s).chat id = none ↔ ∀ c ∈ s.chats, c.id ≠ id := by
  simp [room]

theorem hasUser_iff (h : s.Integrity) {uid : Nat} :
    (room s).HasUser uid ↔ ∃ u ∈ s.users, u.id = uid := by
  constructor
  · rintro ⟨name, a, ha, rfl⟩
    obtain ⟨u, hu, -, rfl⟩ := (account_eq_some h).mp ha
    exact ⟨u, hu, rfl⟩
  · rintro ⟨u, hu, rfl⟩
    exact ⟨u.name, account u, (account_eq_some h).mpr ⟨u, hu, rfl, rfl⟩, rfl⟩

/-- A name of one chat only finds it. -/
theorem lookupChatByName_eq (h : s.Integrity) {name : Bytes}
    (hone : ∃! id, (room s).chat id = some name) :
    ∃ id, s.lookupChatByName name = [{ id, name }] := by
  obtain ⟨id, hid, honly⟩ := hone
  refine ⟨id, ?_⟩
  have hmem : { id, name } ∈ s.chats := (chat_eq_some h).mp hid
  have hfilter : s.lookupChatByName name = s.chats.filter (· = { id, name }) := by
    unfold Storage.lookupChatByName
    refine List.filter_congr fun c hc => ?_
    have hiff : c.name = name ↔ c = { id, name } := by
      constructor
      · rintro rfl
        have heq : c.id = id := honly c.id ((chat_eq_some h).mpr hc)
        rw [← heq]
      · rintro rfl
        rfl
    simp only [hiff]
  rw [hfilter, List.filter_eq, List.count_eq_one_of_mem h.chatIds_nodup.of_map hmem]
  rfl

/-! ## Rows added -/

theorem setHeartbit_eq_map {id ts : Nat} {users : List User} (h : (users.map (·.id)).Nodup) :
    Storage.setHeartbit id ts users =
      users.map fun u => if u.id = id then { u with heartbit := ts } else u := by
  induction users with
  | nil => rfl
  | cons u us ih =>
    rw [List.map_cons, List.nodup_cons] at h
    unfold Storage.setHeartbit
    split
    · rename_i hid
      -- nobody after this user has the id
      have hrest : us.map (fun u => if u.id = id then { u with heartbit := ts } else u) = us := by
        refine (List.map_congr_left fun v hv => ?_).trans (List.map_id us)
        rw [if_neg fun heq => h.1 (List.mem_map.mpr ⟨v, hv, heq.trans hid.symm⟩)]
        rfl
      simp [hid, hrest]
    · rename_i hid
      simp [hid, ih h.2]

theorem account_append (h : s.Integrity) (h' : s'.Integrity) {u : User}
    (husers : s'.users = s.users ++ [u]) :
    (room s').account = Function.update (room s).account u.name (some (account u)) := by
  refine funext fun name => Option.ext fun a => ?_
  rw [account_eq_some h', husers]
  have hnew : ∀ v ∈ s.users, v.name ≠ u.name := by
    intro v hv heq
    have hnodup := h'.userNames
    rw [husers, List.map_append, List.nodup_append] at hnodup
    exact hnodup.2.2 v.name (List.mem_map_of_mem hv) u.name (by simp) heq
  by_cases hname : name = u.name
  · subst hname
    simp only [Function.update_self, Option.some.injEq, List.mem_append, List.mem_singleton]
    constructor
    · rintro ⟨v, hold | rfl, hvname, rfl⟩
      · exact absurd hvname (hnew v hold)
      · rfl
    · rintro rfl
      exact ⟨u, Or.inr rfl, rfl, rfl⟩
  · rw [Function.update_of_ne hname, account_eq_some h]
    simp only [List.mem_append, List.mem_singleton]
    constructor
    · rintro ⟨v, hold | rfl, hvname, rfl⟩
      · exact ⟨v, hold, hvname, rfl⟩
      · exact absurd hvname.symm hname
    · rintro ⟨v, hv, hvname, rfl⟩
      exact ⟨v, Or.inl hv, hvname, rfl⟩

theorem chat_append (h : s.Integrity) (h' : s'.Integrity) {c : Chat}
    (hchats : s'.chats = s.chats ++ [c]) :
    (room s').chat = Function.update (room s).chat c.id (some c.name) := by
  refine funext fun id => Option.ext fun n => ?_
  rw [chat_eq_some h', hchats]
  have hnew : ∀ d ∈ s.chats, d.id ≠ c.id := by
    intro d hd heq
    have hnodup := h'.chatIds_nodup
    rw [Storage.chatIds, hchats, List.map_append, List.nodup_append] at hnodup
    exact hnodup.2.2 d.id (List.mem_map_of_mem hd) c.id (by simp) heq
  by_cases hid : id = c.id
  · subst hid
    simp only [Function.update_self, Option.some.injEq, List.mem_append, List.mem_singleton]
    constructor
    · rintro (hold | hlast)
      · exact absurd rfl (hnew { id := c.id, name := n } hold)
      · rw [← hlast]
    · rintro rfl
      exact Or.inr rfl
  · rw [Function.update_of_ne hid, chat_eq_some h, List.mem_append, List.mem_singleton]
    constructor
    · rintro (hold | hlast)
      · exact hold
      · exact absurd (congrArg Chat.id hlast) hid
    · exact Or.inl

theorem member_append {r : Chatuser} (hlinks : s'.chatuser = s.chatuser ++ [r]) :
    (room s').member = insert (r.chatid, r.uid) (room s).member := by
  ext ⟨c, u⟩
  obtain ⟨chatid, uid⟩ := r
  simp only [room, hlinks, List.mem_append, List.mem_singleton, Set.mem_ofPred_eq,
    Set.mem_insert_iff, Chatuser.mk.injEq, Prod.mk.injEq]
  exact or_comm

/-! ## What the locked sections do to the room -/

theorem room_updateUserHeartBit (h : s.Integrity) (user : User) (ts : Nat)
    (h' : (s.updateUserHeartBit user ts).Integrity) :
    room (s.updateUserHeartBit user ts) = (room s).touch user.id ts := by
  have hrows : Storage.setHeartbit user.id ts s.users =
      s.users.map fun u => if u.id = user.id then { u with heartbit := ts } else u :=
    setHeartbit_eq_map h.userIds_nodup
  have hname : ∀ u : User,
      (if u.id = user.id then { u with heartbit := ts } else u : User).name = u.name := by
    intro u
    split <;> rfl
  have hrow : ∀ u : User, account (if u.id = user.id then { u with heartbit := ts } else u) =
      if (account u).id = user.id then { account u with heartbit := ts } else account u := by
    intro u
    by_cases hid : u.id = user.id <;> simp [account, hid]
  have haccount : ∀ name a, (room (s.updateUserHeartBit user ts)).account name = some a ↔
      ((room s).touch user.id ts).account name = some a := by
    intro name a
    rw [account_eq_some h']
    simp only [Storage.updateUserHeartBit, hrows, List.mem_map, Room.touch, Option.map_eq_some_iff,
      account_eq_some h]
    constructor
    · rintro ⟨-, ⟨u, hu, rfl⟩, rfl, rfl⟩
      exact ⟨account u, ⟨u, hu, (hname u).symm, rfl⟩, (hrow u).symm⟩
    · rintro ⟨-, ⟨u, hu, rfl, rfl⟩, rfl⟩
      exact ⟨_, ⟨u, hu, rfl⟩, hname u, hrow u⟩
  refine Room.ext (funext fun name => Option.ext fun a => haccount name a) rfl rfl rfl

theorem room_createUser (h : s.Integrity) {name pass stpath : Bytes} {u : User}
    (hc : s.createUser name pass stpath = some (s', u)) (h' : s'.Integrity)
    (hnew : ∀ v ∈ s.users, v.name ≠ name) : room s' = (room s).register name (account u) := by
  rcases Storage.createUser_cases hc with ⟨⟨v, hv, hname⟩, -⟩ | ⟨-, -, -, hu, hs'⟩
  · exact absurd hname (hnew v hv)
  have hname : u.name = name := by rw [hu]
  have husers : s'.users = s.users ++ [u] := by rw [hs']
  have hchats : s'.chats = s.chats ++ [{ id := u.selfChatId, name }] := by rw [hs', hu]
  have hlinks : s'.chatuser = s.chatuser ++ [{ chatid := u.selfChatId, uid := u.id }] := by
    rw [hs', hu]
  refine Room.ext ?_ (chat_append h h' hchats) (member_append hlinks) ?_
  · rw [account_append h h' husers, hname]
    rfl
  · rw [hs']
    rfl

theorem room_createChat (h : s.Integrity) {name : Bytes} {uid : Nat} {c : Chat}
    (hc : s.createChat name uid = some (s', c)) (h' : s'.Integrity) (huid : 0 < uid)
    (hnew : ∀ d ∈ s.chats, d.name ≠ name) : room s' = (room s).openChat c.id name uid := by
  rcases Storage.createChat_cases hc with ⟨⟨d, hd, hname⟩, -⟩ | ⟨-, -, hchat, hs'⟩
  · exact absurd hname (hnew d hd)
  have hchats : s'.chats = s.chats ++ [{ id := c.id, name }] := by rw [hs', hchat]
  have hlinks : s'.chatuser = s.chatuser ++ [{ chatid := c.id, uid }] := by
    rw [hs', hchat]
    simp [huid]
  refine Room.ext ?_ (chat_append h h' hchats) (member_append hlinks) ?_
  · rw [hs']
    rfl
  · rw [hs']
    rfl

theorem room_addUserToChat {chat : Chat} {user : User} (hc : s.addUserToChat chat user = some s') :
    room s' = (room s).addMember chat.id user.id := by
  rcases Storage.addUserToChat_cases hc with ⟨hmem, rfl⟩ | ⟨-, hs'⟩
  · refine Room.ext rfl rfl ?_ rfl
    exact (Set.insert_eq_of_mem (show (chat.id, user.id) ∈ (room s').member from hmem)).symm
  · refine Room.ext ?_ ?_ (member_append (r := { chatid := chat.id, uid := user.id }) ?_) ?_
    all_goals rw [hs']
    all_goals rfl

theorem room_saveMessage {msg : Message} (hc : s.saveMessage msg = some s') :
    room s' = (room s).publish (post msg) := by
  rw [Storage.saveMessage_eq hc]
  simp [room, Room.publish]

theorem post_body (m : Message) : post m.body = post m := rfl

/-- Read marks are not part of the room. -/
theorem room_getMessages {chatid : Nat} {opt : GetMsgOpt} {msgs : List Message}
    (hc : s.getMessages chatid opt = some (s', msgs)) : room s' = room s := by
  obtain ⟨marked, hbody, heq⟩ := Storage.getMessages_eq s chatid opt
  obtain ⟨rfl, -⟩ := Prod.mk.inj (Option.some.inj (heq.symm.trans hc))
  have hposts : marked.map post = s.messages.map post := by
    have hmap := congrArg (List.map post) hbody
    simpa [Function.comp_def, post_body] using hmap
  exact Room.ext rfl rfl rfl hposts

end

end O2Chat.Server
