import O2Chat.Db.Storage

/-!
# What one locked section does to the store

`Call` lists the locked sections of `InMemoryConnection` and `Call.exec` runs one
of them. The `_cases` lemmas say everything a section can do; `Extends` is what all
of them have in common: rows are only appended, and of a stored row only the
heartbeat of a user and the flags of a message ever change.
-/
namespace O2Chat.Db

open O2Chat.Common

inductive Call
  | updateUserHeartBit (user : User) (ts : Nat)
  | createUser (name pass stpath : Bytes)
  | createChat (name : Bytes) (uid : Nat)
  | lookupUserByName (name : Bytes)
  | lookupUserById (id : Nat)
  | chatIdsForUserId (uid : Nat)
  | lookupChatByName (name : Bytes)
  | lookupChatById (chatid : Nat)
  | userIdsForChatId (chatid : Nat)
  | addUserToChat (chat : Chat) (user : User)
  | saveMessage (msg : Message)
  | getMessages (chatid : Nat) (opt : GetMsgOpt)
  | selectMessages (pred : Message → Bool) (opt : GetMsgOpt)

namespace Call

@[reducible] def Result : Call → Type
  | .updateUserHeartBit .. => Unit
  | .createUser .. => User
  | .createChat .. => Chat
  | .lookupUserByName _ => List User
  | .lookupUserById _ => User
  | .chatIdsForUserId _ => List Nat
  | .lookupChatByName _ => List Chat
  | .lookupChatById _ => Chat
  | .userIdsForChatId _ => List Nat
  | .addUserToChat .. => Unit
  | .saveMessage _ => Unit
  | .getMessages .. => List Message
  | .selectMessages .. => List Message

def exec : (c : Call) → Storage → Option (Storage × c.Result)
  | .updateUserHeartBit user ts, s => some (s.updateUserHeartBit user ts, ())
  | .createUser name pass stpath, s => s.createUser name pass stpath
  | .createChat name uid, s => s.createChat name uid
  | .lookupUserByName name, s => some (s, s.lookupUserByName name)
  | .lookupUserById id, s => some (s, s.lookupUserById id)
  | .chatIdsForUserId uid, s => some (s, s.chatIdsForUserId uid)
  | .lookupChatByName name, s => some (s, s.lookupChatByName name)
  | .lookupChatById chatid, s => some (s, s.lookupChatById chatid)
  | .userIdsForChatId chatid, s => some (s, s.userIdsForChatId chatid)
  | .addUserToChat chat user, s => (s.addUserToChat chat user).map (·, ())
  | .saveMessage msg, s => (s.saveMessage msg).map (·, ())
  | .getMessages chatid opt, s => s.getMessages chatid opt
  | .selectMessages pred opt, s => (s.selectMessages pred opt).map (s, ·)

end Call

/-- The store after one locked section with any arguments. -/
def Storage.step (s : Storage) (c : Call) : Option Storage := (c.exec s).map (·.1)

/-! ## The scans -/

namespace Storage

/-- The first `max_count` elements, or all of them when there is no limit. -/
def limited (opt : GetMsgOpt) (l : List Message) : List Message :=
  if opt.maxCount = 0 then l else l.take opt.maxCount

theorem limited_sublist (opt : GetMsgOpt) (l : List Message) : List.Sublist (limited opt l) l := by
  unfold limited
  split
  · exact List.Sublist.refl l
  · exact List.take_sublist _ l

/-- The messages `getMessages` looks for. -/
def newer (chatid ts : Nat) (m : Message) : Bool := m.chatTo = chatid ∧ ts < m.ts

theorem newer_iff {chatid ts : Nat} {m : Message} :
    newer chatid ts m = true ↔ m.chatTo = chatid ∧ ts < m.ts := decide_eq_true_iff

theorem full_eq_false {opt : GetMsgOpt} {ret : List Message} :
    full opt ret = false ↔ opt.maxCount = 0 ∨ ret.length < opt.maxCount := by
  by_cases h : opt.maxCount = 0 <;> simp [full, h]

theorem take_succ_reverse {table : List Message} {i : Nat} {m : Message}
    (h : table[i]? = some m) : (table.take (i + 1)).reverse = m :: (table.take i).reverse := by
  rw [List.take_add_one, h]
  simp

/-- The backward loop collects, after what it has already, the hits at and below its
index, newest first, up to the limit. -/
theorem selectMessagesLoop_eq (pred : Message → Bool) (opt : GetMsgOpt) (table : List Message) :
    ∀ (i : Nat) (ret : List Message), i < table.length → full opt ret = false →
      selectMessagesLoop pred opt table i ret =
        some (ret ++ if opt.maxCount = 0 then (table.take (i + 1)).reverse.filter pred
          else ((table.take (i + 1)).reverse.filter pred).take (opt.maxCount - ret.length)) := by
  intro i
  induction i with
  | zero =>
    intro ret hi hfull
    have hm : table[0]? = some table[0] := List.getElem?_eq_getElem hi
    rw [take_succ_reverse hm]
    unfold selectMessagesLoop
    simp only [hm, List.take_zero, List.reverse_nil, List.filter_cons, List.filter_nil]
    by_cases hp : pred table[0] = true
    · simp only [hp, if_true]
      rw [full_eq_false] at hfull
      have htake : [table[0]].take (opt.maxCount - ret.length) = [table[0]] ∨ opt.maxCount = 0 := by
        rcases hfull with h0 | hlt
        · exact Or.inr h0
        · exact Or.inl (List.take_of_length_le (by simp; omega))
      rcases htake with ht | h0
      · simp [ht]
      · simp [h0]
    · simp [hp]
  | succ i ih =>
    intro ret hi hfull
    have hm : table[i + 1]? = some table[i + 1] := List.getElem?_eq_getElem hi
    rw [take_succ_reverse hm]
    unfold selectMessagesLoop
    simp only [hm, List.filter_cons]
    by_cases hp : pred table[i + 1] = true
    · simp only [hp, if_true]
      by_cases hfull' : full opt (ret ++ [table[i + 1]]) = true
      · -- the limit is reached by this very message
        have hlim : opt.maxCount ≠ 0 ∧ opt.maxCount ≤ ret.length + 1 := by
          simpa [full] using hfull'
        rw [full_eq_false] at hfull
        have hone : opt.maxCount - ret.length = 1 := by omega
        simp [hfull', hlim.1, hone]
      · have hnot : full opt (ret ++ [table[i + 1]]) = false := by simpa using hfull'
        rw [if_neg hfull', ih _ (by omega) hnot]
        rw [full_eq_false] at hnot
        by_cases h0 : opt.maxCount = 0
        · simp [h0]
        · have hlt : ret.length + 1 < opt.maxCount := by simpa [h0] using hnot
          obtain ⟨d, hd⟩ : ∃ d, opt.maxCount - ret.length = d + 1 :=
            ⟨opt.maxCount - ret.length - 1, by omega⟩
          have hd' : opt.maxCount - (ret.length + 1) = d := by omega
          simp [h0, hd, hd']
    · simp only [if_neg hp, hfull, Bool.false_eq_true, if_false]
      exact ih _ (by omega) hfull

/-- `selectMessages` returns the newest messages satisfying the predicate. -/
theorem selectMessages_eq (s : Storage) (pred : Message → Bool) (opt : GetMsgOpt) :
    s.selectMessages pred opt = some (limited opt (s.messages.reverse.filter pred)) := by
  unfold selectMessages
  by_cases h : s.messages = []
  · simp [h, limited]
  · have hpos : 0 < s.messages.length := List.length_pos_of_ne_nil h
    have hempty : full opt [] = false := by
      rw [full_eq_false]
      simp only [List.length_nil]
      omega
    rw [if_neg h, selectMessagesLoop_eq pred opt _ _ _ (by omega) hempty,
      Nat.sub_add_cancel (by omega : 1 ≤ s.messages.length), List.take_length]
    simp [limited]

end Storage

/-! ## Columns that never change -/

/-- A stored message without its flags. -/
def Message.body (m : Message) : Message := { m with flags := .unread }

/-- A stored user without the heartbeat. -/
def User.key (u : User) : User := { u with heartbit := 0 }

@[simp] theorem Message.body_chatTo (m : Message) : m.body.chatTo = m.chatTo := rfl
@[simp] theorem Message.body_ts (m : Message) : m.body.ts = m.ts := rfl
@[simp] theorem Message.body_message (m : Message) : m.body.message = m.message := rfl
@[simp] theorem Message.body_userFrom (m : Message) : m.body.userFrom = m.userFrom := rfl
@[simp] theorem User.key_id (u : User) : u.key.id = u.id := rfl
@[simp] theorem User.key_selfChatId (u : User) : u.key.selfChatId = u.selfChatId := rfl
@[simp] theorem User.key_name (u : User) : u.key.name = u.name := rfl
@[simp] theorem User.key_password (u : User) : u.key.password = u.password := rfl

/-- The columns that two rows with the same key share. -/
theorem User.of_key_eq {u v : User} (h : u.key = v.key) :
    u.id = v.id ∧ u.selfChatId = v.selfChatId ∧ u.name = v.name ∧ u.password = v.password := by
  simp only [User.key, User.mk.injEq] at h
  exact ⟨h.1, h.2.1, h.2.2.2.1, h.2.2.2.2.1⟩

theorem Message.of_body_eq {m n : Message} (h : m.body = n.body) :
    m.userFrom = n.userFrom ∧ m.chatTo = n.chatTo ∧ m.ts = n.ts ∧ m.message = n.message := by
  simp only [Message.body, Message.mk.injEq] at h
  exact ⟨h.2.1, h.2.2.1, h.2.2.2.1, h.2.2.2.2⟩

namespace Storage

theorem map_body_set {table : List Message} {i : Nat} {m : Message} (h : table[i]? = some m)
    (f : Flags) : (table.set i { m with flags := f }).map Message.body = table.map Message.body := by
  obtain ⟨hi, rfl⟩ := List.getElem?_eq_some_iff.mp h
  rw [List.map_set]
  apply List.ext_getElem (by simp)
  intro j hj _
  rw [List.getElem_set]
  split
  · subst_vars
    simp [Message.body]
  · rfl

theorem getElem?_of_take_succ {l l' : List Message} {i : Nat}
    (h : l.take (i + 1) = l'.take (i + 1)) : l[i]? = l'[i]? := by
  have hget := congrArg (·[i]?) h
  simpa [List.getElem?_take] using hget

/-- The loop of `getMessages` returns what `selectMessages` does with its condition
and changes nothing but flags. -/
theorem getMessagesLoop_eq (chatid : Nat) (opt : GetMsgOpt) (table : List Message) :
    ∀ (i : Nat) (current ret : List Message), i < table.length →
      current.map Message.body = table.map Message.body →
      current.take (i + 1) = table.take (i + 1) → ∃ marked,
        marked.map Message.body = table.map Message.body ∧
        getMessagesLoop chatid opt i current ret =
          (selectMessagesLoop (newer chatid opt.ts) opt table i ret).map (marked, ·) := by
  intro i
  induction i with
  | zero =>
    intro current ret hi hbody htake
    have hget : current[0]? = table[0]? := getElem?_of_take_succ htake
    have hm : table[0]? = some table[0] := List.getElem?_eq_getElem hi
    rw [hm] at hget
    unfold getMessagesLoop selectMessagesLoop
    simp only [hget, hm, newer, decide_eq_true_eq]
    by_cases hhit : table[0].chatTo = chatid ∧ opt.ts < table[0].ts
    · refine ⟨current.set 0 { table[0] with flags := .read },
        (map_body_set hget _).trans hbody, ?_⟩
      rw [if_pos hhit, if_pos hhit]
      split <;> rfl
    · refine ⟨current, hbody, ?_⟩
      rw [if_neg hhit, if_neg hhit]
      split <;> rfl
  | succ i ih =>
    intro current ret hi hbody htake
    have hget : current[i + 1]? = table[i + 1]? := getElem?_of_take_succ htake
    have hm : table[i + 1]? = some table[i + 1] := List.getElem?_eq_getElem hi
    rw [hm] at hget
    have hbelow : current.take (i + 1) = table.take (i + 1) := by
      have := congrArg (List.take (i + 1)) htake
      simpa [List.take_take] using this
    unfold getMessagesLoop selectMessagesLoop
    simp only [hget, hm, newer, decide_eq_true_eq]
    by_cases hhit : table[i + 1].chatTo = chatid ∧ opt.ts < table[i + 1].ts
    · rw [if_pos hhit, if_pos hhit]
      have hmark := (map_body_set hget .read).trans hbody
      split
      · exact ⟨_, hmark, rfl⟩
      · have hkeep : (current.set (i + 1) { table[i + 1] with flags := .read }).take (i + 1) =
            table.take (i + 1) := by
          rw [List.take_set_of_le (Nat.le_refl _)]
          exact hbelow
        simpa only [newer] using ih _ _ (by omega) hmark hkeep
    · rw [if_neg hhit, if_neg hhit]
      split
      · exact ⟨_, hbody, rfl⟩
      · simpa only [newer] using ih _ _ (by omega) hbody hbelow

/-- `getMessages` returns the newest messages of the chat that are newer than
`opt.ts` and changes nothing but flags. -/
theorem getMessages_eq (s : Storage) (chatid : Nat) (opt : GetMsgOpt) : ∃ marked,
    marked.map Message.body = s.messages.map Message.body ∧
    s.getMessages chatid opt =
      some ({ s with messages := marked },
        limited opt (s.messages.reverse.filter (newer chatid opt.ts))) := by
  have hsel := selectMessages_eq s (newer chatid opt.ts) opt
  unfold selectMessages at hsel
  unfold getMessages
  by_cases h : s.messages = []
  · refine ⟨s.messages, rfl, ?_⟩
    rw [if_pos h] at hsel ⊢
    rw [← Option.some.inj hsel]
  · have hpos : 0 < s.messages.length := List.length_pos_of_ne_nil h
    rw [if_neg h] at hsel ⊢
    obtain ⟨marked, hbody, heq⟩ := getMessagesLoop_eq chatid opt s.messages (s.messages.length - 1)
      s.messages [] (by omega) rfl rfl
    refine ⟨marked, hbody, ?_⟩
    rw [heq, hsel]
    rfl

/-! ## Everything a writing section can do -/

theorem emplaceBack_eq {α : Type} {v v' : List α} {x : α} (h : emplaceBack v x = some v') :
    v.length < vectorMaxSize ∧ v' = v ++ [x] := by
  unfold emplaceBack at h
  split at h
  · rename_i hroom
    exact ⟨hroom, (Option.some.inj h).symm⟩
  · cases h

theorem createUser_cases {s s' : Storage} {name pass stpath : Bytes} {u : User}
    (h : s.createUser name pass stpath = some (s', u)) :
    ((∃ v ∈ s.users, v.name = name) ∧ s' = s ∧ u = {}) ∨
    ((∀ v ∈ s.users, v.name ≠ name) ∧ s.chats.length < vectorMaxSize ∧
      s.users.length < vectorMaxSize ∧
      u = { id := s.userAutoincrement, selfChatId := s.chatAutoincrement, name,
            password := pass, stpath } ∧
      s' = { s with
        chatAutoincrement := (s.chatAutoincrement + 1) % 2 ^ 64
        userAutoincrement := (s.userAutoincrement + 1) % 2 ^ 64
        chats := s.chats ++ [{ id := s.chatAutoincrement, name }]
        users := s.users ++ [u]
        chatuser := s.chatuser ++ [{ chatid := s.chatAutoincrement, uid := s.userAutoincrement }] }) := by
  unfold createUser at h
  split at h
  · rename_i hany
    obtain ⟨rfl, rfl⟩ := Prod.mk.inj (Option.some.inj h)
    left
    simpa using hany
  · rename_i hnone
    right
    obtain ⟨chats, hchats, h⟩ := Option.bind_eq_some_iff.mp h
    obtain ⟨users, husers, h⟩ := Option.bind_eq_some_iff.mp h
    obtain ⟨links, hlinks, h⟩ := Option.bind_eq_some_iff.mp h
    obtain ⟨hc, rfl⟩ := emplaceBack_eq hchats
    obtain ⟨hu, rfl⟩ := emplaceBack_eq husers
    obtain ⟨-, rfl⟩ := emplaceBack_eq hlinks
    obtain ⟨rfl, rfl⟩ := Prod.mk.inj (Option.some.inj h)
    exact ⟨by simpa using hnone, hc, hu, rfl, rfl⟩

theorem createChat_cases {s s' : Storage} {name : Bytes} {uid : Nat} {c : Chat}
    (h : s.createChat name uid = some (s', c)) :
    ((∃ d ∈ s.chats, d.name = name) ∧ s' = s ∧ c = {}) ∨
    ((∀ d ∈ s.chats, d.name ≠ name) ∧ s.chats.length < vectorMaxSize ∧
      c = { id := s.chatAutoincrement, name } ∧
      s' = { s with
        chatAutoincrement := (s.chatAutoincrement + 1) % 2 ^ 64
        chats := s.chats ++ [c]
        chatuser := s.chatuser ++
          if 0 < uid then [{ chatid := s.chatAutoincrement, uid }] else [] }) := by
  unfold createChat at h
  split at h
  · rename_i hany
    obtain ⟨rfl, rfl⟩ := Prod.mk.inj (Option.some.inj h)
    left
    simpa using hany
  · rename_i hnone
    right
    obtain ⟨chats, hchats, h⟩ := Option.bind_eq_some_iff.mp h
    obtain ⟨hc, rfl⟩ := emplaceBack_eq hchats
    split at h
    · rename_i huid
      obtain ⟨links, hlinks, h⟩ := Option.bind_eq_some_iff.mp h
      obtain ⟨-, rfl⟩ := emplaceBack_eq hlinks
      obtain ⟨rfl, rfl⟩ := Prod.mk.inj (Option.some.inj h)
      exact ⟨by simpa using hnone, hc, rfl, by simp [huid]⟩
    · rename_i huid
      obtain ⟨rfl, rfl⟩ := Prod.mk.inj (Option.some.inj h)
      exact ⟨by simpa using hnone, hc, rfl, by simp [huid]⟩

theorem addUserToChat_cases {s s' : Storage} {chat : Chat} {user : User}
    (h : s.addUserToChat chat user = some s') :
    ({ chatid := chat.id, uid := user.id } ∈ s.chatuser ∧ s' = s) ∨
    ({ chatid := chat.id, uid := user.id } ∉ s.chatuser ∧
      s' = { s with chatuser := s.chatuser ++ [{ chatid := chat.id, uid := user.id }] }) := by
  have hrow : (s.chatuser.any fun r => r.chatid = chat.id ∧ r.uid = user.id) = true ↔
      ({ chatid := chat.id, uid := user.id } : Chatuser) ∈ s.chatuser := by
    simp only [List.any_eq_true, decide_eq_true_eq]
    constructor
    · rintro ⟨⟨c, u⟩, hm, rfl, rfl⟩
      exact hm
    · intro hm
      exact ⟨_, hm, rfl, rfl⟩
  unfold addUserToChat at h
  split at h
  · rename_i hany
    exact Or.inl ⟨hrow.mp hany, (Option.some.inj h).symm⟩
  · rename_i hany
    obtain ⟨links, hlinks, h⟩ := Option.bind_eq_some_iff.mp h
    obtain ⟨-, rfl⟩ := emplaceBack_eq hlinks
    exact Or.inr ⟨fun hm => hany (hrow.mpr hm), (Option.some.inj h).symm⟩

theorem saveMessage_eq {s s' : Storage} {msg : Message} (h : s.saveMessage msg = some s') :
    s' = { s with messages := s.messages ++ [msg] } := by
  obtain ⟨messages, hm, h⟩ := Option.bind_eq_some_iff.mp h
  obtain ⟨-, rfl⟩ := emplaceBack_eq hm
  exact (Option.some.inj h).symm

theorem map_key_setHeartbit (id ts : Nat) (users : List User) :
    (setHeartbit id ts users).map User.key = users.map User.key := by
  induction users with
  | nil => rfl
  | cons u us ih =>
    unfold setHeartbit
    split
    · simp [User.key]
    · simp [ih]

/-! ## The store only grows -/

/-- Rows are appended; stored rows keep their columns, except a user's heartbeat and
a message's flags. -/
structure Extends (s s' : Storage) : Prop where
  chats : s.chats <+: s'.chats
  users : s.users.map User.key <+: s'.users.map User.key
  chatuser : s.chatuser <+: s'.chatuser
  messages : s.messages.map Message.body <+: s'.messages.map Message.body

theorem Extends.refl (s : Storage) : s.Extends s :=
  ⟨List.prefix_rfl, List.prefix_rfl, List.prefix_rfl, List.prefix_rfl⟩

theorem Extends.trans {a b c : Storage} (h : a.Extends b) (h' : b.Extends c) : a.Extends c :=
  ⟨h.chats.trans h'.chats, h.users.trans h'.users, h.chatuser.trans h'.chatuser,
    h.messages.trans h'.messages⟩

/-- A stored user is still stored, up to the heartbeat. -/
theorem Extends.user {s s' : Storage} (h : s.Extends s') {u : User} (hu : u ∈ s.users) :
    ∃ v ∈ s'.users, v.key = u.key := by
  have := h.users.subset (List.mem_map_of_mem hu)
  simpa using this

end Storage

/-- The sections that only read. -/
def Call.readOnly : Call → Bool
  | .lookupUserByName _ | .lookupUserById _ | .chatIdsForUserId _ | .lookupChatByName _
  | .lookupChatById _ | .userIdsForChatId _ | .selectMessages .. => true
  | _ => false

theorem Call.exec_readOnly {c : Call} (hc : c.readOnly = true) {s s' : Storage} {r : c.Result}
    (h : c.exec s = some (s', r)) : s' = s := by
  cases c <;> simp only [Call.readOnly, Bool.false_eq_true] at hc <;>
    simp only [Call.exec, Option.map_eq_some_iff, Option.some.injEq, Prod.mk.injEq] at h
  case selectMessages =>
    obtain ⟨_, -, rfl, -⟩ := h
    rfl
  all_goals exact h.1.symm

/-- Every locked section extends the store. -/
theorem Call.exec_extends {c : Call} {s s' : Storage} {r : c.Result}
    (h : c.exec s = some (s', r)) : s.Extends s' := by
  by_cases hro : c.readOnly = true
  · rw [Call.exec_readOnly hro h]
    exact .refl s
  cases c <;> simp only [Call.readOnly, not_true_eq_false] at hro
  case updateUserHeartBit user ts =>
    obtain ⟨rfl, -⟩ := Prod.mk.inj (Option.some.inj h)
    exact ⟨List.prefix_rfl, by simp [Storage.updateUserHeartBit, Storage.map_key_setHeartbit],
      List.prefix_rfl, List.prefix_rfl⟩
  case createUser name pass stpath =>
    rcases Storage.createUser_cases h with ⟨-, rfl, -⟩ | ⟨-, -, -, -, rfl⟩
    · exact .refl _
    · exact ⟨List.prefix_append _ _, by simp, List.prefix_append _ _, List.prefix_rfl⟩
  case createChat name uid =>
    rcases Storage.createChat_cases h with ⟨-, rfl, -⟩ | ⟨-, -, -, rfl⟩
    · exact .refl _
    · exact ⟨List.prefix_append _ _, List.prefix_rfl, List.prefix_append _ _, List.prefix_rfl⟩
  case addUserToChat chat user =>
    obtain ⟨t, ht, heq⟩ := Option.map_eq_some_iff.mp h
    obtain ⟨rfl, -⟩ := Prod.mk.inj heq
    rcases Storage.addUserToChat_cases ht with ⟨-, rfl⟩ | ⟨-, rfl⟩
    · exact .refl _
    · exact ⟨List.prefix_rfl, List.prefix_rfl, List.prefix_append _ _, List.prefix_rfl⟩
  case saveMessage msg =>
    obtain ⟨t, ht, heq⟩ := Option.map_eq_some_iff.mp h
    obtain ⟨rfl, -⟩ := Prod.mk.inj heq
    rw [Storage.saveMessage_eq ht]
    exact ⟨List.prefix_rfl, List.prefix_rfl, List.prefix_rfl, by simp⟩
  case getMessages chatid opt =>
    obtain ⟨marked, hbody, heq⟩ := Storage.getMessages_eq s chatid opt
    obtain ⟨rfl, -⟩ := Prod.mk.inj (Option.some.inj (heq.symm.trans h))
    exact ⟨List.prefix_rfl, List.prefix_rfl, List.prefix_rfl, hbody ▸ List.prefix_rfl⟩

/-- Only saving changes the messages, apart from their flags. -/
theorem Call.exec_bodies {c : Call} {s s' : Storage} {r : c.Result}
    (hc : ∀ msg, c ≠ .saveMessage msg) (h : c.exec s = some (s', r)) :
    s'.messages.map Message.body = s.messages.map Message.body := by
  by_cases hro : c.readOnly = true
  · rw [Call.exec_readOnly hro h]
  cases c <;> simp only [Call.readOnly, not_true_eq_false] at hro
  case updateUserHeartBit user ts =>
    obtain ⟨rfl, -⟩ := Prod.mk.inj (Option.some.inj h)
    rfl
  case createUser name pass stpath =>
    rcases Storage.createUser_cases h with ⟨-, rfl, -⟩ | ⟨-, -, -, -, rfl⟩ <;> rfl
  case createChat name uid =>
    rcases Storage.createChat_cases h with ⟨-, rfl, -⟩ | ⟨-, -, -, rfl⟩ <;> rfl
  case addUserToChat chat user =>
    obtain ⟨t, ht, heq⟩ := Option.map_eq_some_iff.mp h
    obtain ⟨rfl, -⟩ := Prod.mk.inj heq
    rcases Storage.addUserToChat_cases ht with ⟨-, rfl⟩ | ⟨-, rfl⟩ <;> rfl
  case saveMessage msg => exact absurd rfl (hc msg)
  case getMessages chatid opt =>
    obtain ⟨marked, hbody, heq⟩ := Storage.getMessages_eq s chatid opt
    obtain ⟨rfl, -⟩ := Prod.mk.inj (Option.some.inj (heq.symm.trans h))
    exact hbody

end O2Chat.Db
