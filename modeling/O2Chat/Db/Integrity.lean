import Mathlib.Data.List.Nodup
import O2Chat.Db.Calls

/-!
# Integrity of the store

The tables refer to each other through ids and names. `Integrity` is what holds of
them in every state the workers can produce, and `Call.Valid` what a caller has to
know about its arguments to keep it. Both are about rows that are never deleted or
renamed, so a fact looked up in one locked section still holds in the next.
-/
namespace O2Chat.Db

open O2Chat.Common

namespace Storage

def userIds (s : Storage) : List Nat := s.users.map (·.id)

def chatIds (s : Storage) : List Nat := s.chats.map (·.id)

structure Integrity (s : Storage) : Prop where
  userIds : s.userIds = List.range' 1 s.users.length
  chatIds : s.chatIds = List.range' 1 s.chats.length
  userCounter : s.userAutoincrement = s.users.length + 1
  chatCounter : s.chatAutoincrement = s.chats.length + 1
  userNames : (s.users.map (·.name)).Nodup
  selfChat : ∀ u ∈ s.users, { id := u.selfChatId, name := u.name } ∈ s.chats ∧
    { chatid := u.selfChatId, uid := u.id } ∈ s.chatuser
  chatuserNodup : s.chatuser.Nodup
  links : ∀ r ∈ s.chatuser, r.chatid ∈ s.chatIds ∧ r.uid ∈ s.userIds
  messages : ∀ m ∈ s.messages, m.userFrom ∈ s.userIds ∧ m.chatTo ∈ s.chatIds

theorem integrity_empty : Integrity {} := by
  constructor <;> simp [userIds, chatIds]

/-! ## Reading a store with integrity -/

section

variable {s s' : Storage}

theorem Integrity.userId_pos (h : s.Integrity) {u : User} (hu : u ∈ s.users) :
    1 ≤ u.id ∧ u.id < s.userAutoincrement := by
  have hm : u.id ∈ s.userIds := List.mem_map_of_mem hu
  rw [h.userIds, List.mem_range'_1] at hm
  rw [h.userCounter]
  omega

theorem Integrity.chatId_pos (h : s.Integrity) {c : Chat} (hc : c ∈ s.chats) :
    1 ≤ c.id ∧ c.id < s.chatAutoincrement := by
  have hm : c.id ∈ s.chatIds := List.mem_map_of_mem hc
  rw [h.chatIds, List.mem_range'_1] at hm
  rw [h.chatCounter]
  omega

theorem Integrity.chatIds_nodup (h : s.Integrity) : s.chatIds.Nodup := by
  rw [h.chatIds]
  exact List.nodup_range'

theorem Integrity.userIds_nodup (h : s.Integrity) : s.userIds.Nodup := by
  rw [h.userIds]
  exact List.nodup_range'

/-- An id names one user. -/
theorem Integrity.user_eq (h : s.Integrity) {u v : User} (hu : u ∈ s.users) (hv : v ∈ s.users)
    (hid : u.id = v.id) : u = v :=
  List.inj_on_of_nodup_map h.userIds_nodup hu hv hid

theorem Integrity.user_eq_of_name (h : s.Integrity) {u v : User} (hu : u ∈ s.users)
    (hv : v ∈ s.users) (hname : u.name = v.name) : u = v :=
  List.inj_on_of_nodup_map h.userNames hu hv hname

theorem Integrity.chat_eq (h : s.Integrity) {c d : Chat} (hc : c ∈ s.chats) (hd : d ∈ s.chats)
    (hid : c.id = d.id) : c = d :=
  List.inj_on_of_nodup_map h.chatIds_nodup hc hd hid

theorem mem_of_lookupUserById {id : Nat} (h : (s.lookupUserById id).id ≠ 0) :
    s.lookupUserById id ∈ s.users ∧ (s.lookupUserById id).id = id := by
  unfold lookupUserById at *
  cases hf : s.users.find? (·.id = id) with
  | none => simp [hf] at h
  | some u =>
    simp only [Option.getD_some]
    exact ⟨List.mem_of_find?_eq_some hf, by simpa using List.find?_some hf⟩

theorem Integrity.lookupUserById_eq (h : s.Integrity) {u : User} (hu : u ∈ s.users) :
    s.lookupUserById u.id = u := by
  unfold lookupUserById
  cases hf : s.users.find? (·.id = u.id) with
  | none =>
    have := List.find?_eq_none.mp hf u hu
    simp at this
  | some v =>
    have hv : v.id = u.id := by simpa using List.find?_some hf
    exact h.user_eq (List.mem_of_find?_eq_some hf) hu hv

/-- A stored chat id is found again as the id of its row. -/
theorem mem_of_lookupChatById {id : Nat} (h : id ∈ s.chatIds) :
    s.lookupChatById id ∈ s.chats ∧ (s.lookupChatById id).id = id := by
  unfold lookupChatById
  obtain ⟨c, hc, rfl⟩ := List.mem_map.mp h
  cases hf : s.chats.find? (·.id = c.id) with
  | none =>
    have := List.find?_eq_none.mp hf c hc
    simp at this
  | some d =>
    simp only [Option.getD_some]
    exact ⟨List.mem_of_find?_eq_some hf, by simpa using List.find?_some hf⟩

theorem mem_lookupUserByName {name : Bytes} {u : User} (h : u ∈ s.lookupUserByName name) :
    u ∈ s.users ∧ u.name = name := by
  simpa [lookupUserByName] using h

/-- A name finds one user. -/
theorem Integrity.lookupUserByName_eq (h : s.Integrity) {u : User} (hu : u ∈ s.users) :
    s.lookupUserByName u.name = [u] := by
  have hfilter : s.lookupUserByName u.name = s.users.filter (· = u) := by
    unfold lookupUserByName
    refine List.filter_congr fun v hv => ?_
    have hiff : v.name = u.name ↔ v = u := ⟨h.user_eq_of_name hv hu, fun heq => by rw [heq]⟩
    simp only [hiff]
  rw [hfilter, List.filter_eq, List.count_eq_one_of_mem h.userNames.of_map hu]
  rfl

theorem mem_lookupChatByName {name : Bytes} {c : Chat} (h : c ∈ s.lookupChatByName name) :
    c ∈ s.chats ∧ c.name = name := by
  simpa [lookupChatByName] using h

theorem mem_chatIdsForUserId {uid cid : Nat} :
    cid ∈ s.chatIdsForUserId uid ↔ { chatid := cid, uid } ∈ s.chatuser := by
  simp only [chatIdsForUserId, List.mem_map, List.mem_filter, decide_eq_true_eq]
  constructor
  · rintro ⟨⟨c, u⟩, ⟨hm, rfl⟩, rfl⟩
    exact hm
  · intro hm
    exact ⟨_, ⟨hm, rfl⟩, rfl⟩

theorem mem_userIdsForChatId {uid cid : Nat} :
    uid ∈ s.userIdsForChatId cid ↔ { chatid := cid, uid } ∈ s.chatuser := by
  simp only [userIdsForChatId, List.mem_map, List.mem_filter, decide_eq_true_eq]
  constructor
  · rintro ⟨⟨c, u⟩, ⟨hm, rfl⟩, rfl⟩
    exact hm
  · intro hm
    exact ⟨_, ⟨hm, rfl⟩, rfl⟩

/-! ## Ids stay stored -/

theorem map_id_eq_of_map_key {us vs : List User} (h : us.map User.key = vs.map User.key) :
    us.map (·.id) = vs.map (·.id) ∧ us.map (·.name) = vs.map (·.name) := by
  have hid := congrArg (List.map User.id) h
  have hname := congrArg (List.map User.name) h
  simp only [List.map_map] at hid hname
  exact ⟨hid, hname⟩

/-! ## Keeping integrity -/

/-- Heartbeats and message flags do not matter. -/
theorem Integrity.congr (h : s.Integrity) (hchats : s'.chats = s.chats)
    (hchatuser : s'.chatuser = s.chatuser)
    (hucount : s'.userAutoincrement = s.userAutoincrement)
    (hccount : s'.chatAutoincrement = s.chatAutoincrement)
    (husers : s'.users.map User.key = s.users.map User.key)
    (hmessages : s'.messages.map Message.body = s.messages.map Message.body) : s'.Integrity := by
  obtain ⟨hids, hnames⟩ := map_id_eq_of_map_key husers
  have hlen : s'.users.length = s.users.length := by simpa using congrArg List.length husers
  have hci : s'.chatIds = s.chatIds := congrArg (List.map Chat.id) hchats
  refine ⟨?_, ?_, ?_, ?_, ?_, ?_, hchatuser ▸ h.chatuserNodup, ?_, ?_⟩
  · rw [hlen, ← h.userIds]
    exact hids
  · rw [hci, hchats]
    exact h.chatIds
  · rw [hucount, hlen]
    exact h.userCounter
  · rw [hccount, hchats]
    exact h.chatCounter
  · rw [hnames]
    exact h.userNames
  · intro v hv
    obtain ⟨u, hu, hkey⟩ : ∃ u ∈ s.users, u.key = v.key := by
      have hm : v.key ∈ s'.users.map User.key := List.mem_map_of_mem hv
      rw [husers] at hm
      simpa using hm
    obtain ⟨hid, hself, hname, -⟩ := User.of_key_eq hkey
    rw [hchats, hchatuser, ← hid, ← hself, ← hname]
    exact h.selfChat u hu
  · intro r hr
    rw [hchatuser] at hr
    rw [hci, show s'.userIds = s.userIds from hids]
    exact h.links r hr
  · intro m hm
    obtain ⟨m', hm', hbody⟩ : ∃ m' ∈ s.messages, m'.body = m.body := by
      have hmem : m.body ∈ s'.messages.map Message.body := List.mem_map_of_mem hm
      rw [hmessages] at hmem
      simpa using hmem
    obtain ⟨hfrom, hto, -⟩ := Message.of_body_eq hbody
    rw [hci, show s'.userIds = s.userIds from hids, ← hfrom, ← hto]
    exact h.messages m' hm'

theorem nodup_append_new {α : Type} {l : List α} {a : α} (hnew : a ∉ l) (h : l.Nodup) :
    (l ++ [a]).Nodup := by
  rw [← List.concat_eq_append]
  exact List.Nodup.concat hnew h

/-- The id of the next chat is in no row yet. -/
theorem Integrity.newChat_notMem (h : s.Integrity) (uid : Nat) :
    { chatid := s.chatAutoincrement, uid } ∉ s.chatuser := by
  intro hmem
  have hid : s.chatAutoincrement ∈ s.chatIds := (h.links _ hmem).1
  rw [h.chatIds, List.mem_range'_1, h.chatCounter] at hid
  omega

theorem Integrity.createUser (h : s.Integrity) {name pass stpath : Bytes} {u : User}
    (hc : s.createUser name pass stpath = some (s', u)) : s'.Integrity := by
  rcases createUser_cases hc with ⟨-, rfl, -⟩ | ⟨hfresh, hroomc, hroomu, rfl, rfl⟩
  · exact h
  unfold vectorMaxSize at hroomc hroomu
  have hids := h.userIds
  have hcids := h.chatIds
  have hucount := h.userCounter
  have hccount := h.chatCounter
  have hself := h.selfChat
  have hlinks := h.links
  have hmsgs := h.messages
  simp only [Storage.userIds, Storage.chatIds] at hids hcids hlinks hmsgs
  refine ⟨?_, ?_, ?_, ?_, ?_, ?_, ?_, ?_, ?_⟩
  · simp [Storage.userIds, hids, hucount, List.range'_concat, Nat.add_comm]
  · simp [Storage.chatIds, hcids, hccount, List.range'_concat, Nat.add_comm]
  · simp only [List.length_append, List.length_singleton]
    omega
  · simp only [List.length_append, List.length_singleton]
    omega
  · simp only [List.map_append, List.map_cons, List.map_nil]
    refine nodup_append_new ?_ h.userNames
    intro hn
    obtain ⟨v, hv, hname⟩ := List.mem_map.mp hn
    exact hfresh v hv hname
  · intro v hv
    rcases List.mem_append.mp hv with hold | hnew
    · have := hself v hold
      simp [this]
    · obtain rfl := List.mem_singleton.mp hnew
      simp
  · exact nodup_append_new (h.newChat_notMem _) h.chatuserNodup
  · intro r hr
    simp only [Storage.chatIds, Storage.userIds, List.map_append, List.mem_append]
    rcases List.mem_append.mp hr with hold | hnew
    · exact ⟨Or.inl (hlinks r hold).1, Or.inl (hlinks r hold).2⟩
    · obtain rfl := List.mem_singleton.mp hnew
      simp
  · intro m hm
    simp only [Storage.chatIds, Storage.userIds, List.map_append, List.mem_append]
    exact ⟨Or.inl (hmsgs m hm).1, Or.inl (hmsgs m hm).2⟩

theorem Integrity.createChat (h : s.Integrity) {name : Bytes} {uid : Nat} {c : Chat}
    (huid : 0 < uid → uid ∈ s.userIds) (hc : s.createChat name uid = some (s', c)) :
    s'.Integrity := by
  rcases createChat_cases hc with ⟨-, rfl, -⟩ | ⟨hfresh, hroomc, rfl, rfl⟩
  · exact h
  unfold vectorMaxSize at hroomc
  have hcids := h.chatIds
  have hccount := h.chatCounter
  have hself := h.selfChat
  have hlinks := h.links
  have hmsgs := h.messages
  simp only [Storage.chatIds] at hcids hlinks hmsgs
  refine ⟨h.userIds, ?_, h.userCounter, ?_, h.userNames, ?_, ?_, ?_, ?_⟩
  · simp [Storage.chatIds, hcids, hccount, List.range'_concat, Nat.add_comm]
  · simp only [List.length_append, List.length_singleton]
    omega
  · intro v hv
    have := hself v hv
    simp [this]
  · split
    · exact nodup_append_new (h.newChat_notMem _) h.chatuserNodup
    · rw [List.append_nil]
      exact h.chatuserNodup
  · intro r hr
    simp only [Storage.chatIds, List.map_append, List.mem_append]
    rcases List.mem_append.mp hr with hold | hnew
    · exact ⟨Or.inl (hlinks r hold).1, (hlinks r hold).2⟩
    · split at hnew
      · rename_i hpos
        obtain rfl := List.mem_singleton.mp hnew
        exact ⟨by simp, huid hpos⟩
      · cases hnew
  · intro m hm
    simp only [Storage.chatIds, List.map_append, List.mem_append]
    exact ⟨(hmsgs m hm).1, Or.inl (hmsgs m hm).2⟩

theorem Integrity.addUserToChat (h : s.Integrity) {chat : Chat} {user : User}
    (hchat : chat.id ∈ s.chatIds) (huser : user.id ∈ s.userIds)
    (ha : s.addUserToChat chat user = some s') : s'.Integrity := by
  rcases addUserToChat_cases ha with ⟨-, rfl⟩ | ⟨hnew, rfl⟩
  · exact h
  refine ⟨h.userIds, h.chatIds, h.userCounter, h.chatCounter, h.userNames, ?_, ?_, ?_, h.messages⟩
  · intro v hv
    exact ⟨(h.selfChat v hv).1, List.mem_append_left _ (h.selfChat v hv).2⟩
  · exact nodup_append_new hnew h.chatuserNodup
  · intro r hr
    rcases List.mem_append.mp hr with hold | hlast
    · exact h.links r hold
    · obtain rfl := List.mem_singleton.mp hlast
      exact ⟨hchat, huser⟩

theorem Integrity.saveMessage (h : s.Integrity) {msg : Message}
    (hfrom : msg.userFrom ∈ s.userIds) (hto : msg.chatTo ∈ s.chatIds)
    (hs : s.saveMessage msg = some s') : s'.Integrity := by
  rw [saveMessage_eq hs]
  refine ⟨h.userIds, h.chatIds, h.userCounter, h.chatCounter, h.userNames, h.selfChat,
    h.chatuserNodup, h.links, ?_⟩
  intro m hm
  rcases List.mem_append.mp hm with hold | hnew
  · exact h.messages m hold
  · obtain rfl := List.mem_singleton.mp hnew
    exact ⟨hfrom, hto⟩

end

end Storage

/-! ## Arguments that keep integrity -/

/-- What a caller has to know: the ids it passes on are stored. -/
def Call.Valid (s : Storage) : Call → Prop
  | .createChat _ uid => 0 < uid → uid ∈ s.userIds
  | .addUserToChat chat user => chat.id ∈ s.chatIds ∧ user.id ∈ s.userIds
  | .saveMessage msg => msg.userFrom ∈ s.userIds ∧ msg.chatTo ∈ s.chatIds
  | _ => True

/-- A locked section called with stored ids keeps the integrity of the store. -/
theorem Call.exec_integrity {c : Call} {s s' : Storage} {r : c.Result} (h : s.Integrity)
    (hv : c.Valid s) (he : c.exec s = some (s', r)) : s'.Integrity := by
  by_cases hro : c.readOnly = true
  · rw [Call.exec_readOnly hro he]
    exact h
  cases c <;> simp only [Call.readOnly, not_true_eq_false] at hro
  case updateUserHeartBit user ts =>
    obtain ⟨rfl, -⟩ := Prod.mk.inj (Option.some.inj he)
    exact h.congr rfl rfl rfl rfl (Storage.map_key_setHeartbit user.id ts s.users) rfl
  case createUser => exact h.createUser he
  case createChat => exact h.createChat hv he
  case addUserToChat =>
    obtain ⟨t, ht, heq⟩ := Option.map_eq_some_iff.mp he
    obtain ⟨rfl, -⟩ := Prod.mk.inj heq
    exact h.addUserToChat hv.1 hv.2 ht
  case saveMessage =>
    obtain ⟨t, ht, heq⟩ := Option.map_eq_some_iff.mp he
    obtain ⟨rfl, -⟩ := Prod.mk.inj heq
    exact h.saveMessage hv.1 hv.2 ht
  case getMessages chatid opt =>
    obtain ⟨marked, hbody, heq⟩ := Storage.getMessages_eq s chatid opt
    obtain ⟨rfl, -⟩ := Prod.mk.inj (Option.some.inj (heq.symm.trans he))
    exact h.congr rfl rfl rfl rfl rfl hbody

end O2Chat.Db
