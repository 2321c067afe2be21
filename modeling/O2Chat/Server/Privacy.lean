import O2Chat.Server.WorkerRuns

/-!
# Who sees a direct message

A direct message goes to the self chat of its receiver, and whoever is a member of
that chat sees it. `CHAT_ADDUSER` takes any chat by its name, self chats included,
and anyone may be added by anyone. Direct messages stay between their two parties
exactly as long as nobody is added to the self chat of another user.
-/
namespace O2Chat.Server

open O2Chat.Common O2Chat.Db O2Chat.Lib.Interleaving O2Chat.Lib.Runs

/-- The self chat of each user has that user as its only member. -/
def SelfChatsPrivate (s : Storage) : Prop :=
  ∀ b ∈ s.users, ∀ r ∈ s.chatuser, r.chatid = b.selfChatId → r.uid = b.id

/-- Nobody is added to the self chat of another user. -/
def NotIntruding (s : Storage) : Call → Prop
  | .addUserToChat chat user => ∀ b ∈ s.users, b.selfChatId = chat.id → b.id = user.id
  | _ => True

instance (s : Storage) : (c : Call) → Decidable (NotIntruding s c)
  | .addUserToChat chat user =>
    inferInstanceAs (Decidable (∀ b ∈ s.users, b.selfChatId = chat.id → b.id = user.id))
  | .updateUserHeartBit .. | .createUser .. | .createChat .. | .lookupUserByName _
  | .lookupUserById _ | .chatIdsForUserId _ | .lookupChatByName _ | .lookupChatById _
  | .userIdsForChatId _ | .saveMessage _ | .getMessages .. | .selectMessages .. => isTrue trivial

/-! ## One step of the store -/

section

variable {s s' : Storage}

/-- Only the rows' ids and self chats matter. -/
theorem SelfChatsPrivate.congr (h : SelfChatsPrivate s) (hlinks : s'.chatuser = s.chatuser)
    (husers : s'.users.map User.key = s.users.map User.key) : SelfChatsPrivate s' := by
  intro b hb r hr hchat
  obtain ⟨v, hv, hkey⟩ : ∃ v ∈ s.users, v.key = b.key := by
    have hm : b.key ∈ s'.users.map User.key := List.mem_map_of_mem hb
    rw [husers] at hm
    simpa using hm
  obtain ⟨hid, hself, -⟩ := User.of_key_eq hkey
  rw [← hid]
  exact h v hv r (hlinks ▸ hr) (hchat.trans hself.symm)

/-- A fresh chat is nobody's self chat and has no members yet. -/
theorem fresh_chat (hi : s.Integrity) :
    (∀ b ∈ s.users, b.selfChatId ≠ s.chatAutoincrement) ∧
    ∀ r ∈ s.chatuser, r.chatid ≠ s.chatAutoincrement := by
  constructor
  · intro b hb heq
    have := (hi.chatId_pos (hi.selfChat b hb).1).2
    simp only at this
    omega
  · intro r hr heq
    obtain ⟨c, hc, hid⟩ := List.mem_map.mp (hi.links r hr).1
    have := (hi.chatId_pos hc).2
    omega

theorem selfChatsPrivate_step (hi : s.Integrity) (h : SelfChatsPrivate s) {c : Call}
    (hs : s.step c = some s') : SelfChatsPrivate s' ↔ NotIntruding s c := by
  obtain ⟨⟨t, r⟩, he, rfl⟩ := Option.map_eq_some_iff.mp hs
  obtain ⟨hfreshUser, hfreshLink⟩ := fresh_chat hi
  by_cases hro : c.readOnly = true
  · rw [Call.exec_readOnly hro he]
    refine iff_of_true h ?_
    cases c <;> trivial
  cases c <;> simp only [Call.readOnly, not_true_eq_false] at hro
  case updateUserHeartBit user ts =>
    obtain ⟨rfl, -⟩ := Prod.mk.inj (Option.some.inj he)
    exact iff_of_true (h.congr rfl (Storage.map_key_setHeartbit user.id ts s.users)) trivial
  case createUser name pass stpath =>
    refine iff_of_true ?_ trivial
    rcases Storage.createUser_cases he with ⟨-, rfl, -⟩ | ⟨-, -, -, rfl, rfl⟩
    · exact h
    intro b hb r hr hchat
    rcases List.mem_append.mp hb with hb | hb <;> rcases List.mem_append.mp hr with hr | hr
    · exact h b hb r hr hchat
    · obtain rfl := List.mem_singleton.mp hr
      exact absurd hchat.symm (hfreshUser b hb)
    · obtain rfl := List.mem_singleton.mp hb
      exact absurd hchat (hfreshLink r hr)
    · obtain rfl := List.mem_singleton.mp hb
      obtain rfl := List.mem_singleton.mp hr
      rfl
  case createChat name uid =>
    refine iff_of_true ?_ trivial
    rcases Storage.createChat_cases he with ⟨-, rfl, -⟩ | ⟨-, -, rfl, rfl⟩
    · exact h
    intro b hb r hr hchat
    rcases List.mem_append.mp hr with hr | hr
    · exact h b hb r hr hchat
    · split at hr
      · obtain rfl := List.mem_singleton.mp hr
        exact absurd hchat.symm (hfreshUser b hb)
      · cases hr
  case addUserToChat chat user =>
    obtain ⟨t, ht, heq⟩ := Option.map_eq_some_iff.mp he
    obtain ⟨rfl, -⟩ := Prod.mk.inj heq
    rcases Storage.addUserToChat_cases ht with ⟨hrow, rfl⟩ | ⟨-, rfl⟩
    · exact iff_of_true h fun b hb hchat => (h b hb _ hrow hchat.symm).symm
    constructor
    · intro hnew b hb hchat
      exact (hnew b hb _ (List.mem_append_right _ (List.mem_singleton.mpr rfl)) hchat.symm).symm
    · intro hnot b hb r hr hchat
      rcases List.mem_append.mp hr with hr | hr
      · exact h b hb r hr hchat
      · obtain rfl := List.mem_singleton.mp hr
        exact (hnot b hb hchat.symm).symm
  case saveMessage msg =>
    obtain ⟨t, ht, heq⟩ := Option.map_eq_some_iff.mp he
    obtain ⟨rfl, -⟩ := Prod.mk.inj heq
    rw [Storage.saveMessage_eq ht]
    exact iff_of_true (h.congr rfl rfl) trivial
  case getMessages chatid opt =>
    obtain ⟨marked, -, heq⟩ := Storage.getMessages_eq s chatid opt
    obtain ⟨rfl, -⟩ := Prod.mk.inj (Option.some.inj (heq.symm.trans he))
    exact iff_of_true (h.congr rfl rfl) trivial

end

/-! ## Runs -/

theorem selfChatsPrivate_run {env : Extern} {p : Workers}
    (h : Run (Workers.step env) (CallsOnly NotIntruding) Workers.init p) :
    SelfChatsPrivate p.state.storage := by
  have key : p.Safe env ∧ SelfChatsPrivate p.state.storage := by
    refine h.invariant (I := fun p => p.Safe env ∧ SelfChatsPrivate p.state.storage)
      ⟨workers_safe_init env, by simp [SelfChatsPrivate, Workers.init]⟩ ?_
    rintro p a p' ⟨hsafe, hp⟩ hok hs
    refine ⟨workers_safe_step hsafe hs, ?_⟩
    rcases workers_step_storage hs with hsame | ⟨c, hstep, hcalls⟩
    · rw [hsame]
      exact hp
    · exact (selfChatsPrivate_step hsafe.inv hp hstep).mpr (hcalls _ hok)
  exact key.2

/-- A message saved by `MESSAGE_SEND` is in responses to its sender and to its
receiver only. -/
def BetweenParties (p : Workers) : Prop :=
  ∀ sender ∈ p.threads, sender.tag.cmd = .messageSend → ∀ msg ∈ saved sender.hist,
    ∀ reader ∈ p.threads, ∀ rows ∈ responses reader.hist, ∀ m ∈ rows, m.body = msg.body →
      reader.tag.request.uid = sender.tag.request.uid ∨
      ∃ b ∈ p.state.storage.users, b.name = sender.tag.request.toUser ∧
        reader.tag.request.uid = b.id

instance (p : Workers) : Decidable (BetweenParties p) :=
  inferInstanceAs (Decidable (∀ sender ∈ p.threads, _ → ∀ msg ∈ saved sender.hist,
    ∀ reader ∈ p.threads, ∀ rows ∈ responses reader.hist, ∀ m ∈ rows, _ → _ ∨ ∃ b ∈ _, _ ∧ _))

theorem betweenParties {env : Extern} {ok : Workers → WorkerAction → Prop} {p : Workers}
    (h : Run (Workers.step env) ok Workers.init p) (hp : SelfChatsPrivate p.state.storage) :
    BetweenParties p := by
  intro sender hsender hcmd msg hmsg reader hreader rows hrows m hm hbody
  obtain ⟨e, he, hop⟩ := mem_saved hmsg
  obtain ⟨e', he', reply, hop'⟩ := mem_responses hrows
  obtain ⟨hfrom, b, hb, hname, hto⟩ := ((workers_safe h).hist sender hsender).direct hcmd e he msg hop
  obtain ⟨hmfrom, hmto, -⟩ := Message.of_body_eq hbody
  rcases ((workers_safe h).hist reader hreader).visible e' he' reply rows hop' m hm with hlink | hown
  · -- the reader is a member of the chat, which is the receiver's self chat
    right
    obtain ⟨v, hv, hkey⟩ := (workers_hist_extends h sender hsender e he).1.user hb
    obtain ⟨-, hself, hvname, -⟩ := User.of_key_eq hkey
    refine ⟨v, hv, hvname.trans hname, ?_⟩
    have hnow := (workers_hist_extends h reader hreader e' he').1.chatuser.subset hlink
    exact hp v hv _ hnow (hmto.trans (hto.trans hself.symm))
  · left
    rw [← hown, hmfrom, hfrom]

/-- In a run in which nobody is added to the self chat of another user, self chats
are private and direct messages are seen by their two parties only. A step that adds
someone to the self chat of another user ends the privacy. -/
theorem direct_messages_private (env : Extern) (p : Workers)
    (h : Run (Workers.step env) (CallsOnly NotIntruding) Workers.init p) :
    SelfChatsPrivate p.state.storage ∧ BetweenParties p ∧
    ∀ c s', p.state.storage.step c = some s' → (SelfChatsPrivate s' ↔ NotIntruding p.state.storage c) := by
  have hp := selfChatsPrivate_run h
  exact ⟨hp, betweenParties h hp, fun c s' hs =>
    selfChatsPrivate_step (workers_safe h).inv hp hs⟩

namespace Sample

def sendTo (client uid : Nat) (user message : String) : Task :=
  { cmd := .messageSend, client,
    request := { uid, password := bytes "password", toUser := bytes user, message := bytes message } }

def addUser (uid : Nat) (user chat : String) : Task :=
  { cmd := .chatAdduser, client := 0,
    request := { uid, password := bytes "password", chatAdduser := bytes user, chatName := bytes chat } }

def poll (client uid ts : Nat) : Task :=
  { cmd := .idle, client, request := { uid, password := bytes "password", ts } }

/-- Amy, Bob and Eve register. -/
def register : List WorkerAction :=
  alone 0 (create "amy") 3 ++ alone 1 (create "bob") 3 ++ alone 2 (create "eve") 3

end Sample

theorem direct_messages_private_poll : ∃ p,
    Run (Workers.step Sample.env) (CallsOnly NotIntruding) Workers.init p ∧
      p.threads.length = 5 ∧ SelfChatsPrivate p.state.storage ∧ BetweenParties p := by
  have hlist : (runList (Workers.step Sample.env) (CallsOnly NotIntruding) Workers.init
      (Sample.register ++ [.clock 100] ++ Sample.alone 3 (Sample.sendTo 0 1 "bob" "hello") 5 ++
        Sample.alone 4 (Sample.poll 0 2 0) 9)).any (fun p => p.threads.length = 5) = true := by
    decide +kernel
  obtain ⟨p, hrun, hlen⟩ := exists_run hlist
  have hprivate := direct_messages_private Sample.env p hrun
  exact ⟨p, hrun, by simpa using hlen, hprivate.1, hprivate.2.1⟩

/-- Eve adds herself to Bob's self chat and polls after Amy has written to Bob. -/
theorem direct_messages_leak : ¬ ∀ p, Run (Workers.step Sample.env) anyStep Workers.init p →
    BetweenParties p := by
  intro hclaim
  have hlist : (runList (Workers.step Sample.env) anyStep Workers.init (Sample.register ++
      Sample.alone 3 (Sample.addUser 3 "eve" "bob") 5 ++ [.clock 100] ++
      Sample.alone 4 (Sample.sendTo 0 1 "bob" "hello") 5 ++
      Sample.alone 5 (Sample.poll 0 3 0) 11)).any (fun p => ¬ BetweenParties p) = true := by
    decide +kernel
  obtain ⟨p, hrun, hp⟩ := exists_run hlist
  exact (by simpa using hp : ¬ BetweenParties p) (hclaim p hrun)

end O2Chat.Server
