import O2Chat.Db.Integrity
import O2Chat.Server.Worker

/-!
# What one task does

`Good` collects what holds of the history of a task at every moment, whatever the
other workers do between its operations. `processTask_owes` proves it for every
task by one symbolic execution of each branch. The proof distinguishes the tasks
that have only read so far from those that have written, and both from those that
have answered.
-/
namespace O2Chat.Server

open O2Chat.Common O2Chat.Db O2Chat.Lib.Interleaving

/-! ## Reading a history -/

def replies (h : List Event) : List Reply :=
  h.filterMap fun e => match e.op with
    | .reply r _ => some r
    | _ => none

/-- The messages saved, newest first. -/
def saved (h : List Event) : List Message :=
  h.filterMap fun e => match e.op with
    | .db (.saveMessage msg) => some msg
    | _ => none

/-- The stored messages that each response was made from. -/
def responses (h : List Event) : List (List Message) :=
  h.filterMap fun e => match e.op with
    | .reply _ rows => some rows
    | _ => none

theorem mem_saved {h : List Event} {msg : Message} (hm : msg ∈ saved h) :
    ∃ e ∈ h, e.op = .db (.saveMessage msg) := by
  obtain ⟨e, he, hop⟩ := List.mem_filterMap.mp hm
  refine ⟨e, he, ?_⟩
  split at hop
  · rename_i heq
    obtain rfl := Option.some.inj hop
    exact heq
  · cases hop

theorem mem_responses {h : List Event} {rows : List Message} (hm : rows ∈ responses h) :
    ∃ e ∈ h, ∃ reply, e.op = .reply reply rows := by
  obtain ⟨e, he, hop⟩ := List.mem_filterMap.mp hm
  refine ⟨e, he, ?_⟩
  split at hop
  · rename_i reply _ heq
    obtain rfl := Option.some.inj hop
    exact ⟨reply, heq⟩
  · cases hop

def Unchanged (h : List Event) : Prop := ∀ e ∈ h, e.post.storage = e.pre.storage

/-- The store in which the task performed its first operation. -/
def firstStore (h : List Event) : Option Storage := h.getLast?.map (·.pre.storage)

theorem firstStore_cons {h : List Event} {s : Storage} (hs : firstStore h = some s) (e : Event) :
    firstStore (e :: h) = some s := by
  unfold firstStore at *
  cases h with
  | nil => simp at hs
  | cons e' h => simpa [List.getLast?_cons_cons] using hs

/-- The commands that `processQueue` answers in every case. -/
def answered : Cmd → Bool
  | .userStatus | .userHistory | .messageSend | .userCreate | .userLogin | .chatCreate
  | .chatAdduser | .messageSendChat => true
  | _ => false

def isSend (cmd : Cmd) : Bool := cmd = .messageSend || cmd = .messageSendChat

def readsOnly (cmd : Cmd) : Bool := cmd = .userStatus || cmd = .userHistory || cmd = .userLogin

/-- The credentials of the task belong to a stored user. -/
def Matches (env : Extern) (task : Task) (s : Storage) : Prop :=
  ∃ u ∈ s.users, (if task.cmd = .userLogin then u.name = task.request.user
    else u.id = task.request.uid) ∧ u.password = encryptedPass env task.request.password

instance (env : Extern) (task : Task) (s : Storage) : Decidable (Matches env task s) :=
  inferInstanceAs (Decidable (∃ u ∈ s.users, _ ∧ _))

/-- The user is a member of the chat of the message, or sent it. -/
def Visible (uid : Nat) (s : Storage) (msg : Message) : Prop :=
  { chatid := msg.chatTo, uid } ∈ s.chatuser ∨ msg.userFrom = uid

def chatMissing : Reply := .sendErrorResponse 404 .errNotFound (bytes "chat does not exist")

/-- The errors a worker reports. None of them carries anything from the store. -/
def errorReplies : List Reply :=
  [.sendErrorResponse 409 .errConstraint (bytes "user does not exist"),
   .sendErrorResponse 403 .errConstraint (bytes "wrong password"),
   .sendErrorResponse 404 .errNotFound (bytes "user does not exist"),
   .sendErrorResponse 500 .errInternal (bytes "more than one user with that name"),
   .sendErrorResponse 404 .errNotFound (bytes "user to does not exist"),
   .sendErrorResponse 409 .errConstraint (bytes "user already exists"),
   .sendErrorResponse 409 .errConstraint (bytes "chat already exists"),
   chatMissing]

/-- A message from the task's user to the self chat of the addressed user. -/
def Direct (task : Task) (s : Storage) (msg : Message) : Prop :=
  msg.userFrom = task.request.uid ∧
    ∃ u ∈ s.users, u.name = task.request.toUser ∧ msg.chatTo = u.selfChatId

structure Good (env : Extern) (task : Task) (h : List Event) : Prop where
  oneReply : (replies h).length ≤ 1
  errors : ∀ r ∈ replies h, r.isError = true → r ∈ errorReplies
  toIdle : task.cmd ≠ .idle → ∀ r ∈ replies h, r.toIdle = false
  errorQuiet : (∃ r ∈ replies h, r.isError = true) → Unchanged h
  quiet : readsOnly task.cmd = true → Unchanged h
  authentic : task.cmd ≠ .userCreate → (∃ r ∈ replies h, r.isError = false) →
    ∃ s, firstStore h = some s ∧ Matches env task s
  saves : (saved h).length ≤ if isSend task.cmd then 1 else 0
  direct : task.cmd = .messageSend → ∀ e ∈ h, ∀ msg, e.op = .db (.saveMessage msg) →
    Direct task e.pre.storage msg
  visible : ∀ e ∈ h, ∀ r rows, e.op = .reply r rows → ∀ m ∈ rows,
    Visible task.request.uid e.pre.storage m
  noChat : chatMissing ∈ replies h → ∃ e ∈ h, e.op = .db (.lookupChatByName task.request.chatName) ∧
    (e.pre.storage.lookupChatByName task.request.chatName).length ≠ 1

/-- A task that has not answered yet; `wrote` tells whether it may have written. -/
structure Pending (task : Task) (wrote : Bool) (h : List Event) : Prop where
  noReply : replies h = []
  unchanged : wrote = false → Unchanged h
  quiet : wrote = true → readsOnly task.cmd = false
  saves : (saved h).length ≤ if isSend task.cmd && wrote then 1 else 0
  direct : task.cmd = .messageSend → ∀ e ∈ h, ∀ msg, e.op = .db (.saveMessage msg) →
    Direct task e.pre.storage msg
  noRows : ∀ e ∈ h, ∀ r rows, e.op ≠ .reply r rows

/-- The task has found its user in its first operation. -/
def Authentic (env : Extern) (task : Task) (h : List Event) : Prop :=
  ∃ s, firstStore h = some s ∧ Matches env task s

theorem Authentic.cons {env : Extern} {task : Task} {h : List Event} (ha : Authentic env task h)
    (e : Event) : Authentic env task (e :: h) := by
  obtain ⟨s, hs, hm⟩ := ha
  exact ⟨s, firstStore_cons hs e, hm⟩

theorem Pending.nil (task : Task) : Pending task false [] := by
  constructor <;> simp [replies, saved, Unchanged]

section

variable {env : Extern} {task : Task} {h : List Event} {wrote : Bool}

theorem Pending.good (hp : Pending task wrote h) : Good env task h := by
  refine ⟨by simp [hp.noReply], by simp [hp.noReply], by simp [hp.noReply], by simp [hp.noReply],
    ?_, by simp [hp.noReply], ?_, hp.direct, ?_, by simp [hp.noReply]⟩
  · intro hro
    cases hw : wrote with
    | false => exact hp.unchanged hw
    | true => simp [hp.quiet hw] at hro
  · have := hp.saves
    split at this <;> split <;> simp_all
  · intro e he r rows hop
    exact absurd hop (hp.noRows e he r rows)

/-- An operation that leaves the store alone. -/
theorem Pending.read (hp : Pending task wrote h) {e : Event} (hop : ∀ r rows, e.op ≠ .reply r rows)
    (hsame : e.post.storage = e.pre.storage) (hsave : ∀ msg, e.op ≠ .db (.saveMessage msg)) :
    Pending task wrote (e :: h) := by
  have hr : replies (e :: h) = replies h := by
    cases e with
    | mk pre op res post =>
      cases op with
      | reply r rows => exact absurd rfl (hop r rows)
      | _ => rfl
  have hs : saved (e :: h) = saved h := by
    cases e with
    | mk pre op res post =>
      cases op with
      | db c => cases c with
        | saveMessage msg => exact absurd rfl (hsave msg)
        | _ => rfl
      | _ => rfl
  refine ⟨hr ▸ hp.noReply, ?_, hp.quiet, hs ▸ hp.saves, ?_, ?_⟩
  · intro hw
    simpa [Unchanged, hsame] using hp.unchanged hw
  · intro hcmd
    simpa [hsave] using hp.direct hcmd
  · simpa [hop] using hp.noRows

/-- A write, after which the task may not report an error any more. -/
theorem Pending.write (hp : Pending task false h) {s t : Shared} {c : Call} {r : c.Result}
    (hro : readsOnly task.cmd = false)
    (hsave : ∀ msg, c = .saveMessage msg → isSend task.cmd = true ∧
      (task.cmd = .messageSend → Direct task s.storage msg)) :
    Pending task true (⟨s, .db c, r, t⟩ :: h) := by
  have hnone : saved h = [] := by simpa using hp.saves
  refine ⟨hp.noReply, by simp, fun _ => hro, ?_, ?_, ?_⟩
  · cases c with
    | saveMessage msg => simp [saved, (hsave msg rfl).1, show h.filterMap _ = [] from hnone]
    | _ => simp [saved, show h.filterMap _ = [] from hnone]
  · intro hcmd e he msg hop
    rcases List.mem_cons.mp he with rfl | he
    · exact (hsave msg (Op.db.inj hop)).2 hcmd
    · exact hp.direct hcmd e he msg hop
  · simpa using hp.noRows

/-- A section that could have written but did not. -/
theorem Pending.unwritten (hp : Pending task false h) {s t : Shared} {c : Call} {r : c.Result}
    (hsame : t.storage = s.storage) (hsave : ∀ msg, c ≠ .saveMessage msg) :
    Pending task false (⟨s, .db c, r, t⟩ :: h) :=
  hp.read (by simp) hsame (by simpa using hsave)

theorem Pending.writeAgain (hp : Pending task true h) {s t : Shared} {c : Call} {r : c.Result}
    (hsave : ∀ msg, c ≠ .saveMessage msg) : Pending task true (⟨s, .db c, r, t⟩ :: h) := by
  have hs : saved (⟨s, .db c, r, t⟩ :: h) = saved h := by
    cases c with
    | saveMessage msg => exact absurd rfl (hsave msg)
    | _ => rfl
  refine ⟨hp.noReply, by simp, hp.quiet, hs ▸ hp.saves, ?_, by simpa using hp.noRows⟩
  intro hcmd
  simpa [hsave] using hp.direct hcmd

theorem Pending.error (hp : Pending task false h) {s : Shared} {code : Nat} {api : ApiStatusCode}
    {desc : Bytes} (hknown : Reply.sendErrorResponse code api desc ∈ errorReplies)
    (hdesc : Reply.sendErrorResponse code api desc = chatMissing →
      ∃ e ∈ h, e.op = .db (.lookupChatByName task.request.chatName) ∧
        (e.pre.storage.lookupChatByName task.request.chatName).length ≠ 1) :
    Good env task (⟨s, .reply (.sendErrorResponse code api desc) [], (), s⟩ :: h) := by
  have hr : replies (⟨s, .reply (.sendErrorResponse code api desc) [], (), s⟩ :: h) =
      [.sendErrorResponse code api desc] := by
    simp [replies, show h.filterMap _ = [] from hp.noReply]
  have hun : Unchanged (⟨s, .reply (.sendErrorResponse code api desc) [], (), s⟩ :: h) := by
    simpa [Unchanged] using hp.unchanged rfl
  refine ⟨by simp [hr], by simpa [hr] using fun _ => hknown, by simp [hr, Reply.toIdle],
    fun _ => hun, fun _ => hun, by simp [hr, Reply.isError], ?_, ?_, ?_, ?_⟩
  · have : saved h = [] := by simpa using hp.saves
    simp [saved, show h.filterMap _ = [] from this]
  · intro hcmd
    simpa using hp.direct hcmd
  · intro e he r rows hop
    rcases List.mem_cons.mp he with rfl | he
    · cases hop
      simp
    · exact absurd hop (hp.noRows e he r rows)
  · intro hmem
    rw [hr, List.mem_singleton] at hmem
    obtain ⟨e, he, h1, h2⟩ := hdesc hmem.symm
    exact ⟨e, List.mem_cons_of_mem _ he, h1, h2⟩

theorem Pending.success (hp : Pending task wrote h)
    (ha : task.cmd = .userCreate ∨ Authentic env task h) {s : Shared} {reply : Reply}
    {rows : List Message} (herr : reply.isError = false)
    (hidle : reply.toIdle = true → task.cmd = .idle)
    (hrows : ∀ m ∈ rows, Visible task.request.uid s.storage m) :
    Good env task (⟨s, .reply reply rows, (), s⟩ :: h) := by
  have hr : replies (⟨s, .reply reply rows, (), s⟩ :: h) = [reply] := by
    simp [replies, show h.filterMap _ = [] from hp.noReply]
  have hg : Good env task h := hp.good
  refine ⟨by simp [hr], by simp [hr, herr], ?_, by simp [hr, herr], ?_, ?_, hg.saves, ?_, ?_, ?_⟩
  · intro hc
    simpa [hr] using fun ht => hc (hidle ht)
  · intro hro
    simpa [Unchanged] using hg.quiet hro
  · intro hc _
    rcases ha with hcreate | ha
    · exact absurd hcreate hc
    · exact ha.cons _
  · intro hcmd
    simpa using hp.direct hcmd
  · intro e he r rows' hop
    rcases List.mem_cons.mp he with rfl | he
    · cases hop
      exact hrows
    · exact absurd hop (hp.noRows e he r rows')
  · intro hmem
    rw [hr, List.mem_singleton] at hmem
    subst hmem
    cases herr

end

/-! ## Rules for the operations -/

abbrev Inv (s : Shared) : Prop := s.storage.Integrity

abbrev Ext (s s' : Shared) : Prop := s.storage.Extends s'.storage

theorem ext_trans {a b c : Shared} (h : Ext a b) (h' : Ext b c) : Ext a c :=
  Storage.Extends.trans h h'

/-- The program keeps the store's integrity and the task's history good, and ends in `Q`. -/
abbrev Does (env : Extern) (task : Task) {α : Type} (p : Work α)
    (Q : α → List Event → Shared → Prop) (h : List Event) (s : Shared) : Prop :=
  wp Op.exec Inv Ext (Good env task) p Q h s

/-- What a finished task owes. -/
def Answered (task : Task) (h : List Event) : Prop :=
  answered task.cmd = true → (replies h).length = 1

/-- The row that was looked up is still stored, up to its heartbeat. -/
def StoredUser (s : Storage) (user : User) : Prop := ∃ v ∈ s.users, v.key = user.key

theorem StoredUser.mono {s s' : Storage} {user : User} (h : StoredUser s user)
    (hext : s.Extends s') : StoredUser s' user := by
  obtain ⟨v, hv, hkey⟩ := h
  obtain ⟨w, hw, hkey'⟩ := hext.user hv
  exact ⟨w, hw, hkey'.trans hkey⟩

theorem StoredUser.mem_userIds {s : Storage} {user : User} (h : StoredUser s user) :
    user.id ∈ s.userIds := by
  obtain ⟨v, hv, hkey⟩ := h
  rw [← (User.of_key_eq hkey).1]
  exact List.mem_map_of_mem hv

theorem StoredUser.self {s : Storage} {user : User} (h : StoredUser s user) (hi : s.Integrity) :
    user.selfChatId ∈ s.chatIds ∧ { chatid := user.selfChatId, uid := user.id } ∈ s.chatuser := by
  obtain ⟨v, hv, hkey⟩ := h
  obtain ⟨hid, hself, -, -⟩ := User.of_key_eq hkey
  obtain ⟨hchat, hlink⟩ := hi.selfChat v hv
  rw [← hself, ← hid]
  exact ⟨List.mem_map_of_mem (f := Chat.id) hchat, hlink⟩

theorem Visible.mono {uid : Nat} {s s' : Storage} {m : Message} (h : Visible uid s m)
    (hext : s.Extends s') : Visible uid s' m :=
  h.imp_left (hext.chatuser.subset ·)

section

variable {env : Extern} {task : Task} {α : Type} {Q : α → List Event → Shared → Prop}
  {h : List Event} {s : Shared} {wrote : Bool}

theorem does_read {c : Call} {k : c.Result → Work α} (hro : c.readOnly = true)
    (hp : Pending task wrote h)
    (hk : ∀ s₁ r, Ext s s₁ → Inv s₁ → c.exec s₁.storage = some (s₁.storage, r) →
      Pending task wrote (⟨s₁, .db c, r, s₁⟩ :: h) →
      Does env task (k r) Q (⟨s₁, .db c, r, s₁⟩ :: h) s₁) :
    Does env task (.op (.db c) k) Q h s := by
  intro s₁ hext hinv s₂ r hexec
  obtain ⟨⟨storage, r'⟩, hc, heq⟩ := Option.map_eq_some_iff.mp hexec
  have hsame := Call.exec_readOnly hro hc
  have hnosave : savedBy s₁.storage c = [] := by cases c <;> first | rfl | cases hro
  obtain ⟨rfl, rfl⟩ : s₁ = s₂ ∧ r' = r := by
    rw [Prod.mk.injEq] at heq
    refine ⟨?_, heq.2⟩
    rw [← heq.1, hnosave, hsame, List.append_nil]
  subst hsame
  have hp' : Pending task wrote (⟨s₁, .db c, r', s₁⟩ :: h) := by
    refine hp.read (by simp) rfl ?_
    rintro msg hop
    cases hop
    cases hro
  exact ⟨hinv, .refl _, hp'.good, hk s₁ r' hext hinv hc hp'⟩

theorem does_time {k : Nat → Work α} (hp : Pending task wrote h)
    (hk : ∀ s₁, Ext s s₁ → Inv s₁ → Pending task wrote (⟨s₁, .time, s₁.clock, s₁⟩ :: h) →
      Does env task (k s₁.clock) Q (⟨s₁, .time, s₁.clock, s₁⟩ :: h) s₁) :
    Does env task (.op .time k) Q h s := by
  intro s₁ hext hinv s₂ r hexec
  obtain ⟨rfl, rfl⟩ := Prod.mk.inj (Option.some.inj hexec)
  have hp' : Pending task wrote (⟨s₁, .time, s₁.clock, s₁⟩ :: h) :=
    hp.read (by simp) rfl (by simp)
  exact ⟨hinv, .refl _, hp'.good, hk s₁ hext hinv hp'⟩

/-- A locked section that may write, with arguments that keep integrity. -/
theorem does_call {c : Call} {k : c.Result → Work α}
    (hp : ∀ s₁ s₂ r, Ext s s₁ → Pending task true (⟨s₁, .db c, r, s₂⟩ :: h))
    (hvalid : ∀ s₁, Ext s s₁ → Inv s₁ → c.Valid s₁.storage)
    (hk : ∀ (s₁ s₂ : Shared) r, Ext s s₁ → Ext s₁ s₂ → Inv s₁ → Inv s₂ →
      c.exec s₁.storage = some (s₂.storage, r) →
      Does env task (k r) Q (⟨s₁, .db c, r, s₂⟩ :: h) s₂) :
    Does env task (.op (.db c) k) Q h s := by
  intro s₁ hext hinv s₂ r hexec
  obtain ⟨⟨storage, r'⟩, hc, heq⟩ := Option.map_eq_some_iff.mp hexec
  obtain ⟨rfl, rfl⟩ := Prod.mk.inj heq
  have hinv' := Call.exec_integrity hinv (hvalid s₁ hext hinv) hc
  have hext' := Call.exec_extends hc
  exact ⟨hinv', hext', (hp _ _ _ hext).good, hk s₁ _ r' hext hext' hinv hinv' hc⟩

/-- An error ends a task that has only read. -/
theorem does_errorResponse {code : Nat} {api : ApiStatusCode} {desc : Bytes} {k : Unit → Work α}
    (hknown : Reply.sendErrorResponse code api desc ∈ errorReplies) (hp : Pending task false h)
    (hdesc : Reply.sendErrorResponse code api desc = chatMissing →
      ∃ e ∈ h, e.op = .db (.lookupChatByName task.request.chatName) ∧
        (e.pre.storage.lookupChatByName task.request.chatName).length ≠ 1)
    (hk : ∀ s₁ h', Inv s₁ → (replies h').length = 1 → Does env task (k ()) Q h' s₁) :
    Does env task (.op (.reply (.sendErrorResponse code api desc) []) k) Q h s := by
  intro s₁ hext hinv s₂ r hexec
  obtain ⟨rfl, -⟩ := Prod.mk.inj (Option.some.inj hexec)
  refine ⟨hinv, .refl _, hp.error hknown hdesc, hk s₁ _ hinv ?_⟩
  simp [replies, show h.filterMap _ = [] from hp.noReply]

theorem does_error {code : Nat} {api : ApiStatusCode} {desc : Bytes} {k : Unit → Work α}
    (hknown : Reply.sendErrorResponse code api desc ∈ errorReplies ∧
      Reply.sendErrorResponse code api desc ≠ chatMissing) (hp : Pending task false h)
    (hk : ∀ s₁ h', Inv s₁ → (replies h').length = 1 → Does env task (k ()) Q h' s₁) :
    Does env task (.op (.reply (.sendErrorResponse code api desc) []) k) Q h s :=
  does_errorResponse hknown.1 hp (fun heq => absurd heq hknown.2) hk

theorem does_success {reply : Reply} {rows : List Message} {k : Unit → Work α}
    (hp : Pending task wrote h) (ha : task.cmd = .userCreate ∨ Authentic env task h)
    (herr : reply.isError = false) (hidle : reply.toIdle = true → task.cmd = .idle)
    (hrows : ∀ s₁, Ext s s₁ → ∀ m ∈ rows, Visible task.request.uid s₁.storage m)
    (hk : ∀ s₁ h', Inv s₁ → (replies h').length = 1 → Does env task (k ()) Q h' s₁) :
    Does env task (.op (.reply reply rows) k) Q h s := by
  intro s₁ hext hinv s₂ r hexec
  obtain ⟨rfl, -⟩ := Prod.mk.inj (Option.some.inj hexec)
  refine ⟨hinv, .refl _, hp.success ha herr hidle (hrows s₁ hext), hk s₁ _ hinv ?_⟩
  simp [replies, show h.filterMap _ = [] from hp.noReply]

/-- A loop whose rounds all keep `F` keeps `F`. -/
theorem does_traverse {β γ : Type} {f : β → Work γ} {F : List Event → Shared → Prop}
    {Q : List γ → List Event → Shared → Prop} (bs : List β) (hF : F h s)
    (hround : ∀ b h s, F h s → Does env task (f b) (fun _ h s => F h s) h s)
    (hQ : ∀ cs h s, F h s → Q cs h s) : Does env task (Prog.traverse f bs) Q h s :=
  wp_mono (fun cs h s hf => hQ cs h s hf)
    (wp_traverse (J := fun _ _ h s => F h s) (fun _ b _ _ _ h s => hround b h s) hF)

end

/-! ## The lookups -/

section

variable {env : Extern} {task : Task} {h : List Event} {s : Shared}

theorem does_lookupCheckPass {Q : User → List Event → Shared → Prop} (hcmd : task.cmd ≠ .userLogin)
    (hfail : ∀ h s, (replies h).length = 1 → Q {} h s)
    (hok : ∀ user h s, Inv s → user.id ≠ 0 → user.id = task.request.uid →
      StoredUser s.storage user → Pending task false h → Authentic env task h → Q user h s) :
    Does env task (lookupCheckPass env task) Q [] s := by
  unfold lookupCheckPass call send Prog.perform
  simp only [Prog.bind_eq, Prog.op_bind, Prog.pure_bind]
  refine does_read rfl (Pending.nil task) fun s₁ user hext hinv hexec hp => ?_
  obtain ⟨-, rfl⟩ := Prod.mk.inj (Option.some.inj hexec)
  split
  · refine does_error (by decide) hp fun s₂ h' _ hlen => hfail _ _ hlen
  · rename_i hid
    split
    · refine does_error (by decide) hp fun s₂ h' _ hlen => hfail _ _ hlen
    · rename_i hpass
      obtain ⟨hmem, huid⟩ := Storage.mem_of_lookupUserById hid
      refine hok _ _ _ hinv hid huid ⟨_, hmem, rfl⟩ hp ⟨s₁.storage, rfl, _, hmem, ?_⟩
      rw [if_neg hcmd]
      exact ⟨huid, (not_not.mp hpass).symm⟩

theorem does_lookupCheckPassByName {Q : User → List Event → Shared → Prop} {name : Bytes}
    {checkPass : Bool} (hp : Pending task false h)
    (hfail : ∀ h s, (replies h).length = 1 → Q {} h s)
    (hok : ∀ user s₁, Inv s₁ → Ext s s₁ → user ∈ s₁.storage.users → user.name = name →
      (checkPass = true → user.password = encryptedPass env task.request.password) →
      Pending task false (⟨s₁, .db (.lookupUserByName name), [user], s₁⟩ :: h) →
      Q user (⟨s₁, .db (.lookupUserByName name), [user], s₁⟩ :: h) s₁) :
    Does env task (lookupCheckPassByName env name task checkPass) Q h s := by
  unfold lookupCheckPassByName call send Prog.perform
  simp only [Prog.bind_eq, Prog.op_bind, Prog.pure_bind]
  refine does_read rfl hp fun s₁ users hext hinv hexec hp => ?_
  obtain ⟨-, hfound⟩ := Prod.mk.inj (Option.some.inj hexec)
  split
  · refine does_error (by decide) hp fun s₂ h' _ hlen => hfail _ _ hlen
  · rename_i user
    obtain ⟨hmem, hname⟩ := Storage.mem_lookupUserByName (hfound ▸ List.mem_singleton.mpr rfl)
    split
    · refine does_error (by decide) hp fun s₂ h' _ hlen => hfail _ _ hlen
    · rename_i hpass
      refine hok user s₁ hinv hext hmem hname (fun hcheck => ?_) hp
      by_contra hne
      exact hpass ⟨hcheck, fun heq => hne heq.symm⟩
  · refine does_error (by decide) hp fun s₂ h' _ hlen => hfail _ _ hlen

end

/-! ## The branches -/

section

variable (env : Extern) {task : Task} (s : Shared)

/-- `Does` with what every task owes in the end. -/
abbrev Finishes (env : Extern) (task : Task) (p : Work Unit) (h : List Event) (s : Shared) : Prop :=
  Does env task p (fun _ h _ => Answered task h) h s

variable {env s}

theorem finishes_pure {h : List Event} (hlen : (replies h).length = 1) :
    Finishes env task (.pure ()) h s := fun _ => hlen

theorem finishes_success {h : List Event} {wrote : Bool} {reply : Reply} {rows : List Message}
    (hp : Pending task wrote h) (ha : task.cmd = .userCreate ∨ Authentic env task h)
    (herr : reply.isError = false) (hidle : reply.toIdle = true → task.cmd = .idle)
    (hrows : ∀ s₁, Ext s s₁ → ∀ m ∈ rows, Visible task.request.uid s₁.storage m) :
    Finishes env task (sendRows reply rows) h s :=
  does_success hp ha herr hidle hrows fun _ _ _ hlen => finishes_pure hlen

/-- Tasks of a user start with the check of the password. -/
theorem finishes_authenticated {k : User → Work Unit} (hcmd : task.cmd ≠ .userLogin)
    (hk : ∀ user h s, Inv s → user.id ≠ 0 → user.id = task.request.uid →
      StoredUser s.storage user → Pending task false h → Authentic env task h →
      Finishes env task (k user) h s) :
    Finishes env task ((lookupCheckPass env task).bind fun user =>
      if user.id = 0 then .pure () else k user) [] s := by
  apply wp_bind
  refine does_lookupCheckPass hcmd ?_ ?_
  · intro h s hlen
    exact finishes_pure hlen
  · intro user h s hinv hid huid hstored hp ha
    rw [if_neg hid]
    exact hk user h s hinv hid huid hstored hp ha

/-- The lookup of a second user by name. -/
theorem finishes_found {k : User → Work Unit} {name : Bytes} {h : List Event}
    (hp : Pending task false h) (ha : Authentic env task h)
    (hk : ∀ user h s₁, Inv s₁ → Ext s s₁ → user ∈ s₁.storage.users →
      Pending task false h → Authentic env task h → Finishes env task (k user) h s₁) :
    Finishes env task ((lookupCheckPassByName env name task false).bind fun user =>
      if user.id = 0 then .pure () else k user) h s := by
  apply wp_bind
  refine does_lookupCheckPassByName hp ?_ ?_
  · intro h s hlen
    exact finishes_pure hlen
  · intro user s₁ hinv hext hmem _ _ hp
    have hid : user.id ≠ 0 := by have := (hinv.userId_pos hmem).1; omega
    rw [if_neg hid]
    exact hk user _ s₁ hinv hext hmem hp (ha.cons _)

theorem finishes_toApiFormat {k : List ApiMessage → Work Unit} {h : List Event} {wrote : Bool}
    {rows : List Message} (msgs : List Message) (hp : Pending task wrote h)
    (ha : Authentic env task h) (hrows : ∀ m ∈ rows, Visible task.request.uid s.storage m)
    (hk : ∀ apiMsgs h s, Pending task wrote h → Authentic env task h →
      (∀ m ∈ rows, Visible task.request.uid s.storage m) → Finishes env task (k apiMsgs) h s) :
    Finishes env task ((toApiFormat msgs).bind k) h s := by
  apply wp_bind
  refine does_traverse (F := fun h s => Pending task wrote h ∧ Authentic env task h ∧
    ∀ m ∈ rows, Visible task.request.uid s.storage m) msgs ⟨hp, ha, hrows⟩ ?_ ?_
  · rintro msg h s ⟨hp, ha, hrows⟩
    simp only [call, Prog.perform, Prog.bind_eq, Prog.op_bind, Prog.pure_bind]
    refine does_read rfl hp fun s₁ chat hext _ _ hp => ?_
    refine does_read rfl hp fun s₂ user hext' _ _ hp => ?_
    exact ⟨hp, (ha.cons _).cons _, fun m hm => ((hrows m hm).mono hext).mono hext'⟩
  · rintro apiMsgs h s ⟨hp, ha, hrows⟩
    exact hk apiMsgs h s hp ha hrows

theorem finishes_processUserStatus (hcmd : task.cmd = .userStatus) :
    Finishes env task (processUserStatus env task) [] s := by
  refine finishes_authenticated (by simp [hcmd]) fun user h s _ _ _ _ hp ha => ?_
  refine finishes_found hp ha fun userTo h s _ _ _ hp ha => ?_
  refine does_time hp fun s₁ _ _ hp => ?_
  exact finishes_success hp (Or.inr (ha.cons _)) rfl nofun (by simp)

theorem finishes_processUserLogin (hcmd : task.cmd = .userLogin) :
    Finishes env task (processUserLogin env task) [] s := by
  apply wp_bind
  refine does_lookupCheckPassByName (Pending.nil task) ?_ ?_
  · intro h s hlen
    exact finishes_pure hlen
  · intro user s₁ hinv hext hmem hname hpass hp
    have hid : user.id ≠ 0 := by have := (hinv.userId_pos hmem).1; omega
    have ha : Authentic env task [⟨s₁, .db (.lookupUserByName task.request.user), [user], s₁⟩] :=
      ⟨s₁.storage, rfl, user, hmem, by simpa [hcmd] using hname, hpass rfl⟩
    rw [if_neg hid]
    refine does_time hp fun s₂ _ _ hp => ?_
    exact finishes_success hp (Or.inr (ha.cons _)) rfl nofun (by simp)

theorem finishes_processUserCreate (hcmd : task.cmd = .userCreate) :
    Finishes env task (processUserCreate env task) [] s := by
  refine does_call (fun _ _ _ _ => (Pending.nil task).write (by simp [hcmd, readsOnly]) (by simp))
    (fun _ _ _ => trivial) fun s₁ s₂ user _ _ hinv _ hexec => ?_
  rcases Storage.createUser_cases hexec with ⟨-, hsame, rfl⟩ | ⟨-, -, -, huser, -⟩
  · -- the name is taken and nothing was created
    exact does_error (by decide) ((Pending.nil task).unwritten hsame (by simp)) fun _ _ _ hlen => finishes_pure hlen
  · have hp := (Pending.nil task).write (s := s₁) (t := s₂) (r := user)
      (by simp [hcmd, readsOnly]) (by simp)
    have hid : user.id ≠ 0 := by simp [huser, hinv.userCounter]
    rw [Prog.pure_bind, if_neg hid]
    refine does_time hp fun s₃ _ _ hp => ?_
    exact finishes_success hp (Or.inl hcmd) rfl nofun (by simp)

theorem finishes_processChatCreate (hcmd : task.cmd = .chatCreate) :
    Finishes env task (processChatCreate env task) [] s := by
  refine finishes_authenticated (by simp [hcmd]) fun user h s _ _ huid hstored hp ha => ?_
  refine does_call (fun _ _ _ _ => hp.write (by simp [hcmd, readsOnly]) (by simp)) ?_
    fun s₁ s₂ chat _ _ hinv _ hexec => ?_
  · intro s₁ hext hinv _
    rw [← huid]
    exact (hstored.mono hext).mem_userIds
  rcases Storage.createChat_cases hexec with ⟨-, hsame, rfl⟩ | ⟨-, -, hchat, -⟩
  · exact does_error (by decide) (hp.unwritten hsame (by simp)) fun _ _ _ hlen => finishes_pure hlen
  · have hp := hp.write (s := s₁) (t := s₂) (r := chat) (by simp [hcmd, readsOnly]) (by simp)
    have hid : chat.id ≠ 0 := by simp [hchat, hinv.chatCounter]
    rw [Prog.pure_bind, if_neg hid]
    refine does_time hp fun s₃ _ _ hp => ?_
    exact finishes_success hp (Or.inr ((ha.cons _).cons _)) rfl nofun (by simp)

theorem finishes_withChat {k : Chat → Work Unit} {h : List Event} (hp : Pending task false h)
    (hk : ∀ chat e s₁, Inv s₁ → Ext s s₁ → chat ∈ s₁.storage.chats →
      chat.name = task.request.chatName → Pending task false (e :: h) →
      Finishes env task (k chat) (e :: h) s₁) :
    Finishes env task (withChat task k) h s := by
  refine does_read rfl hp fun s₁ chats hext hinv hexec hp => ?_
  obtain ⟨-, hfound⟩ := Prod.mk.inj (Option.some.inj hexec)
  rw [Prog.pure_bind]
  split
  · rename_i chat
    obtain ⟨hmem, hname⟩ := Storage.mem_lookupChatByName (hfound ▸ List.mem_singleton.mpr rfl)
    exact hk chat _ s₁ hinv hext hmem hname hp
  · rename_i hnot
    refine does_errorResponse (by decide) hp (fun _ => ⟨_, List.mem_cons_self, rfl, ?_⟩)
      fun _ _ _ hlen => finishes_pure hlen
    intro hlen
    obtain ⟨chat, hone⟩ := List.length_eq_one_iff.mp hlen
    exact hnot chat (hfound.symm.trans hone)

theorem finishes_processChatAdduser (hcmd : task.cmd = .chatAdduser) :
    Finishes env task (processChatAdduser env task) [] s := by
  refine finishes_authenticated (by simp [hcmd]) fun user h s _ _ _ _ hp ha => ?_
  refine finishes_found hp ha fun toAdd h s _ _ hadd hp ha => ?_
  refine finishes_withChat hp fun chat e s₁ _ hext hchat _ hp => ?_
  refine does_call (fun _ _ _ _ => hp.write (by simp [hcmd, readsOnly]) (by simp)) ?_
    fun s₂ s₃ _ _ _ _ _ _ => ?_
  · intro s₂ hext' hinv
    have hstored : StoredUser s₂.storage toAdd :=
      (StoredUser.mono ⟨toAdd, hadd, rfl⟩ hext).mono hext'
    exact ⟨List.mem_map_of_mem (hext'.chats.subset hchat), hstored.mem_userIds⟩
  · exact finishes_success (hp.write (by simp [hcmd, readsOnly]) (by simp))
      (Or.inr ((ha.cons _).cons _)) rfl nofun (by simp)

/-- Saving a message and reporting it. -/
theorem finishes_saveMessage {h : List Event} {msg : Message} (hcmd : isSend task.cmd = true)
    (hp : Pending task false h) (ha : Authentic env task h)
    (hdirect : task.cmd = .messageSend → ∀ s₁, Ext s s₁ → Direct task s₁.storage msg)
    (hvalid : ∀ s₁, Ext s s₁ → Inv s₁ → (Call.saveMessage msg).Valid s₁.storage) :
    Finishes env task (.op (.db (.saveMessage msg)) fun _ => send (.sendOkResponse statusOk)) h s := by
  have hro : readsOnly task.cmd = false := by
    cases hc : task.cmd <;> simp_all [isSend, readsOnly]
  have hwrite : ∀ (s₁ s₂ : Shared) (r : Unit), Ext s s₁ →
      Pending task true (⟨s₁, .db (.saveMessage msg), r, s₂⟩ :: h) := by
    intro s₁ s₂ r hext
    refine hp.write hro ?_
    intro msg' heq
    obtain rfl := Call.saveMessage.inj heq
    exact ⟨hcmd, fun hc => hdirect hc s₁ hext⟩
  refine does_call hwrite hvalid fun s₁ s₂ r hext _ _ _ _ => ?_
  exact finishes_success (hwrite s₁ s₂ r hext) (Or.inr (ha.cons _)) rfl nofun (by simp)

theorem finishes_processMessageSend (hcmd : task.cmd = .messageSend) :
    Finishes env task (processMessageSend env task) [] s := by
  refine finishes_authenticated (by simp [hcmd]) fun user h s _ _ huid hstored hp ha => ?_
  refine does_read rfl hp fun s₁ usersTo hext hinv hexec hp => ?_
  obtain ⟨-, hfound⟩ := Prod.mk.inj (Option.some.inj hexec)
  rw [Prog.pure_bind]
  split
  · exact does_error (by decide) hp fun _ _ _ hlen => finishes_pure hlen
  · rename_i userTo
    obtain ⟨hmem, hname⟩ := Storage.mem_lookupUserByName (hfound ▸ List.mem_singleton.mpr rfl)
    refine does_time hp fun s₂ hext' _ hp => ?_
    have hto : StoredUser s₂.storage userTo := StoredUser.mono ⟨userTo, hmem, rfl⟩ hext'
    refine finishes_saveMessage (by simp [hcmd, isSend]) hp ((ha.cons _).cons _) ?_ ?_
    · rintro - s₃ hext''
      obtain ⟨v, hv, hkey⟩ := hto.mono hext''
      obtain ⟨-, hself, hvname, -⟩ := User.of_key_eq hkey
      exact ⟨huid, v, hv, hvname.trans hname, hself.symm⟩
    intro s₃ hext'' hinv''
    exact ⟨(((hstored.mono hext).mono hext').mono hext'').mem_userIds, ((hto.mono hext'').self hinv'').1⟩
  · exact does_error (by decide) hp fun _ _ _ hlen => finishes_pure hlen

theorem finishes_processMessageSendChat (hcmd : task.cmd = .messageSendChat) :
    Finishes env task (processMessageSendChat env task) [] s := by
  refine finishes_authenticated (by simp [hcmd]) fun user h s _ _ _ hstored hp ha => ?_
  refine finishes_withChat hp fun chat e s₁ _ hext hchat _ hp => ?_
  refine does_time hp fun s₂ hext' _ hp => ?_
  refine finishes_saveMessage (by simp [hcmd, isSend]) hp ((ha.cons _).cons _) (by simp [hcmd]) ?_
  intro s₃ hext'' _
  exact ⟨(((hstored.mono hext).mono hext').mono hext'').mem_userIds,
    List.mem_map_of_mem (hext''.chats.subset (hext'.chats.subset hchat))⟩

theorem mem_limited {opt : GetMsgOpt} {l : List Message} {m : Message}
    (h : m ∈ Storage.limited opt l) : m ∈ l :=
  (Storage.limited_sublist opt l).subset h

theorem mem_mixFromAndToMessages {from_ to_ : List Message} {max : Nat} {m : Message}
    (h : m ∈ mixFromAndToMessages env from_ to_ max) : m ∈ from_ ∨ m ∈ to_ := by
  have hm : m ∈ env.sortByTs (from_ ++ to_) := by
    unfold mixFromAndToMessages at h
    dsimp only at h
    split at h
    · exact h
    · exact List.mem_of_mem_take h
  simpa using (env.sortByTs_perm _).mem_iff.mp hm

/-- A scan of the history returns what its condition selects. -/
theorem of_selectMessages {s s' : Storage} {pred : Message → Bool} {opt : GetMsgOpt}
    {msgs : List Message} (h : (Call.selectMessages pred opt).exec s = some (s', msgs)) :
    ∀ m ∈ msgs, pred m = true := by
  obtain ⟨found, hsel, heq⟩ := Option.map_eq_some_iff.mp h
  obtain ⟨-, rfl⟩ := Prod.mk.inj heq
  rw [Storage.selectMessages_eq] at hsel
  obtain rfl := Option.some.inj hsel
  intro m hm
  exact (List.mem_filter.mp (mem_limited hm)).2

theorem finishes_processUserHistory (hcmd : task.cmd = .userHistory) :
    Finishes env task (processUserHistory env task) [] s := by
  refine finishes_authenticated (by simp [hcmd]) fun user h s _ _ huid hstored hp ha => ?_
  refine finishes_found hp ha fun userTo h s _ hext _ hp ha => ?_
  refine does_read rfl hp fun s₁ msgsTo hext₁ _ hto hp => ?_
  refine does_read rfl hp fun s₂ msgsFrom hext₂ hinv₂ hfrom hp => ?_
  have hself := ((((hstored.mono hext).mono hext₁).mono hext₂).self hinv₂).2
  have hrows : ∀ m ∈ mixFromAndToMessages env msgsFrom msgsTo task.request.count,
      Visible task.request.uid s₂.storage m := by
    intro m hm
    rcases mem_mixFromAndToMessages hm with hm | hm
    · have hpred := of_selectMessages hfrom m hm
      simp only [sentTo, decide_eq_true_eq] at hpred
      left
      rw [hpred.2, ← huid]
      exact hself
    · have hpred := of_selectMessages hto m hm
      simp only [sentTo, decide_eq_true_eq] at hpred
      exact Or.inr (hpred.1.trans huid)
  refine finishes_toApiFormat _ hp ((ha.cons _).cons _) hrows fun apiMsgs h s hp ha hrows => ?_
  exact finishes_success hp (Or.inr ha) rfl nofun fun s₁ hext m hm => (hrows m hm).mono hext

/-- The chats a user is listed in, each with its own id. -/
theorem finishes_lookupChatsForUserId {k : List Chat → Work Unit} {h : List Event} {wrote : Bool}
    {uid : Nat} (hp : Pending task wrote h) (ha : Authentic env task h)
    (hk : ∀ chats h s, Pending task wrote h → Authentic env task h →
      (∀ chat ∈ chats, { chatid := chat.id, uid } ∈ s.storage.chatuser) →
      Finishes env task (k chats) h s) :
    Finishes env task ((lookupChatsForUserId uid).bind k) h s := by
  apply wp_bind
  refine does_read rfl hp fun s₁ ids hext hinv hexec hp => ?_
  obtain ⟨-, rfl⟩ := Prod.mk.inj (Option.some.inj hexec)
  refine wp_mono ?_ (wp_traverse
    (J := fun _ chats h s => Pending task wrote h ∧ Authentic env task h ∧
      s₁.storage.Extends s.storage ∧ s.storage.Integrity ∧
      ∀ chat ∈ chats, { chatid := chat.id, uid } ∈ s.storage.chatuser) ?_
    ⟨hp, ha.cons _, .refl _, hinv, by simp⟩)
  · rintro chats h s ⟨hp, ha, -, -, hlinks⟩
    exact hk chats h s hp ha hlinks
  · rintro done cid rest hids chats h s ⟨hp, ha, hext, hinv, hlinks⟩
    refine does_read rfl hp fun s₂ chat hext' hinv' hexec hp => ?_
    obtain ⟨-, rfl⟩ := Prod.mk.inj (Option.some.inj hexec)
    refine ⟨hp, ha.cons _, hext.trans hext', hinv', ?_⟩
    intro chat hchat
    rcases List.mem_append.mp hchat with hold | hnew
    · exact hext'.chatuser.subset (hlinks chat hold)
    · obtain rfl := List.mem_singleton.mp hnew
      have hlisted : cid ∈ s₁.storage.chatIdsForUserId uid := by simp [hids]
      have hlink := (hext.trans hext').chatuser.subset (Storage.mem_chatIdsForUserId.mp hlisted)
      rw [(Storage.mem_of_lookupChatById (hinv'.links _ hlink).1).2]
      exact hlink

/-- A batch holds messages of its chat only. -/
theorem of_getMessages {s s' : Storage} {chatid : Nat} {opt : GetMsgOpt} {msgs : List Message}
    (h : (Call.getMessages chatid opt).exec s = some (s', msgs)) :
    ∀ m ∈ msgs, m.chatTo = chatid ∧ opt.ts < m.ts := by
  obtain ⟨marked, -, heq⟩ := Storage.getMessages_eq s chatid opt
  obtain ⟨-, rfl⟩ := Prod.mk.inj (Option.some.inj (heq.symm.trans h))
  intro m hm
  simpa [Storage.newer] using (List.mem_filter.mp (mem_limited hm)).2

theorem finishes_processIdle (hcmd : task.cmd = .idle) :
    Finishes env task (processIdle env task) [] s := by
  have hanswered : ∀ h, Answered task h := fun h ha => by simp [hcmd, answered] at ha
  refine finishes_authenticated (by simp [hcmd]) fun user h s _ _ huid _ hp ha => ?_
  refine does_time hp fun s₁ _ _ hp => ?_
  refine does_call (fun _ _ _ _ => hp.write (by simp [hcmd, readsOnly]) (by simp))
    (fun _ _ _ => trivial) fun s₂ s₃ _ _ _ _ _ _ => ?_
  refine finishes_lookupChatsForUserId (hp.write (by simp [hcmd, readsOnly]) (by simp))
    ((ha.cons _).cons _) fun chats h s hp ha hlinks => ?_
  apply wp_bind
  -- each round adds a batch of a chat of the user
  refine wp_mono ?_ (wp_traverse
    (J := fun _ batch h t => Pending task true h ∧ Authentic env task h ∧
      s.storage.Extends t.storage ∧
      ∀ msgs ∈ batch, ∀ m ∈ msgs, Visible task.request.uid t.storage m) ?_
    ⟨hp, ha, .refl _, by simp⟩)
  · rintro batch h s ⟨hp, ha, -, hrows⟩
    have hflat : ∀ m ∈ (batch.filter (· ≠ [])).flatten, Visible task.request.uid s.storage m := by
      intro m hm
      obtain ⟨msgs, hmsgs, hm⟩ := List.mem_flatten.mp hm
      exact hrows msgs (List.mem_filter.mp hmsgs).1 m hm
    dsimp only
    split
    · refine finishes_toApiFormat _ hp ha hflat fun apiMsgs h s hp ha hrows => ?_
      exact finishes_success hp (Or.inr ha) rfl (fun _ => hcmd) fun s₁ hext m hm => (hrows m hm).mono hext
    · split
      · exact finishes_success hp (Or.inr ha) rfl (fun _ => hcmd) (by simp)
      · exact hanswered h
  · rintro done chat rest hchats batch h t ⟨hp, ha, hext, hrows⟩
    refine does_call (fun _ _ _ _ => hp.writeAgain (by simp)) (fun _ _ _ => trivial)
      fun s₄ s₅ msgs hext₄ hext₅ _ _ hexec => ?_
    have hlink := hlinks chat (by simp [hchats])
    refine ⟨hp.writeAgain (by simp), ha.cons _, (hext.trans hext₄).trans hext₅, ?_⟩
    intro msgs' hmsgs m hm
    rcases List.mem_append.mp hmsgs with hold | hnew
    · exact ((hrows msgs' hold m hm).mono hext₄).mono hext₅
    · obtain rfl := List.mem_singleton.mp hnew
      left
      rw [(of_getMessages hexec m hm).1, ← huid]
      exact ((hext.trans hext₄).trans hext₅).chatuser.subset hlink

/-- Every task, whatever its command. -/
theorem processTask_owes (env : Extern) (task : Task) (s : Shared) :
    Owes Op.exec Inv Ext (Good env) Answered task (processTask env task) [] s := by
  unfold processTask
  split <;> rename_i hcmd
  · exact finishes_processIdle hcmd
  · exact finishes_processUserStatus hcmd
  · exact finishes_processUserHistory hcmd
  · exact finishes_processMessageSend hcmd
  · exact finishes_processUserCreate hcmd
  · exact finishes_processUserLogin hcmd
  · exact finishes_processChatCreate hcmd
  · exact finishes_processChatAdduser hcmd
  · exact finishes_processMessageSendChat hcmd
  all_goals exact fun ha => by simp [hcmd, answered] at ha

end

end O2Chat.Server
