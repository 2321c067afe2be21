import O2Chat.Server.WorkerRuns

/-!
# What one poll does

A poll lists the chats of its user and scans them one by one. `Scanned` relates the
history of a poll to the messages its scans returned; `workers_poll` proves it of the
polls in every run, whatever the other workers do between their operations.
-/
namespace O2Chat.Server

open O2Chat.Common O2Chat.Db O2Chat.Lib.Interleaving O2Chat.Lib.Runs

/-! ## The state only grows -/

/-- Rows are appended to the store, and saved messages to the list of all saves. -/
structure Grows (s s' : Shared) : Prop where
  storage : s.storage.Extends s'.storage
  saves : s.saves <+: s'.saves

theorem Grows.refl (s : Shared) : Grows s s := ⟨.refl _, List.prefix_rfl⟩

theorem Grows.trans {a b c : Shared} (h : Grows a b) (h' : Grows b c) : Grows a c :=
  ⟨h.storage.trans h'.storage, h.saves.trans h'.saves⟩

theorem Op.exec_grows {o : Op} {s s' : Shared} {r : o.Res} (h : o.exec s = some (s', r)) :
    Grows s s' := by
  refine ⟨Op.exec_extends h, ?_⟩
  cases o with
  | db c =>
    obtain ⟨done, -, heq⟩ := Option.map_eq_some_iff.mp h
    obtain ⟨rfl, -⟩ := Prod.mk.inj heq
    exact List.prefix_append _ _
  | time =>
    obtain ⟨rfl, -⟩ := Prod.mk.inj (Option.some.inj h)
    exact List.prefix_rfl
  | reply reply rows =>
    obtain ⟨rfl, -⟩ := Prod.mk.inj (Option.some.inj h)
    exact List.prefix_rfl

/-! ## Scans -/

/-- What a scan returns. -/
def found (s : Storage) (cid : Nat) (opt : GetMsgOpt) : List Message :=
  Storage.limited opt (s.messages.reverse.filter (Storage.newer cid opt.ts))

theorem getMessages_found {s s' : Storage} {cid : Nat} {opt : GetMsgOpt} {msgs : List Message}
    (h : (Call.getMessages cid opt).exec s = some (s', msgs)) : msgs = found s cid opt := by
  obtain ⟨marked, -, heq⟩ := Storage.getMessages_eq s cid opt
  exact (Prod.mk.inj (Option.some.inj (heq.symm.trans h))).2.symm

/-- The options of the scans of a poll. -/
def pollOpt (task : Task) : GetMsgOpt := { ts := task.request.ts }

/-- The events scan the chats `cids` with the options of the poll; together the scans
returned `rows`. -/
structure Scans (task : Task) (cids : List Nat) (rows : List Message) (h : List Event) : Prop where
  all : ∀ cid ∈ cids, ∃ e ∈ h, e.op = .db (.getMessages cid (pollOpt task))
  only : ∀ e ∈ h, ∀ cid opt, e.op = .db (.getMessages cid opt) →
    opt = pollOpt task ∧ ∀ m ∈ found e.pre.storage cid opt, m ∈ rows
  source : ∀ m ∈ rows, ∃ e ∈ h, ∃ cid, e.op = .db (.getMessages cid (pollOpt task)) ∧
    m ∈ found e.pre.storage cid (pollOpt task)

/-- The poll has listed the chats of its user and then scanned all of them. -/
def Scanned (task : Task) (rows : List Message) (h : List Event) : Prop :=
  ∃ after list before, h = after ++ list :: before ∧
    list.op = .db (.chatIdsForUserId task.request.uid) ∧
    Scans task (list.pre.storage.chatIdsForUserId task.request.uid) rows after

section

variable {task : Task} {cids : List Nat} {rows : List Message} {h : List Event} {e : Event}

theorem Scans.nil (task : Task) : Scans task [] [] [] := by
  constructor <;> simp

theorem Scans.other (hs : Scans task cids rows h)
    (he : ∀ cid opt, e.op ≠ .db (.getMessages cid opt)) : Scans task cids rows (e :: h) := by
  refine ⟨?_, ?_, ?_⟩
  · intro cid hcid
    obtain ⟨e', he', hop⟩ := hs.all cid hcid
    exact ⟨e', List.mem_cons_of_mem _ he', hop⟩
  · intro e' he' cid opt hop
    rcases List.mem_cons.mp he' with rfl | he'
    · exact absurd hop (he cid opt)
    · exact hs.only e' he' cid opt hop
  · intro m hm
    obtain ⟨e', he', hsource⟩ := hs.source m hm
    exact ⟨e', List.mem_cons_of_mem _ he', hsource⟩

theorem Scans.scan (hs : Scans task cids rows h) {cid : Nat}
    (he : e.op = .db (.getMessages cid (pollOpt task))) :
    Scans task (cids ++ [cid]) (rows ++ found e.pre.storage cid (pollOpt task)) (e :: h) := by
  refine ⟨?_, ?_, ?_⟩
  · intro cid' hcid
    rcases List.mem_append.mp hcid with hold | hnew
    · obtain ⟨e', he', hop⟩ := hs.all cid' hold
      exact ⟨e', List.mem_cons_of_mem _ he', hop⟩
    · obtain rfl := List.mem_singleton.mp hnew
      exact ⟨e, List.mem_cons_self, he⟩
  · intro e' he' cid' opt hop
    rcases List.mem_cons.mp he' with rfl | he'
    · obtain ⟨rfl, rfl⟩ := Call.getMessages.inj (Op.db.inj (he.symm.trans hop))
      exact ⟨rfl, fun m hm => List.mem_append_right _ hm⟩
    · obtain ⟨hopt, hrows⟩ := hs.only e' he' cid' opt hop
      exact ⟨hopt, fun m hm => List.mem_append_left _ (hrows m hm)⟩
  · intro m hm
    rcases List.mem_append.mp hm with hold | hnew
    · obtain ⟨e', he', hsource⟩ := hs.source m hold
      exact ⟨e', List.mem_cons_of_mem _ he', hsource⟩
    · exact ⟨e, List.mem_cons_self, cid, he, hnew⟩

theorem Scanned.other (hs : Scanned task rows h)
    (he : ∀ cid opt, e.op ≠ .db (.getMessages cid opt)) : Scanned task rows (e :: h) := by
  obtain ⟨after, list, before, rfl, hop, hscans⟩ := hs
  exact ⟨e :: after, list, before, rfl, hop, hscans.other he⟩

end

/-! ## What a poll owes -/

/-- The response has the text and the time of every row, in the same order. -/
def SameMessages (msgs : List ApiMessage) (rows : List Message) : Prop :=
  msgs.map (fun a => (a.ts, a.msg)) = rows.map fun m => (m.ts, m.message)

/-- The poll found no user with its credentials in its first operation. -/
def Refused (env : Extern) (task : Task) (h : List Event) : Prop :=
  ∃ s, firstStore h = some s ∧ ¬ Matches env task s

/-- When a poll replies it has been refused, or the reply has what its scans returned. -/
def PollGood (env : Extern) (task : Task) (h : List Event) : Prop :=
  task.cmd = .idle → ∀ e earlier, h = e :: earlier → ∀ reply rows, e.op = .reply reply rows →
    Refused env task earlier ∨ ∃ msgs, reply = .sendMessagesToIdleConn msgs ∧
      SameMessages msgs rows ∧ Scanned task rows earlier

/-- A finished poll has been refused, or has replied with what its scans returned, unless
they returned nothing. -/
def PollDone (env : Extern) (task : Task) (h : List Event) : Prop :=
  task.cmd = .idle → Refused env task h ∨ ∃ rows, Scanned task rows h ∧
    (rows = [] ∨ ∃ e ∈ h, ∃ msgs, e.op = .reply (.sendMessagesToIdleConn msgs) rows ∧
      SameMessages msgs rows)

abbrev Polls (env : Extern) (task : Task) {α : Type} (p : Work α)
    (Q : α → List Event → Shared → Prop) (h : List Event) (s : Shared) : Prop :=
  wp Op.exec Inv Grows (PollGood env task) p Q h s

section

variable {env : Extern} {task : Task} {α : Type} {Q : α → List Event → Shared → Prop}
  {h : List Event} {s : Shared}

theorem pollGood_of_op {e : Event} (he : ∀ reply rows, e.op ≠ .reply reply rows) :
    PollGood env task (e :: h) := by
  rintro - e' earlier heq reply rows hop
  obtain ⟨rfl, -⟩ := List.cons.inj heq
  exact absurd hop (he reply rows)

/-- A locked section that needs no stored ids. -/
theorem polls_db {c : Call} {k : c.Result → Work α} (hvalid : ∀ s, c.Valid s)
    (hk : ∀ s₁ s₂ r, Grows s s₁ → Inv s₁ → Inv s₂ → Grows s₁ s₂ →
      c.exec s₁.storage = some (s₂.storage, r) →
      Polls env task (k r) Q (⟨s₁, .db c, r, s₂⟩ :: h) s₂) :
    Polls env task (.op (.db c) k) Q h s := by
  intro s₁ hgrows hinv s₂ r hexec
  have hgrows' := Op.exec_grows hexec
  obtain ⟨⟨storage, r'⟩, hc, heq⟩ := Option.map_eq_some_iff.mp hexec
  obtain ⟨rfl, rfl⟩ := Prod.mk.inj heq
  have hinv' := Call.exec_integrity hinv (hvalid _) hc
  exact ⟨hinv', hgrows', pollGood_of_op nofun, hk s₁ _ r' hgrows hinv hinv' hgrows' hc⟩

theorem polls_time {k : Nat → Work α}
    (hk : ∀ s₁, Grows s s₁ → Inv s₁ → Polls env task (k s₁.clock) Q (⟨s₁, .time, s₁.clock, s₁⟩ :: h) s₁) :
    Polls env task (.op .time k) Q h s := by
  intro s₁ hgrows hinv s₂ r hexec
  obtain ⟨rfl, rfl⟩ := Prod.mk.inj (Option.some.inj hexec)
  exact ⟨hinv, .refl _, pollGood_of_op nofun, hk s₁ hgrows hinv⟩

theorem polls_reply {reply : Reply} {rows : List Message} {k : Unit → Work α}
    (hgood : ∀ s₁ : Shared, PollGood env task (⟨s₁, .reply reply rows, (), s₁⟩ :: h))
    (hk : ∀ s₁ : Shared, Polls env task (k ()) Q (⟨s₁, .reply reply rows, (), s₁⟩ :: h) s₁) :
    Polls env task (.op (.reply reply rows) k) Q h s := by
  intro s₁ hgrows hinv s₂ r hexec
  obtain ⟨rfl, -⟩ := Prod.mk.inj (Option.some.inj hexec)
  exact ⟨hinv, .refl _, hgood s₁, hk s₁⟩

theorem pollGood_of_refused {e : Event} (hr : Refused env task h) : PollGood env task (e :: h) := by
  rintro - e' earlier heq reply rows -
  obtain ⟨-, rfl⟩ := List.cons.inj heq
  exact Or.inl hr

theorem pollGood_of_scanned {s₁ : Shared} {msgs : List ApiMessage} {rows : List Message}
    (hsame : SameMessages msgs rows) (hs : Scanned task rows h) :
    PollGood env task (⟨s₁, .reply (.sendMessagesToIdleConn msgs) rows, (), s₁⟩ :: h) := by
  rintro - e' earlier heq reply rows' hop
  obtain ⟨rfl, rfl⟩ := List.cons.inj heq
  obtain ⟨rfl, rfl⟩ := Op.reply.inj hop
  exact Or.inr ⟨msgs, rfl, hsame, hs⟩

/-! ## The parts of a poll -/

/-- A user that the lookup does not find, or finds with another password. -/
theorem not_matches_of_lookup (hcmd : task.cmd = .idle) {s₁ : Shared} (hinv : Inv s₁)
    (hno : (s₁.storage.lookupUserById task.request.uid).id = 0 ∨
      encryptedPass env task.request.password ≠
        (s₁.storage.lookupUserById task.request.uid).password) :
    ¬ Matches env task s₁.storage := by
  rintro ⟨v, hv, hid, hpass⟩
  rw [if_neg (by simp [hcmd])] at hid
  have hfound := hinv.lookupUserById_eq hv
  rw [hid] at hfound
  rw [hfound] at hno
  have hpos := (hinv.userId_pos hv).1
  rcases hno with hzero | hne
  · omega
  · exact hne hpass.symm

theorem polls_lookupCheckPass {Q : User → List Event → Shared → Prop} (hcmd : task.cmd = .idle)
    (hfail : ∀ h s, Refused env task h → Q {} h s)
    (hok : ∀ user h s, user.id ≠ 0 → user.id = task.request.uid → Q user h s) :
    Polls env task (lookupCheckPass env task) Q [] s := by
  unfold lookupCheckPass call send Prog.perform
  simp only [Prog.bind_eq, Prog.op_bind, Prog.pure_bind]
  refine polls_db (fun _ => trivial) fun s₁ s₂ user _ hinv _ _ hexec => ?_
  obtain ⟨-, rfl⟩ := Prod.mk.inj (Option.some.inj hexec)
  split
  · rename_i hid
    have hr : ¬ Matches env task s₁.storage := not_matches_of_lookup hcmd hinv (Or.inl hid)
    refine polls_reply (fun _ => pollGood_of_refused ⟨s₁.storage, rfl, hr⟩) fun s₃ => ?_
    exact hfail _ _ ⟨s₁.storage, rfl, hr⟩
  · rename_i hid
    split
    · rename_i hpass
      have hr := not_matches_of_lookup hcmd hinv (Or.inr hpass)
      refine polls_reply (fun _ => pollGood_of_refused ⟨s₁.storage, rfl, hr⟩) fun s₃ => ?_
      exact hfail _ _ ⟨s₁.storage, rfl, hr⟩
    · exact hok _ _ _ hid (Storage.mem_of_lookupUserById hid).2

/-- The chats found are the ones listed, in the same order. -/
theorem polls_lookupChatsForUserId {Q : List Chat → List Event → Shared → Prop} {uid : Nat}
    (hQ : ∀ (chats : List Chat) after list s, list.op = .db (.chatIdsForUserId uid) →
      chats.map (·.id) = list.pre.storage.chatIdsForUserId uid → Scans task [] [] after →
      Q chats (after ++ list :: h) s) :
    Polls env task (lookupChatsForUserId uid) Q h s := by
  unfold lookupChatsForUserId call Prog.perform
  simp only [Prog.bind_eq, Prog.op_bind, Prog.pure_bind]
  refine polls_db (fun _ => trivial) fun s₁ s₂ ids _ _ hinv hgrows hexec => ?_
  obtain ⟨hsame, rfl⟩ := Prod.mk.inj (Option.some.inj hexec)
  refine wp_mono ?_ (wp_traverse
    (J := fun done (chats : List Chat) h' s => ∃ after, h' = after ++ (⟨s₁,
        .db (.chatIdsForUserId uid), s₁.storage.chatIdsForUserId uid, s₂⟩ : Event) :: h ∧
      chats.map (·.id) = done ∧ Scans task [] [] after ∧ Grows s₁ s) ?_
    ⟨[], rfl, rfl, Scans.nil task, hgrows⟩)
  · rintro chats h' s ⟨after, rfl, hids, hscans, -⟩
    exact hQ chats after _ s rfl hids hscans
  · rintro done cid rest hids chats h' s ⟨after, rfl, hdone, hscans, hg⟩
    refine polls_db (fun _ => trivial) fun s₃ s₄ chat hg₃ hinv₃ _ hg₄ hexec => ?_
    obtain ⟨-, rfl⟩ := Prod.mk.inj (Option.some.inj hexec)
    have hlisted : cid ∈ s₁.storage.chatIdsForUserId uid := by simp [hids]
    have hlink := (hg.trans hg₃).storage.chatuser.subset (Storage.mem_chatIdsForUserId.mp hlisted)
    have hid := (Storage.mem_of_lookupChatById (hinv₃.links _ hlink).1).2
    refine ⟨_ :: after, rfl, ?_, hscans.other (by simp), (hg.trans hg₃).trans hg₄⟩
    rw [List.map_append, hdone, List.map_singleton, hid]

theorem polls_toApiFormat {Q : List ApiMessage → List Event → Shared → Prop}
    {rows : List Message} (msgs : List Message) (hs : Scanned task rows h)
    (hQ : ∀ apiMsgs h s, SameMessages apiMsgs msgs → Scanned task rows h → Q apiMsgs h s) :
    Polls env task (toApiFormat msgs) Q h s := by
  refine wp_mono (fun apiMsgs h s hdone => hQ apiMsgs h s hdone.1 hdone.2) (wp_traverse
    (J := fun done apiMsgs h _ => SameMessages apiMsgs done ∧ Scanned task rows h) ?_ ⟨rfl, hs⟩)
  rintro done msg rest - apiMsgs h s ⟨hsame, hs⟩
  simp only [call, Prog.perform, Prog.bind_eq, Prog.op_bind, Prog.pure_bind]
  refine polls_db (fun _ => trivial) fun s₁ s₂ chat _ _ _ _ _ => ?_
  refine polls_db (fun _ => trivial) fun s₃ s₄ user _ _ _ _ _ => ?_
  refine ⟨?_, (hs.other (by simp)).other (by simp)⟩
  unfold SameMessages at hsame ⊢
  rw [List.map_append, hsame, List.map_append]
  rfl

/-- The scans of all chats in turn. -/
theorem polls_scans {Q : List (List Message) → List Event → Shared → Prop} {chats : List Chat}
    {after : List Event} (hs : Scans task [] [] after)
    (hQ : ∀ batch after s, Scans task (chats.map (·.id)) batch.flatten after →
      Q batch (after ++ h) s) :
    Polls env task (Prog.traverse (fun chat : Chat => call (.getMessages chat.id (pollOpt task)))
      chats) Q (after ++ h) s := by
  refine wp_mono ?_ (wp_traverse
    (J := fun done batch h' _ => ∃ after, h' = after ++ h ∧
      Scans task (done.map Chat.id) batch.flatten after) ?_ ⟨after, rfl, hs⟩)
  · rintro batch h' s ⟨after, rfl, hscans⟩
    exact hQ batch after s hscans
  · rintro done chat rest - batch h' s ⟨after, rfl, hscans⟩
    refine polls_db (fun _ => trivial) fun s₁ s₂ msgs _ _ _ _ hexec => ?_
    obtain rfl := getMessages_found hexec
    refine ⟨_ :: after, rfl, ?_⟩
    have hnext := hscans.scan (e := ⟨s₁, .db (.getMessages chat.id (pollOpt task)),
      found s₁.storage chat.id (pollOpt task), s₂⟩) rfl
    rw [List.map_append, List.flatten_append, List.flatten_singleton]
    exact hnext

/-- Dropping the empty batches drops no message. -/
theorem flatten_filter_ne_nil (batch : List (List Message)) :
    (batch.filter (· ≠ [])).flatten = batch.flatten := by
  induction batch with
  | nil => rfl
  | cons msgs batch ih =>
    rw [List.filter_cons]
    split
    · rw [List.flatten_cons, List.flatten_cons, ih]
    · rename_i hempty
      have hnil : msgs = [] := by simpa using hempty
      rw [hnil, ih]
      rfl

/-- What the scans returned is sent; without messages there is at most a ping. -/
theorem polls_answer {batch : List (List Message)} (hs : Scanned task batch.flatten h) :
    Polls env task
      (if batch.filter (· ≠ []) ≠ [] then
        (toApiFormat (batch.filter (· ≠ [])).flatten).bind fun apiMsgs =>
          sendRows (.sendMessagesToIdleConn apiMsgs) (batch.filter (· ≠ [])).flatten
      else if task.ping = true then send (.sendMessagesToIdleConn []) else .pure ())
      (fun _ h _ => PollDone env task h) h s := by
  rw [flatten_filter_ne_nil]
  split
  · apply wp_bind
    refine polls_toApiFormat _ hs fun apiMsgs h s hsame hs => ?_
    refine polls_reply (fun _ => pollGood_of_scanned hsame hs) fun s₄ => ?_
    rintro -
    exact Or.inr ⟨_, hs.other nofun, Or.inr ⟨_, List.mem_cons_self, apiMsgs, rfl, hsame⟩⟩
  · rename_i hempty
    have hnil : batch.flatten = [] := by
      rw [← flatten_filter_ne_nil, not_not.mp hempty]
      rfl
    rw [hnil] at hs
    split
    · refine polls_reply (fun _ => pollGood_of_scanned rfl hs) fun s₄ => ?_
      rintro -
      exact Or.inr ⟨[], hs.other nofun, Or.inl rfl⟩
    · rintro -
      exact Or.inr ⟨[], hs, Or.inl rfl⟩

theorem polls_processIdle (hcmd : task.cmd = .idle) :
    Polls env task (processIdle env task) (fun _ h _ => PollDone env task h) [] s := by
  unfold processIdle
  apply wp_bind
  refine polls_lookupCheckPass hcmd ?_ ?_
  · intro h s hr
    exact fun _ => Or.inl hr
  · intro user h s hid huid
    dsimp only
    rw [if_neg hid]
    refine polls_time fun s₁ _ _ => ?_
    refine polls_db (fun _ => trivial) fun s₂ s₃ _ _ _ _ _ _ => ?_
    simp only [Prog.bind_eq, Prog.pure_bind]
    apply wp_bind
    refine polls_lookupChatsForUserId fun chats after list s hop hids hscans => ?_
    apply wp_bind
    refine polls_scans hscans fun batch after s hscans => ?_
    rw [hids, huid] at hscans
    rw [huid] at hop
    exact polls_answer ⟨after, list, _, rfl, hop, hscans⟩

/-- Other tasks owe nothing here. -/
theorem processTask_polls (env : Extern) (task : Task) (s : Shared) :
    Owes Op.exec Inv Grows (PollGood env) (PollDone env) task (processTask env task) [] s := by
  by_cases hcmd : task.cmd = .idle
  · have hidle : processTask env task = processIdle env task := by
      unfold processTask
      rw [hcmd]
    rw [hidle]
    exact polls_processIdle hcmd
  · exact wp_conseq (fun _ _ h => h.storage) (fun _ _ _ _ => Op.exec_grows)
      (fun _ _ hidle => absurd hidle hcmd) (fun _ _ _ _ hidle => absurd hidle hcmd)
      (processTask_owes env task s)

end

/-- In every run the polls are good, and done when they are finished. -/
theorem workers_poll {env : Extern} {ok : Workers → WorkerAction → Prop} {p : Workers}
    (h : Run (Workers.step env) ok Workers.init p) :
    Pool.Safe Op.exec Inv Grows (PollGood env) (PollDone env) p := by
  refine h.invariant ⟨Storage.integrity_empty, by simp [Workers.init], by simp [Workers.init]⟩ ?_
  rintro p a p' hp - hs
  cases a with
  | take task =>
    obtain rfl := Option.some.inj hs
    refine hp.spawn ?_ fun s _ => processTask_polls env task s
    intro _ e earlier heq
    cases heq
  | work i =>
    obtain ⟨⟨q, t, e⟩, hw, rfl⟩ := Option.map_eq_some_iff.mp hs
    exact (hp.work Grows.refl @Grows.trans hw).1
  | clock now =>
    obtain rfl := Option.some.inj hs
    exact hp.extend @Grows.trans ⟨.refl _, List.prefix_rfl⟩ hp.inv

end O2Chat.Server
