import O2Chat.Server.WorkerRuns

/-!
# Names of chats

Chats are made by `createChat`, which checks the name against the chats, and by
`createUser`, which checks it against the users. Names stay unique as long as no
new user takes the name of a chat, and are duplicated by the first one that does.
-/
namespace O2Chat.Db

open O2Chat.Common O2Chat.Lib.Runs

namespace Storage

def UniqueChatNames (s : Storage) : Prop := (s.chats.map (·.name)).Nodup

/-- A new user does not take the name of a chat. -/
def FreshUserName (s : Storage) : Call → Prop
  | .createUser name _ _ => (∀ u ∈ s.users, u.name ≠ name) → ∀ c ∈ s.chats, c.name ≠ name
  | _ => True

instance (s : Storage) (c : Call) : Decidable (FreshUserName s c) := by
  cases c <;> unfold FreshUserName <;> infer_instance

variable {s s' : Storage}

theorem uniqueChatNames_append {c : Chat} (h : s.UniqueChatNames) :
    ((s.chats ++ [c]).map (·.name)).Nodup ↔ ∀ d ∈ s.chats, d.name ≠ c.name := by
  unfold UniqueChatNames at h
  simp only [List.map_append, List.map_cons, List.map_nil, List.nodup_append, h,
    List.nodup_singleton, List.mem_singleton, true_and, List.mem_map]
  constructor
  · intro hne d hd
    exact hne _ ⟨d, hd, rfl⟩ _ rfl
  · rintro hne _ ⟨d, hd, rfl⟩ _ rfl
    exact hne d hd

/-- A section other than `createUser` and `createChat` does not touch the chats. -/
theorem step_chats {c : Call} (hs : s.step c = some s') :
    s'.chats = s.chats ∨ (∃ name uid d, c = .createChat name uid ∧ s'.chats = s.chats ++ [d] ∧
      d.name = name ∧ ∀ e ∈ s.chats, e.name ≠ name) ∨
    (∃ name pass stpath d, c = .createUser name pass stpath ∧ s'.chats = s.chats ++ [d] ∧
      d.name = name ∧ ∀ u ∈ s.users, u.name ≠ name) := by
  obtain ⟨⟨t, r⟩, he, rfl⟩ := Option.map_eq_some_iff.mp hs
  by_cases hro : c.readOnly = true
  · left
    rw [Call.exec_readOnly hro he]
  cases c <;> simp only [Call.readOnly, not_true_eq_false] at hro
  case updateUserHeartBit user ts =>
    obtain ⟨rfl, -⟩ := Prod.mk.inj (Option.some.inj he)
    exact Or.inl rfl
  case createUser name pass stpath =>
    rcases createUser_cases he with ⟨-, rfl, -⟩ | ⟨hfresh, -, -, -, rfl⟩
    · exact Or.inl rfl
    · exact Or.inr (Or.inr ⟨name, pass, stpath, _, rfl, rfl, rfl, hfresh⟩)
  case createChat name uid =>
    rcases createChat_cases he with ⟨-, rfl, -⟩ | ⟨hfresh, -, rfl, rfl⟩
    · exact Or.inl rfl
    · exact Or.inr (Or.inl ⟨name, uid, _, rfl, rfl, rfl, hfresh⟩)
  case addUserToChat chat user =>
    obtain ⟨t, ht, heq⟩ := Option.map_eq_some_iff.mp he
    obtain ⟨rfl, -⟩ := Prod.mk.inj heq
    rcases addUserToChat_cases ht with ⟨-, rfl⟩ | ⟨-, rfl⟩ <;> exact Or.inl rfl
  case saveMessage msg =>
    obtain ⟨t, ht, heq⟩ := Option.map_eq_some_iff.mp he
    obtain ⟨rfl, -⟩ := Prod.mk.inj heq
    exact Or.inl (by rw [saveMessage_eq ht])
  case getMessages chatid opt =>
    obtain ⟨marked, -, heq⟩ := getMessages_eq s chatid opt
    obtain ⟨rfl, -⟩ := Prod.mk.inj (Option.some.inj (heq.symm.trans he))
    exact Or.inl rfl

/-- The condition is exact for one step: it decides whether names stay unique. -/
theorem uniqueChatNames_step {c : Call} (h : s.UniqueChatNames) (hs : s.step c = some s') :
    s'.UniqueChatNames ↔ s.FreshUserName c := by
  rcases step_chats hs with hsame | ⟨name, uid, d, rfl, happ, rfl, hfresh⟩ |
    ⟨name, pass, stpath, d, rfl, happ, rfl, hnew⟩
  · unfold UniqueChatNames at h ⊢
    rw [hsame]
    refine iff_of_true h ?_
    cases c with
    | createUser name pass stpath =>
      -- a call that added no chat found the user there already
      intro hnew
      obtain ⟨⟨t, u⟩, he, rfl⟩ := Option.map_eq_some_iff.mp hs
      rcases createUser_cases he with ⟨⟨v, hv, hname⟩, -, -⟩ | ⟨-, -, -, -, rfl⟩
      · exact absurd hname (hnew v hv)
      · simp at hsame
    | _ => trivial
  · unfold UniqueChatNames
    rw [happ, uniqueChatNames_append h]
    exact iff_of_true hfresh trivial
  · unfold UniqueChatNames
    rw [happ, uniqueChatNames_append h]
    exact ⟨fun hd _ => hd, fun hd => hd hnew⟩

theorem UniqueChatNames.lookup_le_one (h : s.UniqueChatNames) (name : Bytes) :
    (s.lookupChatByName name).length ≤ 1 := by
  have hsub : List.Sublist ((s.lookupChatByName name).map (·.name)) (s.chats.map (·.name)) :=
    List.filter_sublist.map _
  have hall : ∀ n ∈ (s.lookupChatByName name).map (·.name), n = name := by
    intro n hn
    obtain ⟨c, hc, rfl⟩ := List.mem_map.mp hn
    simpa [lookupChatByName] using (List.mem_filter.mp hc).2
  have hnodup := h.sublist hsub
  rw [List.eq_replicate_of_mem hall, List.nodup_replicate] at hnodup
  simpa using hnodup

/-- An existing name is found exactly once. -/
theorem UniqueChatNames.lookup_eq_one (h : s.UniqueChatNames) {c : Chat} (hc : c ∈ s.chats) :
    (s.lookupChatByName c.name).length = 1 := by
  have hmem : c ∈ s.lookupChatByName c.name := by simpa [lookupChatByName] using hc
  have hpos := List.length_pos_of_mem hmem
  have hle := h.lookup_le_one c.name
  omega

theorem UniqueChatNames.of_extends {s s' : Storage} (h : s'.UniqueChatNames) (hext : s.Extends s') :
    s.UniqueChatNames :=
  h.sublist (hext.chats.sublist.map _)

end Storage

end O2Chat.Db

namespace O2Chat.Server

open O2Chat.Common O2Chat.Db O2Chat.Lib.Interleaving O2Chat.Lib.Runs

theorem uniqueChatNames_run {s : Storage} (h : Run Storage.step Storage.FreshUserName {} s) :
    s.UniqueChatNames :=
  h.invariant (by simp [Storage.UniqueChatNames])
    fun _ _ _ hu hok hs => (Storage.uniqueChatNames_step hu hs).mpr hok

theorem uniqueChatNames_workers {env : Extern} {p : Workers}
    (h : Run (Workers.step env) (CallsOnly Storage.FreshUserName) Workers.init p) :
    p.state.storage.UniqueChatNames := by
  refine h.invariant (I := fun p => p.state.storage.UniqueChatNames)
    (by simp [Storage.UniqueChatNames, Workers.init]) ?_
  intro p a p' hp hok hs
  rcases workers_step_storage hs with hsame | ⟨c, hstep, hcalls⟩
  · rw [hsame]
    exact hp
  · exact (Storage.uniqueChatNames_step hp hstep).mpr (hcalls _ hok)

/-- As long as no new user takes the name of a chat, names are unique and looked up at
most once; the first user that does so duplicates the name; and in such a run of the
workers a chat is reported missing only when no chat has the name. -/
theorem chat_names_unique (env : Extern) :
    (∀ s, Run Storage.step Storage.FreshUserName {} s →
      s.UniqueChatNames ∧ (∀ name, (s.lookupChatByName name).length ≤ 1) ∧
      ∀ c s', s.step c = some s' → (s'.UniqueChatNames ↔ s.FreshUserName c)) ∧
    ∀ p, Run (Workers.step env) (CallsOnly Storage.FreshUserName) Workers.init p →
      ∀ t ∈ p.threads, chatMissing ∈ replies t.hist →
        ∃ e ∈ t.hist, e.op = .db (.lookupChatByName t.tag.request.chatName) ∧
          ∀ c ∈ e.pre.storage.chats, c.name ≠ t.tag.request.chatName := by
  constructor
  · intro s hrun
    have hu := uniqueChatNames_run hrun
    exact ⟨hu, hu.lookup_le_one, fun _ _ hs => Storage.uniqueChatNames_step hu hs⟩
  · intro p hrun t ht hmissing
    obtain ⟨e, he, hop, hlen⟩ := ((workers_safe hrun).hist t ht).noChat hmissing
    refine ⟨e, he, hop, ?_⟩
    have hu := (uniqueChatNames_workers hrun).of_extends (workers_hist_extends hrun t ht e he).1
    intro c hc hname
    exact hlen (hname ▸ hu.lookup_eq_one hc)

theorem chat_names_unique_two_users : ∃ s, Run Storage.step Storage.FreshUserName {} s ∧
    s.chats.length = 3 ∧ s.UniqueChatNames := by
  have hlist : (runList Storage.step Storage.FreshUserName {}
      [.createUser (bytes "amy") [] [], .createUser (bytes "bob") [] [],
        .createChat (bytes "climbing") 1]).any (fun s => s.chats.length = 3) = true := by
    decide +kernel
  obtain ⟨s, hrun, hlen⟩ := exists_run hlist
  exact ⟨s, hrun, by simpa using hlen, ((chat_names_unique Sample.env).1 s hrun).1⟩

/-- A group called `bob`, then a user called `bob`. -/
theorem chat_names_clash : ¬ ∀ s, Run Storage.step anyStep {} s →
    s.UniqueChatNames ∧ ∀ name, (s.lookupChatByName name).length ≤ 1 := by
  intro hclaim
  have hlist : (runList Storage.step anyStep {}
      [.createUser (bytes "amy") [] [], .createChat (bytes "bob") 1,
        .createUser (bytes "bob") [] []]).any
      (fun s => (s.lookupChatByName (bytes "bob")).length = 2) = true := by decide +kernel
  obtain ⟨s, hrun, htwo⟩ := exists_run hlist
  have hle := (hclaim s hrun).2 (bytes "bob")
  simp only [decide_eq_true_eq] at htwo
  omega

end O2Chat.Server
