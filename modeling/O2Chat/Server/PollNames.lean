import O2Chat.Server.Joins
import O2Chat.Server.Delivery

/-!
# The names in the responses to a poll

A poll scans the chats of its user and then looks up the names of what it has found, one
locked section each. In every run its response has, message by message, the text of a stored
message and the names of its sender and its chat, as they are stored now.
-/
namespace O2Chat.Server

open O2Chat.Common O2Chat.Db O2Chat.Lib.Interleaving O2Chat.Lib.Runs

/-! ## Later stores -/

section

variable {s s' : Storage} {msg : Message} {api : ApiMessage}

theorem Attributed.mono (h : Attributed s msg api) (hext : s.Extends s') :
    Attributed s' msg api := by
  obtain ⟨u, hu, hid, hname⟩ := h.sender
  obtain ⟨v, hv, hkey⟩ := hext.user hu
  obtain ⟨hvid, -, hvname, -⟩ := User.of_key_eq hkey
  obtain ⟨c, hc, hcid, hcname⟩ := h.chat
  exact ⟨h.ts, h.text, ⟨v, hv, hvid.trans hid, hvname.trans hname⟩,
    ⟨c, hext.chats.subset hc, hcid, hcname⟩⟩

theorem IsStored.mono (h : IsStored s msg) (hext : s.Extends s') : IsStored s' msg := by
  obtain ⟨row, hrow, hbody⟩ := h
  obtain ⟨row', hrow', hbody'⟩ :=
    List.mem_map.mp (hext.messages.subset (List.mem_map_of_mem hrow))
  exact ⟨row', hrow', hbody'.trans hbody⟩

theorem isStored_of_found {chatid : Nat} {opt : GetMsgOpt} (h : msg ∈ found s chatid opt) :
    IsStored s msg := by
  have hin := (Storage.limited_sublist opt _).subset h
  exact ⟨msg, List.mem_reverse.mp (List.mem_filter.mp hin).1, rfl⟩

end

/-! ## The states that a run has seen -/

/-- The workers have seen stores with integrity that only grew. -/
abbrev Seen (p : Workers) : Prop := Pool.Recorded Inv Ext p

theorem seen_of_run {env : Extern} {ok : Workers → WorkerAction → Prop} {p : Workers}
    (h : Run (Workers.step env) ok Workers.init p) : Seen p := by
  have key : p.Safe env ∧ Seen p := by
    refine h.invariant (I := fun p => p.Safe env ∧ Seen p) ⟨workers_safe_init env, ?_⟩ ?_
    · exact ⟨Storage.integrity_empty, by simp [Workers.init], by simp [Workers.init]⟩
    · rintro p a p' ⟨hsafe, hseen⟩ - hs
      have hsafe' := workers_safe_step hsafe hs
      refine ⟨hsafe', ?_⟩
      have hext := workers_step_extends hs
      cases a with
      | take task =>
        obtain rfl := Option.some.inj hs
        exact hseen.spawn task _
      | work i =>
        obtain ⟨⟨q, t, e⟩, hw, rfl⟩ := Option.map_eq_some_iff.mp hs
        exact hseen.work (fun h h' => h.trans h') hw hext hsafe'.inv
      | clock now =>
        obtain rfl := Option.some.inj hs
        exact hseen.extend (fun h h' => h.trans h') hext hsafe'.inv
  exact key.2

/-! ## The history of a poll -/

/-- Not the response of a poll. -/
def NotBatch (o : Op) : Prop := ∀ api rows, o ≠ .reply (.sendMessagesToIdleConn api) rows

theorem notBatch_db (c : Call) : NotBatch (.db c) := by
  intro api rows heq
  cases heq

theorem notBatch_time : NotBatch .time := by
  intro api rows heq
  cases heq

theorem notBatch_error (code : Nat) (api : ApiStatusCode) (desc : Bytes) :
    NotBatch (.reply (.sendErrorResponse code api desc) []) := by
  intro api' rows heq
  cases heq

section

variable {p : Workers} {hist h before : List Event} {q : Work Unit} {e : Event}

/-- What comes after a part that sends no response, with the events before it. -/
theorem follows_after {α : Type} {part : Work α} {f : α → Work Unit} (hhist : hist = h ++ before)
    (hf : Follows Op.exec (part.bind f) h q) (hpart : part.All NotBatch) (he : e ∈ h)
    (hnot : ¬ NotBatch e.op) : ∃ a later earlier, hist = later ++ (earlier ++ before) ∧
      Follows Op.exec part earlier (.pure a) ∧ Follows Op.exec (f a) later q ∧ e ∈ later := by
  obtain ⟨a, later, earlier, rfl, hfirst, hrest, hin⟩ := hf.of_bind_mem hpart he hnot
  exact ⟨a, later, earlier, by rw [hhist, List.append_assoc], hfirst, hrest, hin⟩

/-- The names are looked up in stores that have all the rows. -/
theorem attributed_after {later : List Event} {rows : List Message} {api : List ApiMessage}
    {S : Shared} (hS : Inv S) (hpast : ∀ e ∈ later ++ before, Inv e.pre ∧ Ext e.pre S)
    (horder : (later ++ before).Pairwise fun new old => Ext old.pre new.pre)
    (hrows : ∀ row ∈ rows, ∃ e ∈ before, IsStored e.pre.storage row)
    (hf : Follows Op.exec (toApiFormat rows) later (.pure api)) :
    (∀ row ∈ rows, IsStored S.storage row) ∧ List.Forall₂ (Attributed S.storage) rows api := by
  have hnow : ∀ row ∈ rows, IsStored S.storage row := by
    intro row hrow
    obtain ⟨e, he, hstored⟩ := hrows row hrow
    exact hstored.mono (hpast e (List.mem_append_right _ he)).2
  refine ⟨hnow, ?_⟩
  obtain ⟨hlater, -, hbefore⟩ := List.pairwise_append.mp horder
  rcases List.eq_nil_or_concat later with rfl | ⟨newer, first, rfl⟩
  · exact toApiFormat_attributed hS ⟨by simp, by simp, List.Pairwise.nil⟩ hnow hf
  · rw [List.concat_eq_append] at *
    have hin : first ∈ newer ++ [first] := List.mem_append_right _ List.mem_cons_self
    obtain ⟨hinv, hext⟩ := hpast first (List.mem_append_left _ hin)
    have hseen : SeenFrom first.pre.storage (newer ++ [first]) := by
      refine ⟨fun e he => ?_, fun e he => (hpast e (List.mem_append_left _ he)).1, hlater⟩
      rcases List.mem_append.mp he with hnew | hfirst
      · exact (List.pairwise_append.mp hlater).2.2 e hnew first List.mem_cons_self
      · rw [List.mem_singleton.mp hfirst]
        exact .refl _
    refine (toApiFormat_attributed hinv hseen ?_ hf).imp fun _ _ hentry => hentry.mono hext
    intro row hrow
    obtain ⟨e, he, hstored⟩ := hrows row hrow
    exact hstored.mono (hbefore first hin e he)

/-- What the scans of a poll have found is stored. -/
theorem stored_of_scans {opt : GetMsgOpt} {chats : List Chat} {batch : List (List Message)}
    (hf : Follows Op.exec (Prog.traverse (fun chat : Chat => call (.getMessages chat.id opt)) chats) h
      (.pure batch)) : ∀ msgs ∈ batch, ∀ row ∈ msgs, ∃ e ∈ h, IsStored e.pre.storage row := by
  have hscans := hf.of_traverse.flip.imp (S := fun msgs _ =>
    (∀ row ∈ msgs, ∃ e ∈ h, IsStored e.pre.storage row) ∧ True) ?_
  · exact ((List.forall₂_and_left _ _).mp hscans).1
  rintro msgs chat ⟨-, part, hsub, hpart⟩
  obtain ⟨pre, post, s', rfl, hcall⟩ := follows_call hpart
  refine ⟨fun row hrow => ⟨_, hsub List.mem_cons_self, ?_⟩, trivial⟩
  exact isStored_of_found (getMessages_found hcall ▸ hrow)

/-- In every run the response to a poll has stored messages, with the names of their senders
and chats. -/
theorem batch_attributed {env : Extern} {t : Thread} (hseen : Seen p)
    (htrack : p.Tracked Op.exec (processTask env)) (ht : t ∈ p.threads) (hcmd : t.tag.cmd = .idle)
    (he : e ∈ t.hist) {api : List ApiMessage} {rows : List Message}
    (hop : e.op = .reply (.sendMessagesToIdleConn api) rows) :
    (∀ row ∈ rows, IsStored p.state.storage row) ∧
      List.Forall₂ (Attributed p.state.storage) rows api := by
  have hfollows := htrack t ht
  have hnot : ¬ NotBatch e.op := fun hno => hno api rows hop
  unfold processTask at hfollows
  rw [hcmd] at hfollows
  obtain ⟨user, h₁, b₁, hhist, -, hrest, he⟩ := follows_after (List.append_nil _).symm hfollows
    (all_lookupCheckPass (fun c _ => notBatch_db c) notBatch_error env t.tag) he hnot
  by_cases huser : user.id = 0
  · rw [if_pos huser] at hrest
    rw [hrest.of_pure.1] at he
    cases he
  rw [if_neg huser] at hrest
  obtain ⟨now, h₂, b₂, hhist, -, hrest, he⟩ := follows_after hhist hrest
    ⟨notBatch_time, fun _ => trivial⟩ he hnot
  obtain ⟨-, h₃, b₃, hhist, -, hrest, he⟩ := follows_after hhist hrest
    (all_call (notBatch_db _)) he hnot
  have hlookup : (lookupChatsForUserId user.id).All NotBatch :=
    (all_call (notBatch_db _)).bind fun chats =>
      Prog.All.traverse (fun chatid => all_call (c := .lookupChatById chatid) (notBatch_db _)) chats
  obtain ⟨chats, h₄, b₄, hhist, -, hrest, he⟩ := follows_after hhist hrest hlookup he hnot
  obtain ⟨batch, h₅, b₅, hhist, hscans, hrest, he⟩ := follows_after hhist hrest
    (Prog.All.traverse (fun chat => all_call (c := .getMessages chat.id _) (notBatch_db _)) chats)
    he hnot
  by_cases hempty : batch.filter (· ≠ []) ≠ []
  · rw [if_pos hempty] at hrest
    have hformat : (toApiFormat (batch.filter (· ≠ [])).flatten).All NotBatch := by
      refine Prog.All.traverse (fun msg => ?_) _
      exact (all_call (notBatch_db _)).bind fun _ => (all_call (notBatch_db _)).bind fun _ => trivial
    obtain ⟨api', h₆, b₆, hhist, hnames, hrest, he⟩ := follows_after hhist hrest hformat he hnot
    rcases hrest.of_op with ⟨rfl, -⟩ | ⟨s₁, r, s₂, rest, -, rfl, hdone⟩
    · cases he
    rw [hdone.of_pure.1, List.nil_append] at he
    obtain rfl := List.mem_singleton.mp he
    obtain ⟨hsame, rfl⟩ := Op.reply.inj hop
    obtain rfl := Reply.sendMessagesToIdleConn.inj hsame
    have hpast := hseen.past t ht
    have horder := hseen.order t ht
    rw [hhist] at hpast horder
    refine attributed_after hseen.now (fun e he => hpast e (List.mem_append_right _ he))
      (List.pairwise_append.mp horder).2.1 ?_ hnames
    intro row hrow
    obtain ⟨msgs, hmsgs, hrow⟩ := List.mem_flatten.mp hrow
    obtain ⟨e, he, hstored⟩ := stored_of_scans hscans msgs (List.mem_filter.mp hmsgs).1 row hrow
    exact ⟨e, List.mem_append_left _ he, hstored⟩
  · -- without a message the response is empty
    rw [if_neg hempty] at hrest
    split at hrest
    · rcases hrest.of_op with ⟨rfl, -⟩ | ⟨s₁, r, s₂, rest, -, rfl, hdone⟩
      · cases he
      rw [hdone.of_pure.1, List.nil_append] at he
      obtain rfl := List.mem_singleton.mp he
      obtain ⟨hsame, rfl⟩ := Op.reply.inj hop
      obtain rfl := Reply.sendMessagesToIdleConn.inj hsame
      exact ⟨by simp, .nil⟩
    · rw [hrest.of_pure.1] at he
      cases he

end

end O2Chat.Server
