import O2Chat.Server.PollSpec

/-!
# Saved messages and the scans that find them

`Ledger` relates the history of all saves to the store. A scan returns the newest
messages of a chat, at most three: `ScanOk` says when it returns everything that its
user may see, and nothing newer than what the poll has missed. `Scanned.upTo` and
`Scanned.since` say what a poll returns when all its scans are so.
-/
namespace O2Chat.Server

open O2Chat.Common O2Chat.Db O2Chat.Lib.Interleaving O2Chat.Lib.Runs

/-! ## The ledger -/

/-- The saves are the stored messages in the order of their times, and whoever is a
member of a chat at one save is a member from then on. -/
structure Ledger (s : Shared) : Prop where
  bodies : s.saves.map (·.1.body) = s.storage.messages.map Message.body
  sorted : s.saves.Pairwise fun x y => x.1.ts < y.1.ts
  linked : ∀ x ∈ s.saves, ∀ u ∈ x.2, { chatid := x.1.chatTo, uid := u } ∈ s.storage.chatuser
  members : s.saves.Pairwise fun x y => x.1.chatTo = y.1.chatTo → x.2 ⊆ y.2

theorem ledger_init : Ledger {} := by
  constructor <;> simp

/-- Saving a message that is newer than all others. -/
theorem Ledger.save {s : Shared} (h : Ledger s) {msg : Message} {storage : Storage}
    (hs : s.storage.saveMessage msg = some storage) (hnew : ∀ x ∈ s.saves, x.1.ts < msg.ts) :
    Ledger { s with storage, saves := s.saves ++ [(msg, s.storage.userIdsForChatId msg.chatTo)] } := by
  obtain rfl := Storage.saveMessage_eq hs
  refine ⟨?_, ?_, ?_, ?_⟩
  · simp [h.bodies]
  · rw [List.pairwise_append]
    refine ⟨h.sorted, List.pairwise_singleton _ _, ?_⟩
    intro x hx y hy
    obtain rfl := List.mem_singleton.mp hy
    exact hnew x hx
  · intro x hx u hu
    rcases List.mem_append.mp hx with hold | hlast
    · exact h.linked x hold u hu
    · obtain rfl := List.mem_singleton.mp hlast
      exact Storage.mem_userIdsForChatId.mp hu
  · rw [List.pairwise_append]
    refine ⟨h.members, List.pairwise_singleton _ _, ?_⟩
    intro x hx y hy hchat u hu
    obtain rfl := List.mem_singleton.mp hy
    have hlink := h.linked x hx u hu
    rw [hchat] at hlink
    exact Storage.mem_userIdsForChatId.mpr hlink

theorem Op.exec_ledger {o : Op} {s s' : Shared} {r : o.Res} (h : Ledger s)
    (hexec : o.exec s = some (s', r))
    (hnew : ∀ msg, o = .db (.saveMessage msg) → ∀ x ∈ s.saves, x.1.ts < msg.ts) : Ledger s' := by
  cases o with
  | db c =>
    obtain ⟨⟨storage, r'⟩, hc, heq⟩ := Option.map_eq_some_iff.mp hexec
    obtain ⟨rfl, -⟩ := Prod.mk.inj heq
    by_cases hsave : ∃ msg, c = .saveMessage msg
    · obtain ⟨msg, rfl⟩ := hsave
      obtain ⟨t, ht, heq⟩ := Option.map_eq_some_iff.mp hc
      obtain ⟨rfl, -⟩ := Prod.mk.inj heq
      exact h.save ht (hnew msg rfl)
    · have hnone : savedBy s.storage c = [] := by
        cases c <;> first | rfl | exact absurd ⟨_, rfl⟩ hsave
      have hbodies := Call.exec_bodies (fun msg heq => hsave ⟨msg, heq⟩) hc
      have hext := Call.exec_extends hc
      dsimp only
      rw [hnone, List.append_nil]
      exact ⟨h.bodies.trans hbodies.symm, h.sorted,
        fun x hx u hu => hext.chatuser.subset (h.linked x hx u hu), h.members⟩
  | time =>
    obtain ⟨rfl, -⟩ := Prod.mk.inj (Option.some.inj hexec)
    exact h
  | reply reply rows =>
    obtain ⟨rfl, -⟩ := Prod.mk.inj (Option.some.inj hexec)
    exact h

/-! ## What a scan finds -/

/-- The elements with `P` come first: as many as there are of them contain all of them. -/
theorem mem_take_of_countP_le {α : Type} {P : α → Bool} {l : List α} {n : Nat} {a : α}
    (hfirst : l.Pairwise fun x y => P y = true → P x = true) (hn : l.countP P ≤ n)
    (ha : a ∈ l) (hP : P a = true) : a ∈ l.take n := by
  induction l generalizing n with
  | nil => cases ha
  | cons b l ih =>
    have hb : P b = true := by
      rcases List.mem_cons.mp ha with rfl | hmem
      · exact hP
      · exact List.rel_of_pairwise_cons hfirst hmem hP
    rw [List.countP_cons_of_pos hb] at hn
    obtain ⟨k, rfl⟩ : ∃ k, n = k + 1 := ⟨n - 1, by omega⟩
    rw [List.take_succ_cons]
    rcases List.mem_cons.mp ha with rfl | hmem
    · exact List.mem_cons_self
    · exact List.mem_cons_of_mem _ (ih (List.Pairwise.of_cons hfirst) (by omega) hmem)

/-- The saves that a scan for user `u` has to return. -/
def dueTo (u cid ts : Nat) (x : Message × List Nat) : Bool := u ∈ x.2 && Storage.newer cid ts x.1

theorem mem_found {s : Storage} {cid : Nat} {opt : GetMsgOpt} {m : Message}
    (hm : m ∈ found s cid opt) : m ∈ s.messages ∧ Storage.newer cid opt.ts m = true := by
  have hmem := List.mem_filter.mp ((Storage.limited_sublist _ _).subset hm)
  exact ⟨List.mem_reverse.mp hmem.1, hmem.2⟩

theorem Ledger.saved {s : Shared} (h : Ledger s) {m : Message} (hm : m ∈ s.storage.messages) :
    ∃ x ∈ s.saves, x.1.body = m.body := by
  have hbody := List.mem_map_of_mem (f := Message.body) hm
  rw [← h.bodies] at hbody
  exact List.mem_map.mp hbody

theorem ts_eq_of_body {m m' : Message} (h : m.body = m'.body) : m.ts = m'.ts := by
  rw [← Message.body_ts m, h, Message.body_ts]

theorem message_eq_of_body {m m' : Message} (h : m.body = m'.body) : m.message = m'.message := by
  rw [← Message.body_message m, h, Message.body_message]

/-- A scan returns what is due, when that is not more than it may return. -/
theorem found_of_saved {s : Shared} (h : Ledger s) {u cid : Nat} {opt : GetMsgOpt}
    {x : Message × List Nat} (hfits : s.saves.countP (dueTo u cid opt.ts) ≤ opt.maxCount)
    (hx : x ∈ s.saves) (hdue : dueTo u cid opt.ts x = true) :
    ∃ m ∈ found s.storage cid opt, m.body = x.1.body := by
  -- the saves of the chat that are newer, newest first
  let recent := s.saves.reverse.filter fun y => Storage.newer cid opt.ts y.1
  obtain ⟨hu, hnewer⟩ := Bool.and_eq_true_iff.mp hdue
  have hbodies : recent.map (·.1.body) =
      (s.storage.messages.reverse.filter (Storage.newer cid opt.ts)).map Message.body := by
    have hleft := List.filter_map (f := fun y : Message × List Nat => y.1.body)
      (p := Storage.newer cid opt.ts) (l := s.saves.reverse)
    have hright := List.filter_map (f := Message.body)
      (p := Storage.newer cid opt.ts) (l := s.storage.messages.reverse)
    rw [List.map_reverse, h.bodies, ← List.map_reverse] at hleft
    exact hleft.symm.trans hright
  have hcount : recent.countP (fun y => decide (u ∈ y.2)) ≤ opt.maxCount := by
    have hsame : recent.countP (fun y => decide (u ∈ y.2)) = s.saves.countP (dueTo u cid opt.ts) := by
      rw [List.countP_filter, List.countP_reverse]
      rfl
    rw [hsame]
    exact hfits
  have hfirst : recent.Pairwise fun y z => decide (u ∈ z.2) = true → decide (u ∈ y.2) = true := by
    refine List.Pairwise.imp_of_mem ?_ ((List.pairwise_reverse.mpr h.members).filter _)
    intro y z hy hz hsub hmem
    have hcy := (Storage.newer_iff.mp (List.mem_filter.mp hy).2).1
    have hcz := (Storage.newer_iff.mp (List.mem_filter.mp hz).2).1
    exact decide_eq_true (hsub (hcz.trans hcy.symm) (of_decide_eq_true hmem))
  have hmem : x ∈ recent.take opt.maxCount :=
    mem_take_of_countP_le hfirst hcount (List.mem_filter.mpr ⟨List.mem_reverse.mpr hx, hnewer⟩) hu
  have hpos : opt.maxCount ≠ 0 := by
    have hone : 0 < s.saves.countP (dueTo u cid opt.ts) := List.countP_pos_iff.mpr ⟨x, hx, hdue⟩
    omega
  have hlimited : (found s.storage cid opt).map Message.body =
      (recent.take opt.maxCount).map (·.1.body) := by
    unfold found Storage.limited
    rw [if_neg hpos, List.map_take, List.map_take, hbodies]
  have hbody : x.1.body ∈ (found s.storage cid opt).map Message.body := by
    rw [hlimited]
    exact List.mem_map_of_mem hmem
  exact List.mem_map.mp hbody

/-! ## What a poll may miss -/

/-- The poll of user `u` performs this operation too early for the save `x`: it scans the
chat of `x` before the save, or lists the chats of `u` before `u` is a member of that chat. -/
def missedBy (u : Nat) (x : Message × List Nat) (e : Event) : Bool :=
  match e.op with
  | .db (.getMessages cid _) => cid = x.1.chatTo && x ∉ e.pre.saves
  | .db (.chatIdsForUserId uid) => uid = u && x.1.chatTo ∉ e.pre.storage.chatIdsForUserId u
  | _ => false

/-- A scan in state `s`, after the operations `h` of its poll, returns everything that is
due, and no message of the chat is newer than a message for `u` which the poll has missed. -/
def ScanOk (u cid : Nat) (opt : GetMsgOpt) (s : Shared) (h : List Event) : Prop :=
  s.saves.countP (dueTo u cid opt.ts) ≤ opt.maxCount ∧
    ∀ row ∈ s.storage.messages, Storage.newer cid opt.ts row = true →
      ∀ x ∈ s.saves, u ∈ x.2 → opt.ts < x.1.ts → x.1.ts < row.ts → h.any (missedBy u x) = false

instance (u cid : Nat) (opt : GetMsgOpt) (s : Shared) (h : List Event) :
    Decidable (ScanOk u cid opt s h) :=
  inferInstanceAs (Decidable (_ ∧ _))

/-- All scans of the history were so. -/
def ScansOk (u : Nat) : List Event → Prop
  | [] => True
  | e :: h => (∀ cid opt, e.op = .db (.getMessages cid opt) → ScanOk u cid opt e.pre h) ∧ ScansOk u h

theorem ScansOk.at {u cid : Nat} {opt : GetMsgOpt} {later h : List Event} {e : Event}
    (hs : ScansOk u (later ++ e :: h)) (he : e.op = .db (.getMessages cid opt)) :
    ScanOk u cid opt e.pre h := by
  induction later with
  | nil => exact hs.1 cid opt he
  | cons _ later ih => exact ih hs.2

/-- The history is in the order of time and ends in the state `s`. -/
structure Timeline (s : Shared) (h : List Event) : Prop where
  ledgers : ∀ e ∈ h, Ledger e.pre
  grows : ∀ e ∈ h, Grows e.pre s
  order : h.Pairwise fun new old => Grows old.pre new.pre

/-- What was saved before the first operation was saved before all of them. -/
theorem Timeline.mem_of_last {s : Shared} {h : List Event} {x : Message × List Nat}
    (ht : Timeline s h) {e : Event} (he : e ∈ h.getLast?) (hx : x ∈ e.pre.saves) :
    ∀ e' ∈ h, x ∈ e'.pre.saves := by
  obtain ⟨later, rfl⟩ := List.getLast?_eq_some_iff.mp he
  intro e' he'
  rcases List.mem_append.mp he' with hlater | hfirst
  · have hgrows := (List.pairwise_append.mp ht.order).2.2 e' hlater e (List.mem_singleton.mpr rfl)
    exact hgrows.saves.subset hx
  · obtain rfl := List.mem_singleton.mp hfirst
    exact hx

section

variable {task : Task} {rows : List Message} {h : List Event} {s : Shared}
  {x : Message × List Nat}

/-- A scan of the chat of a message that is due and saved already. -/
theorem Scans.returns {cids : List Nat} {after before : List Event}
    (hs : Scans task cids rows after) (ht : Timeline s (after ++ before))
    (hok : ScansOk task.request.uid (after ++ before)) {e : Event} (he : e ∈ after)
    (hop : e.op = .db (.getMessages x.1.chatTo (pollOpt task))) (hx : x ∈ e.pre.saves)
    (hu : task.request.uid ∈ x.2) (hts : task.request.ts < x.1.ts) :
    ∃ m ∈ rows, m.body = x.1.body := by
  have hledger := ht.ledgers e (List.mem_append_left _ he)
  obtain ⟨later, earlier, rfl⟩ := List.append_of_mem he
  rw [List.append_assoc, List.cons_append] at hok
  have hdue : dueTo task.request.uid x.1.chatTo (pollOpt task).ts x = true :=
    Bool.and_eq_true_iff.mpr ⟨decide_eq_true hu, Storage.newer_iff.mpr ⟨rfl, hts⟩⟩
  obtain ⟨m, hm, hbody⟩ := found_of_saved hledger (hok.at hop).1 hx hdue
  exact ⟨m, (hs.only e he _ _ hop).2 m hm, hbody⟩

/-- A poll returns what is due and was saved before its first operation. -/
theorem Scanned.since (hs : Scanned task rows h) (ht : Timeline s h)
    (hok : ScansOk task.request.uid h) (hx : ∀ e ∈ h, x ∈ e.pre.saves)
    (hu : task.request.uid ∈ x.2) (hts : task.request.ts < x.1.ts) :
    ∃ m ∈ rows, m.body = x.1.body := by
  obtain ⟨after, list, before, rfl, -, hscans⟩ := hs
  have hlist : list ∈ after ++ list :: before := by simp
  have hlinked := (ht.ledgers list hlist).linked x (hx list hlist) _ hu
  obtain ⟨e, he, hop⟩ := hscans.all _ (Storage.mem_chatIdsForUserId.mpr hlinked)
  exact hscans.returns ht hok he hop (hx e (List.mem_append_left _ he)) hu hts

/-- Saves are found in the ledgers of the past in the order of their times. -/
theorem Ledger.mem_of_le (hl : Ledger s) {saves : List (Message × List Nat)}
    {y : Message × List Nat} (hpre : saves <+: s.saves) (hx : x ∈ s.saves) (hy : y ∈ saves)
    (hle : x.1.ts ≤ y.1.ts) : x ∈ saves ∧ (x.1.ts = y.1.ts → x = y) := by
  obtain ⟨rest, hsaves⟩ := hpre
  have hsorted := hl.sorted
  rw [← hsaves] at hsorted hx
  have hbefore := List.pairwise_append.mp hsorted
  have hin : x ∈ saves := by
    rcases List.mem_append.mp hx with hin | hlate
    · exact hin
    · have hlt := hbefore.2.2 y hy x hlate
      omega
  refine ⟨hin, fun heq => ?_⟩
  have hnodup : (saves.map (·.1.ts)).Nodup := by
    rw [List.Nodup, List.pairwise_map]
    exact hbefore.1.imp fun hlt => by omega
  exact List.inj_on_of_nodup_map hnodup hin hy heq

/-- A message that a poll returns is a save of the past. -/
theorem Scanned.saved (hs : Scanned task rows h) (ht : Timeline s h) {m : Message}
    (hm : m ∈ rows) : ∃ x ∈ s.saves, x.1.ts = m.ts := by
  obtain ⟨after, list, before, rfl, -, hscans⟩ := hs
  obtain ⟨e, he, cid, -, hfound⟩ := hscans.source m hm
  have hin : e ∈ after ++ list :: before := List.mem_append_left _ he
  obtain ⟨x, hx, hxm⟩ := (ht.ledgers e hin).saved (mem_found hfound).1
  exact ⟨x, (ht.grows e hin).saves.subset hx, ts_eq_of_body hxm⟩

/-- With a message a poll returns everything that is due up to the time of this message,
also what was saved while the poll was in progress. -/
theorem Scanned.upTo (hs : Scanned task rows h) (ht : Timeline s h) (hl : Ledger s)
    (hok : ScansOk task.request.uid h) {row : Message} (hrow : row ∈ rows) (hx : x ∈ s.saves)
    (hu : task.request.uid ∈ x.2) (hts : task.request.ts < x.1.ts) (hle : x.1.ts ≤ row.ts) :
    ∃ m ∈ rows, m.body = x.1.body := by
  obtain ⟨after, list, before, rfl, hlist, hscans⟩ := hs
  obtain ⟨e, he, cid, hop, hfound⟩ := hscans.source row hrow
  have hin : e ∈ after ++ list :: before := List.mem_append_left _ he
  -- the row is a save of the state that was scanned, and so is the older save `x`
  obtain ⟨hstored, hnewer⟩ := mem_found hfound
  obtain ⟨y, hy, hyrow⟩ := (ht.ledgers e hin).saved hstored
  have hyts := ts_eq_of_body hyrow
  obtain ⟨hxin, hsame⟩ := hl.mem_of_le (ht.grows e hin).saves hx hy (by omega)
  by_cases heq : x.1.ts = y.1.ts
  · exact ⟨row, hrow, by rw [hsame heq, hyrow]⟩
  obtain ⟨later, earlier, rfl⟩ := List.append_of_mem he
  have hsplit : (later ++ e :: earlier) ++ list :: before =
      later ++ e :: (earlier ++ list :: before) := by simp
  have hmissed : ∀ e' ∈ earlier ++ list :: before, missedBy task.request.uid x e' = false := by
    rw [hsplit] at hok
    have hnone := (hok.at hop).2 row hstored hnewer x hxin hu hts (by omega)
    intro e' he'
    simpa using List.any_eq_false.mp hnone e' he'
  -- so its chat was listed, and scanned after it was saved
  have hlisted : x.1.chatTo ∈ list.pre.storage.chatIdsForUserId task.request.uid := by
    have hnot := hmissed list (by simp)
    simpa [missedBy, hlist] using hnot
  obtain ⟨e', he', hop'⟩ := hscans.all _ hlisted
  have hsaved : x ∈ e'.pre.saves := by
    rcases List.mem_append.mp he' with hlater | hrest
    · have horder := ht.order
      rw [hsplit] at horder
      have hgrows := (List.pairwise_append.mp horder).2.2 e' hlater e List.mem_cons_self
      exact hgrows.saves.subset hxin
    · rcases List.mem_cons.mp hrest with rfl | hearlier
      · exact hxin
      · have hnot := hmissed e' (List.mem_append_left _ hearlier)
        simpa [missedBy, hop'] using hnot
  exact hscans.returns ht hok he' hop' hsaved hu hts

end

end O2Chat.Server
