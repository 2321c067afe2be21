import O2Chat.Server.WorkerRuns

/-!
# The order of the message log

A worker reads the clock and saves the message in two steps. The log stays in the
order of its times exactly when no message with a later time is stored between the
two.
-/
namespace O2Chat.Server

open O2Chat.Common O2Chat.Db O2Chat.Lib.Interleaving O2Chat.Lib.Runs

def InOrder (messages : List Message) : Prop := messages.Pairwise fun m m' => m.ts ≤ m'.ts

def NewestFirst (messages : List Message) : Prop := messages.Pairwise fun m m' => m'.ts ≤ m.ts

/-- The clock never goes backwards. -/
def ClockForward (p : Workers) : WorkerAction → Prop
  | .clock now => p.state.clock ≤ now
  | _ => True

instance (p : Workers) : (a : WorkerAction) → Decidable (ClockForward p a)
  | .clock now => inferInstanceAs (Decidable (p.state.clock ≤ now))
  | .take _ | .work _ => isTrue trivial

def isClockReading (e : Event) : Bool :=
  match e.op with
  | .time => true
  | _ => false

/-- The messages stored since the thread read the clock. -/
def storedSinceClock (p : Workers) (t : Thread) : List Message :=
  match t.hist.find? isClockReading with
  | some e => p.state.storage.messages.drop e.pre.storage.messages.length
  | none => p.state.storage.messages

/-- No message newer than the one about to be saved was stored since its worker read
the clock. -/
def NotOvertaken (p : Workers) : WorkerAction → Prop
  | .work i => ∀ t ∈ p.threads[i]?, ∀ msg ∈ savesNext t, ∀ m ∈ storedSinceClock p t, m.ts ≤ msg.ts
  | _ => True

instance (p : Workers) : (a : WorkerAction) → Decidable (NotOvertaken p a)
  | .work i => inferInstanceAs (Decidable (∀ t ∈ p.threads[i]?, ∀ msg ∈ savesNext t,
      ∀ m ∈ storedSinceClock p t, m.ts ≤ msg.ts))
  | .take _ | .clock _ => isTrue trivial

/-! ## A message is saved with the time just read -/

/-- The program saves a message only right after reading its time. -/
def Timed {α : Type} (p : Work α) : Prop :=
  ∀ h msg k, Follows Op.exec p h (.op (.db (.saveMessage msg)) k) →
    ∃ e ∈ h.head?, isClockReading e = true ∧ e.pre.clock = msg.ts

def NoSave (o : Op) : Prop := ∀ msg, o ≠ .db (.saveMessage msg)

theorem Timed.of_all {α : Type} {p : Work α} (hp : p.All NoSave) : Timed p := by
  intro h msg k hf
  exact absurd rfl ((hp.follows hf).2.1 msg)

theorem Timed.bind {α β : Type} {p : Work α} {f : α → Work β} (hp : p.All NoSave)
    (hf : ∀ a, Timed (f a)) : Timed (p.bind f) := by
  intro h msg k hfollows
  rcases hfollows.of_bind with ⟨p', hp', hq⟩ | ⟨a, later, earlier, rfl, -, hrest⟩
  · cases p' with
    | pure a =>
      have hfirst : Follows Op.exec (f a) [] (.op (.db (.saveMessage msg)) k) := hq ▸ Follows.start
      obtain ⟨e, he, -⟩ := hf a [] msg k hfirst
      cases he
    | op o k' =>
      obtain ⟨rfl, -⟩ := Prog.op.inj hq
      exact absurd rfl ((hp.follows hp').2.1 msg)
  · obtain ⟨e, he, htime⟩ := hf a later msg k hrest
    refine ⟨e, ?_, htime⟩
    rw [List.head?_append, he]
    rfl

/-- Reading the clock and saving with its time. -/
theorem Timed.save {α : Type} {msg : Nat → Message} {k : Nat → Unit → Work α}
    (hmsg : ∀ now, (msg now).ts = now) (hk : ∀ now r, (k now r).All NoSave) :
    Timed (.op .time fun now => .op (.db (.saveMessage (msg now))) (k now)) := by
  intro h m k' hf
  rcases hf.of_op with ⟨-, hq⟩ | ⟨pre, now, post, later, hexec, rfl, hrest⟩
  · cases hq
  obtain ⟨rfl, rfl⟩ := Prod.mk.inj (Option.some.inj hexec)
  rcases hrest.of_op with ⟨rfl, hq⟩ | ⟨pre', r, post', later', -, rfl, hrest'⟩
  · obtain ⟨hop, -⟩ := Prog.op.inj hq
    obtain rfl := Call.saveMessage.inj (Op.db.inj hop)
    exact ⟨_, rfl, rfl, (hmsg _).symm⟩
  · exact absurd rfl (((hk _ r).follows hrest').2.1 m)

theorem noSave_reply (r : Reply) (rows : List Message) : NoSave (.reply r rows) := by
  intro msg heq
  cases heq

theorem noSave_call {c : Call} (hc : ∀ msg, c ≠ .saveMessage msg) : (call c).All NoSave :=
  ⟨fun msg heq => hc msg (Op.db.inj heq), fun _ => trivial⟩

theorem noSave_send (r : Reply) : (send r).All NoSave := ⟨noSave_reply r [], fun _ => trivial⟩

theorem noSave_lookupCheckPass (env : Extern) (task : Task) :
    (lookupCheckPass env task).All NoSave := by
  refine (noSave_call (by simp)).bind fun user => ?_
  split
  · exact (noSave_send _).bind fun _ => trivial
  · split
    · exact (noSave_send _).bind fun _ => trivial
    · trivial

theorem timed_processMessageSend (env : Extern) (task : Task) :
    Timed (processMessageSend env task) := by
  refine Timed.bind (noSave_lookupCheckPass env task) fun user => ?_
  split
  · exact Timed.of_all trivial
  refine Timed.bind (noSave_call (by simp)) fun usersTo => ?_
  split
  · exact Timed.of_all (noSave_send _)
  · exact Timed.save (fun _ => rfl) fun _ _ => noSave_send _
  · exact Timed.of_all (noSave_send _)

theorem timed_processMessageSendChat (env : Extern) (task : Task) :
    Timed (processMessageSendChat env task) := by
  refine Timed.bind (noSave_lookupCheckPass env task) fun user => ?_
  split
  · exact Timed.of_all trivial
  refine Timed.bind (noSave_call (by simp)) fun chats => ?_
  split
  · exact Timed.save (fun _ => rfl) fun _ _ => noSave_send _
  · exact Timed.of_all (noSave_send _)

/-! ## Runs -/

/-- No stored message is from the future. -/
def Stamped (s : Shared) : Prop := ∀ m ∈ s.storage.messages, m.ts ≤ s.clock

/-- The clock goes forward and messages are appended. -/
structure Ticks (s s' : Shared) : Prop where
  clock : s.clock ≤ s'.clock
  messages : s.storage.messages.map Message.body <+: s'.storage.messages.map Message.body

theorem Ticks.trans {a b c : Shared} (h : Ticks a b) (h' : Ticks b c) : Ticks a c :=
  ⟨Nat.le_trans h.clock h'.clock, h.messages.trans h'.messages⟩

section

variable {env : Extern} {p p' : Workers} {a : WorkerAction}

/-- The times of the messages do not depend on their flags. -/
theorem map_ts_eq {l l' : List Message} (h : l.map Message.body = l'.map Message.body) :
    l.map Message.ts = l'.map Message.ts := by
  have hts : ∀ l : List Message, l.map Message.ts = (l.map Message.body).map Message.ts := by
    intro l
    rw [List.map_map]
    rfl
  rw [hts l, h, ← hts l']

theorem inOrder_iff (l : List Message) : InOrder l ↔ (l.map Message.ts).Pairwise (· ≤ ·) :=
  List.pairwise_map.symm

/-- What an operation does to the messages and the clock. -/
theorem Op.exec_messages {o : Op} {s s' : Shared} {r : o.Res} (h : o.exec s = some (s', r)) :
    s'.clock = s.clock ∧
    ((∃ msg, o = .db (.saveMessage msg) ∧ s'.storage.messages = s.storage.messages ++ [msg]) ∨
      (NoSave o ∧ s'.storage.messages.map Message.body = s.storage.messages.map Message.body)) := by
  cases o with
  | db c =>
    obtain ⟨⟨storage, r'⟩, hc, heq⟩ := Option.map_eq_some_iff.mp h
    obtain ⟨rfl, -⟩ := Prod.mk.inj heq
    refine ⟨rfl, ?_⟩
    by_cases hsave : ∃ msg, c = .saveMessage msg
    · obtain ⟨msg, rfl⟩ := hsave
      obtain ⟨t, ht, heq⟩ := Option.map_eq_some_iff.mp hc
      obtain ⟨rfl, -⟩ := Prod.mk.inj heq
      exact Or.inl ⟨msg, rfl, by rw [Storage.saveMessage_eq ht]⟩
    · have hno : ∀ msg, c ≠ .saveMessage msg := fun msg heq => hsave ⟨msg, heq⟩
      exact Or.inr ⟨fun msg heq => hno msg (Op.db.inj heq), Call.exec_bodies hno hc⟩
  | time =>
    obtain ⟨rfl, -⟩ := Prod.mk.inj (Option.some.inj h)
    have hno : NoSave .time := by
      intro msg heq
      cases heq
    exact ⟨rfl, Or.inr ⟨hno, rfl⟩⟩
  | reply reply rows =>
    obtain ⟨rfl, -⟩ := Prod.mk.inj (Option.some.inj h)
    exact ⟨rfl, Or.inr ⟨noSave_reply reply rows, rfl⟩⟩

/-- When a thread saves, the event before was its reading of the clock. -/
theorem clock_read_before_save (hsafe : p.Safe env) (htrack : p.Tracked Op.exec (processTask env))
    {i : Nat} {t : Thread} {e : Event} {msg : Message}
    (hw : p.work Op.exec i = some (p', t, e)) (hop : e.op = .db (.saveMessage msg)) :
    ∃ e' ∈ t.hist.head?, isClockReading e' = true ∧ e'.pre.clock = msg.ts := by
  have hsaves := (hsafe.work (fun _ => .refl _) @ext_trans hw).2.2.saves
  have hsend : isSend t.tag.cmd = true := by
    by_contra hno
    rw [if_neg hno] at hsaves
    have hin : msg ∈ saved (e :: t.hist) :=
      List.mem_filterMap.mpr ⟨e, List.mem_cons_self, by rw [hop]⟩
    have := List.length_pos_of_mem hin
    omega
  obtain ⟨hi, k, hprog, -, -, -⟩ := Pool.work_cases hw
  have hfollows := htrack t (List.mem_of_getElem? hi)
  obtain ⟨pre, op, res, post⟩ := e
  obtain rfl : op = .db (.saveMessage msg) := hop
  rw [hprog] at hfollows
  have hcmd : t.tag.cmd = .messageSend ∨ t.tag.cmd = .messageSendChat := by
    simpa [isSend] using hsend
  unfold processTask at hfollows
  rcases hcmd with hcmd | hcmd
  · rw [hcmd] at hfollows
    exact timed_processMessageSend env t.tag _ msg k hfollows
  · rw [hcmd] at hfollows
    exact timed_processMessageSendChat env t.tag _ msg k hfollows

theorem ticks_of_exec {o : Op} {s s' : Shared} {r : o.Res} (h : o.exec s = some (s', r)) :
    Ticks s s' := by
  obtain ⟨hclock, ⟨msg, -, hsave⟩ | ⟨-, hsame⟩⟩ := Op.exec_messages h
  · refine ⟨hclock.ge, ?_⟩
    rw [hsave, List.map_append]
    exact List.prefix_append _ _
  · exact ⟨hclock.ge, hsame ▸ List.prefix_rfl⟩

theorem stamped_congr {s s' : Shared} (h : Stamped s) (hclock : s.clock ≤ s'.clock)
    (hsame : s'.storage.messages.map Message.body = s.storage.messages.map Message.body) :
    Stamped s' := by
  intro m hm
  have hts : m.ts ∈ s.storage.messages.map Message.ts := by
    rw [← map_ts_eq hsame]
    exact List.mem_map_of_mem hm
  obtain ⟨m₀, hm₀, heq⟩ := List.mem_map.mp hts
  have := h m₀ hm₀
  omega

theorem recorded_clock_step (hsafe : p.Safe env)
    (htrack : p.Tracked Op.exec (processTask env)) (hp : p.Recorded Stamped Ticks)
    (hok : ClockForward p a) (hs : p.step env a = some p') : p'.Recorded Stamped Ticks := by
  cases a with
  | take task =>
    obtain rfl := Option.some.inj hs
    exact hp.spawn task _
  | work i =>
    obtain ⟨⟨q, t, e⟩, hw, rfl⟩ := Option.map_eq_some_iff.mp hs
    obtain ⟨hi, k, -, -, hexec, hq⟩ := Pool.work_cases hw
    have hpost : q.state = e.post := by rw [hq]
    refine hp.work @Ticks.trans hw (hpost ▸ ticks_of_exec hexec) ?_
    rw [hpost]
    obtain ⟨hclock, ⟨msg, hop, hsave⟩ | ⟨-, hsame⟩⟩ := Op.exec_messages hexec
    · obtain ⟨e', he', -, htime⟩ := clock_read_before_save hsafe htrack hw hop
      have hpast := (hp.past t (List.mem_of_getElem? hi) e' (List.mem_of_mem_head? he')).2.clock
      intro m hm
      rw [hsave] at hm
      rw [hclock]
      rcases List.mem_append.mp hm with hold | hnew
      · exact hp.now m hold
      · obtain rfl := List.mem_singleton.mp hnew
        omega
    · exact stamped_congr hp.now hclock.ge hsame
  | clock now =>
    obtain rfl := Option.some.inj hs
    exact hp.extend @Ticks.trans ⟨hok, List.prefix_rfl⟩ fun m hm => Nat.le_trans (hp.now m hm) hok

theorem recorded_clock {ok : Workers → WorkerAction → Prop} (hok : ∀ p a, ok p a → ClockForward p a)
    (h : Run (Workers.step env) ok Workers.init p) : p.Recorded Stamped Ticks := by
  induction h with
  | refl => exact ⟨by simp [Stamped, Workers.init], by simp [Workers.init], by simp [Workers.init]⟩
  | tail hrun ha hs ih =>
    exact recorded_clock_step (workers_safe hrun) (workers_tracked hrun) ih (hok _ _ ha) hs

/-- What was stored when the clock was read is not newer than the message. -/
theorem mem_storedSinceClock (hp : p.Recorded Stamped Ticks) {t : Thread} (ht : t ∈ p.threads)
    {e : Event} (he : e ∈ t.hist.head?) (hread : isClockReading e = true) {m : Message}
    (hm : m ∈ p.state.storage.messages) : m.ts ≤ e.pre.clock ∨ m ∈ storedSinceClock p t := by
  have hfind : t.hist.find? isClockReading = some e := by
    cases hhist : t.hist with
    | nil => simp [hhist] at he
    | cons e₀ older =>
      obtain rfl : e₀ = e := by simpa [hhist] using he
      simp [hread]
  obtain ⟨hstamped, hticks⟩ := hp.past t ht e (List.mem_of_mem_head? he)
  unfold storedSinceClock
  rw [hfind]
  have hsplit := List.take_append_drop e.pre.storage.messages.length p.state.storage.messages
  rw [← hsplit] at hm
  rcases List.mem_append.mp hm with hold | hnew
  · left
    have hbodies : (p.state.storage.messages.take e.pre.storage.messages.length).map Message.body =
        e.pre.storage.messages.map Message.body := by
      rw [List.map_take, List.prefix_iff_eq_take.mp hticks.messages, List.length_map]
    have hthen : Stamped { e.pre with storage := { e.pre.storage with
        messages := p.state.storage.messages.take e.pre.storage.messages.length } } :=
      stamped_congr hstamped (Nat.le_refl _) hbodies
    exact hthen m hold
  · exact Or.inr hnew

/-- A step of ordered messages leaves them ordered exactly when the message that it
saves is not overtaken. -/
theorem inOrder_step (hsafe : p.Safe env) (htrack : p.Tracked Op.exec (processTask env))
    (hp : p.Recorded Stamped Ticks) (hold : InOrder p.state.storage.messages)
    (hs : p.step env a = some p') : InOrder p'.state.storage.messages ↔ NotOvertaken p a := by
  cases a with
  | take task =>
    obtain rfl := Option.some.inj hs
    exact iff_of_true hold trivial
  | clock now =>
    obtain rfl := Option.some.inj hs
    exact iff_of_true hold trivial
  | work i =>
    obtain ⟨⟨q, t, e⟩, hw, rfl⟩ := Option.map_eq_some_iff.mp hs
    obtain ⟨hi, k, hprog, -, hexec, hq⟩ := Pool.work_cases hw
    have hpost : q.state = e.post := by rw [hq]
    rw [hpost]
    obtain ⟨-, ⟨msg, hop, hsave⟩ | ⟨hno, hsame⟩⟩ := Op.exec_messages hexec
    · obtain ⟨e', he', hread, htime⟩ := clock_read_before_save hsafe htrack hw hop
      have hnext : savesNext t = some msg := by
        obtain ⟨pre, op, res, post⟩ := e
        obtain rfl : op = .db (.saveMessage msg) := hop
        rw [savesNext, hprog]
      rw [hsave, InOrder, List.pairwise_append]
      constructor
      · rintro ⟨-, -, hlast⟩ t' ht' msg' hmsg' m hm
        obtain rfl : t = t' := Option.some.inj (hi.symm.trans ht')
        obtain rfl : msg = msg' := Option.some.inj (hnext.symm.trans hmsg')
        refine hlast m ?_ msg (List.mem_singleton.mpr rfl)
        unfold storedSinceClock at hm
        split at hm
        · exact List.mem_of_mem_drop hm
        · exact hm
      · intro hok
        refine ⟨hold, List.pairwise_singleton _ _, ?_⟩
        intro m hm msg' hmsg'
        obtain rfl := List.mem_singleton.mp hmsg'
        rcases mem_storedSinceClock hp (List.mem_of_getElem? hi) he' hread hm with hle | hsince
        · omega
        · exact hok t hi msg' hnext m hsince
    · refine iff_of_true ?_ ?_
      · rw [inOrder_iff, map_ts_eq hsame, ← inOrder_iff]
        exact hold
      · intro t' ht' msg hmsg
        obtain rfl : t = t' := Option.some.inj (hi.symm.trans ht')
        obtain ⟨pre, op, res, post⟩ := e
        rw [savesNext, hprog] at hmsg
        cases op with
        | db c =>
          cases c with
          | saveMessage m => exact absurd rfl (hno m)
          | _ => cases hmsg
        | _ => cases hmsg

/-- Rows are only appended, so the order is never restored. -/
theorem inOrder_before (hs : p.step env a = some p') (h : InOrder p'.state.storage.messages) :
    InOrder p.state.storage.messages := by
  have hmessages : p.state.storage.messages.map Message.body <+:
      p'.state.storage.messages.map Message.body := (workers_step_extends hs).messages
  have hts := hmessages.map Message.ts
  rw [List.map_map, List.map_map] at hts
  rw [inOrder_iff] at h ⊢
  exact h.sublist hts.sublist

/-! ## The scans -/

theorem InOrder.reverse {l : List Message} (h : InOrder l) : NewestFirst l.reverse :=
  List.pairwise_reverse.mpr h

theorem NewestFirst.selected {l : List Message} (h : NewestFirst l) (pred : Message → Bool)
    (opt : GetMsgOpt) : NewestFirst (Storage.limited opt (l.filter pred)) :=
  (h.sublist List.filter_sublist).sublist (Storage.limited_sublist opt _)

/-- The stored messages have non-decreasing times, and the backwards scans visit and
return them from newest to oldest. -/
structure LogInOrder (s : Storage) : Prop where
  log : InOrder s.messages
  visited : NewestFirst s.messages.reverse
  get : ∀ chatid opt s' msgs, s.getMessages chatid opt = some (s', msgs) → NewestFirst msgs
  select : ∀ pred opt msgs, s.selectMessages pred opt = some msgs → NewestFirst msgs

theorem logInOrder_iff (s : Storage) : LogInOrder s ↔ InOrder s.messages := by
  constructor
  · exact LogInOrder.log
  · intro h
    refine ⟨h, h.reverse, ?_, ?_⟩
    · intro chatid opt s' msgs hget
      obtain ⟨marked, -, heq⟩ := Storage.getMessages_eq s chatid opt
      obtain ⟨-, rfl⟩ := Prod.mk.inj (Option.some.inj (heq.symm.trans hget))
      exact h.reverse.selected _ opt
    · intro pred opt msgs hselect
      obtain rfl := Option.some.inj ((Storage.selectMessages_eq s pred opt).symm.trans hselect)
      exact h.reverse.selected pred opt

end

/-- Under a clock that never goes backwards the log is in the order of time exactly
when the state is reached without overtaking: between the moment a worker reads the
clock and the moment it saves, no other worker saves a newer message. -/
theorem message_log_in_order (env : Extern) (p : Workers)
    (h : Run (Workers.step env) ClockForward Workers.init p) : LogInOrder p.state.storage ↔
      Run (Workers.step env) (fun p a => ClockForward p a ∧ NotOvertaken p a) Workers.init p := by
  rw [logInOrder_iff]
  constructor
  · intro hlog
    induction h with
    | refl => exact .refl
    | @tail p p' a hrun hok hs ih =>
      have hbefore := inOrder_before hs hlog
      have hrecorded := recorded_clock (fun _ _ hok => hok) hrun
      have hstep := inOrder_step (workers_safe hrun) (workers_tracked hrun) hrecorded hbefore hs
      exact .tail (ih hbefore) ⟨hok, hstep.mp hlog⟩ hs
  · intro hrun
    clear h
    induction hrun with
    | refl => exact List.Pairwise.nil
    | @tail p p' a hrun hok hs ih =>
      have hrecorded := recorded_clock (fun _ _ hok => hok.1) hrun
      exact (inOrder_step (workers_safe hrun) (workers_tracked hrun) hrecorded ih hs).mpr hok.2

namespace Sample

/-- A note of the first user to herself. -/
def noteTask (text : String) : Task :=
  { cmd := .messageSend, client := 0,
    request := { uid := 1, password := bytes "password", toUser := bytes "amy",
                 message := bytes text } }

/-- Amy registers, and a worker saves a note at time 1 and another one at time 2. -/
def notes : List WorkerAction :=
  alone 0 (create "amy") 3 ++ .clock 1 :: alone 1 (noteTask "first") 4 ++
    .clock 2 :: alone 2 (noteTask "second") 4

/-- The first worker has read the clock when the second one reads it and saves. -/
def overtaken : List WorkerAction :=
  alone 0 (create "amy") 3 ++ .clock 1 :: alone 1 (noteTask "first") 3 ++
    .clock 2 :: alone 2 (noteTask "second") 4 ++ [.work 1]

end Sample

theorem message_log_in_order_two_notes : ∃ p,
    Run (Workers.step Sample.env) ClockForward Workers.init p ∧
      p.state.storage.messages.map Message.ts = [1, 2] ∧ LogInOrder p.state.storage := by
  have hlist : (runList (Workers.step Sample.env) (fun p a => ClockForward p a ∧ NotOvertaken p a)
      Workers.init Sample.notes).any
      (fun p => p.state.storage.messages.map Message.ts = [1, 2]) = true := by decide +kernel
  obtain ⟨p, hrun, hts⟩ := exists_run hlist
  have hforward := hrun.mono fun _ _ hok => hok.1
  exact ⟨p, hforward, by simpa using hts, (message_log_in_order Sample.env p hforward).mpr hrun⟩

/-- Two workers save their messages in the wrong order. -/
theorem message_log_overtaken : ∃ p,
    Run (Workers.step Sample.env) ClockForward Workers.init p ∧
      p.state.storage.messages.map Message.ts = [2, 1] ∧ ¬ LogInOrder p.state.storage := by
  have hlist : (runList (Workers.step Sample.env) ClockForward Workers.init Sample.overtaken).any
      (fun p => p.state.storage.messages.map Message.ts = [2, 1]) = true := by decide +kernel
  obtain ⟨p, hrun, hts⟩ := exists_run hlist
  have hts : p.state.storage.messages.map Message.ts = [2, 1] := by simpa using hts
  refine ⟨p, hrun, hts, ?_⟩
  rw [logInOrder_iff, inOrder_iff, hts]
  decide

end O2Chat.Server
