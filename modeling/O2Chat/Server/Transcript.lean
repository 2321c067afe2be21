import O2Chat.Server.Linearizable
import O2Chat.Server.Pairing

/-!
# What a connection is told

The order of the commands (`Linearizable`) put together with the pairing of requests and
responses (`Pairing`). A connection that is not asked for `/v1/idle` has at most one task
in progress. So its commands stand in the order in the order of its requests, and each of
its responses tells the answer that the room has given to its own command.
-/
namespace O2Chat.Server

open O2Chat.Common O2Chat.Db O2Chat.Lib.Interleaving O2Chat.Lib.Linearization O2Chat.Lib.Runs

abbrev LogEntry := Entry Task Answer

/-- The commands of one connection. -/
def ofClient (c : Nat) (log : List LogEntry) : List LogEntry := log.filter (·.command.client = c)

/-- The commands of the connection that have been answered, and at most one that will be. -/
structure Accounted (p : Workers) (c : Nat) (log told : List LogEntry) : Prop where
  order : ∃ pending : Option LogEntry, ofClient c log = told ++ pending.toList ∧
    ∀ en ∈ pending, ∃ t, p.threads[en.thread]? = some t ∧ unanswered t = true
  answered : ∀ en ∈ told, ∃ t, p.threads[en.thread]? = some t ∧ unanswered t = false

section

variable {env : Extern} {c : Nat} {p p' : Workers} {log told ext : List LogEntry}

/-! ## Threads in progress -/

/-- Only one element satisfies the condition. -/
theorem index_eq_of_countP_le_one {α : Type} {key : α → Bool} {l : List α} {i j : Nat} {a b : α}
    (h : l.countP key ≤ 1) (hi : l[i]? = some a) (ha : key a = true) (hj : l[j]? = some b)
    (hb : key b = true) : i = j := by
  induction l generalizing i j with
  | nil => cases hi
  | cons x l ih =>
    have hpos : ∀ {n : Nat} {y : α}, l[n]? = some y → key y = true → 0 < l.countP key :=
      fun hn hy => List.countP_pos_iff.mpr ⟨_, List.mem_of_getElem? hn, hy⟩
    rw [List.countP_cons] at h
    cases i with
    | zero =>
      obtain rfl := Option.some.inj hi
      rw [if_pos ha] at h
      cases j with
      | zero => rfl
      | succ j =>
        have := hpos hj hb
        omega
    | succ i =>
      have hli := hpos hi ha
      cases j with
      | zero =>
        obtain rfl := Option.some.inj hj
        rw [if_pos hb] at h
        omega
      | succ j => exact congrArg (· + 1) (ih (by omega) hi hj)

/-- The room knows only commands that `processQueue` knows. -/
theorem processed_of_serve {task : Task} {r r' : Room} {answer : Answer}
    (h : Room.serve env task r answer r') : processed task.cmd = true := by
  cases hcmd : task.cmd <;> simp only [Room.serve, hcmd] at h <;> rfl

theorem processed_of_mem (hlog : Log env p log) {en : LogEntry} (hen : en ∈ log) :
    processed en.command.cmd = true := by
  obtain ⟨_, _, b, d, -, hserve, -⟩ := hlog.serves.of_mem hen
  exact processed_of_serve hserve

theorem answered_of_processed {cmd : Cmd} (h : processed cmd = true) (hidle : cmd ≠ .idle) :
    answered cmd = true := by
  cases cmd <;> first | rfl | exact absurd rfl hidle | cases h

/-- A task that has not replied has not finished. -/
theorem unanswered_of_quiet (hsafe : p.Safe env) {t : Thread} (ht : t ∈ p.threads)
    (hcmd : answered t.tag.cmd = true) (hquiet : replies t.hist = []) : unanswered t = true := by
  cases hfin : t.prog.finished with
  | true =>
    have hone := hsafe.finished ht hfin hcmd
    rw [hquiet] at hone
    cases hone
  | false => simp [unanswered, hquiet, hfin]

theorem replies_of_none {t : Thread} (h : Took env t.tag none t.hist) : replies t.hist = [] := by
  rw [List.eq_nil_iff_forall_not_mem]
  intro reply hr
  obtain ⟨e, he, rows, hop⟩ := mem_replies hr
  obtain ⟨a, hnone, -⟩ := h.visible he ⟨reply, rows, hop⟩
  cases hnone

theorem mem_ofClient {en : LogEntry} (hen : en ∈ ofClient c log) :
    en ∈ log ∧ en.command.client = c := by
  simpa [ofClient] using hen

/-! ## One step of the workers -/

theorem Accounted.spawn (h : Accounted p c log told) (task : Task) (prog : Work Unit) :
    Accounted (p.spawn task prog) c log told := by
  have hold : ∀ (i : Nat) (t : Thread), p.threads[i]? = some t →
      (p.spawn task prog).threads[i]? = some t := by
    intro i t ht
    have hlt := (List.getElem?_eq_some_iff.mp ht).1
    rw [Pool.spawn, List.getElem?_append_left hlt]
    exact ht
  obtain ⟨pending, horder, hpending⟩ := h.order
  refine ⟨⟨pending, horder, fun en hen => ?_⟩, fun en hen => ?_⟩
  · obtain ⟨t, ht, hun⟩ := hpending en hen
    exact ⟨t, hold _ t ht, hun⟩
  · obtain ⟨t, ht, hans⟩ := h.answered en hen
    exact ⟨t, hold _ t ht, hans⟩

/-- A step of a thread of another connection. -/
theorem Accounted.other (h : Accounted p c log told) (hlog : Log env p log) {i : Nat} {t : Thread}
    {e : Event} (hw : p.work Op.exec i = some (p', t, e)) (hc : t.tag.client ≠ c)
    (hext : ∀ en ∈ ext, en.command = t.tag) : Accounted p' c (log ++ ext) told := by
  obtain ⟨hi, k, -, -, -, rfl⟩ := Pool.work_cases hw
  have hsame : ∀ en ∈ ofClient c log, ∀ u, p.threads[en.thread]? = some u →
      (p.threads.set i ⟨t.tag, k e.res, e :: t.hist⟩)[en.thread]? = some u := by
    intro en hen u hu
    obtain ⟨hen, hclient⟩ := mem_ofClient hen
    have hne : i ≠ en.thread := by
      rintro rfl
      obtain ⟨v, hv, htag⟩ := hlog.owner en hen
      obtain rfl := Option.some.inj (hi.symm.trans hv)
      exact hc (htag ▸ hclient)
    rw [List.getElem?_set_ne hne]
    exact hu
  have hnone : ofClient c ext = [] := by
    rw [ofClient, List.filter_eq_nil_iff]
    intro en hen
    simpa [hext en hen] using hc
  obtain ⟨pending, horder, hpending⟩ := h.order
  refine ⟨⟨pending, ?_, fun en hen => ?_⟩, fun en hen => ?_⟩
  · rw [ofClient, List.filter_append, ← ofClient, ← ofClient, hnone, List.append_nil, horder]
  · obtain ⟨u, hu, hun⟩ := hpending en hen
    exact ⟨u, hsame en (by rw [horder]; simp_all) u hu, hun⟩
  · obtain ⟨u, hu, hans⟩ := h.answered en hen
    exact ⟨u, hsame en (by rw [horder]; exact List.mem_append_left _ hen) u hu, hans⟩

/-- A thread of the connection performs an operation that is not its reply. It may be the
one in which it takes effect. -/
theorem Accounted.quiet (h : Accounted p c log told) (hlog : Log env p log) (hsafe' : p'.Safe env)
    {i : Nat} {t : Thread} {e : Event} (hw : p.work Op.exec i = some (p', t, e))
    (hidle : t.tag.cmd ≠ .idle) (hc : t.tag.client = c) (hone : inProgress p c ≤ 1)
    (hop : ∀ reply rows, e.op ≠ .reply reply rows) (hlog' : Log env p' (log ++ ext))
    (hext : ext = [] ∨ ∃ r, ext = [⟨i, t.tag, r⟩] ∧ Took env t.tag none t.hist) :
    Accounted p' c (log ++ ext) told := by
  obtain ⟨hi, k, hprog, -, -, hp'⟩ := Pool.work_cases hw
  have hlt := (List.getElem?_eq_some_iff.mp hi).1
  have hself : p'.threads[i]? = some ⟨t.tag, k e.res, e :: t.hist⟩ := by
    rw [hp']
    exact List.getElem?_set_self hlt
  have hother : ∀ (j : Nat) (u : Thread), j ≠ i → p.threads[j]? = some u →
      p'.threads[j]? = some u := by
    intro j u hj hu
    rw [hp', List.getElem?_set_ne (Ne.symm hj)]
    exact hu
  -- if the thread stands in the new log, it is still to reply when it was before
  have hstill : ∀ en ∈ log ++ ext, en.thread = i → replies t.hist = [] →
      unanswered ⟨t.tag, k e.res, e :: t.hist⟩ = true := by
    rintro en hen rfl hquiet
    obtain ⟨u, hu, htag⟩ := hlog'.owner en hen
    obtain rfl := Option.some.inj (hself.symm.trans hu)
    have hproc := processed_of_mem hlog' hen
    rw [← htag] at hproc
    refine unanswered_of_quiet hsafe' (List.mem_of_getElem? hself)
      (answered_of_processed hproc hidle) ?_
    rw [replies_cons, replies_other hop, hquiet]
    rfl
  have hanswered : ∀ en ∈ told, ∃ u, p'.threads[en.thread]? = some u ∧ unanswered u = false := by
    intro en hen
    obtain ⟨u, hu, hans⟩ := h.answered en hen
    by_cases heq : en.thread = i
    · obtain rfl : u = t := Option.some.inj (hu.symm.trans (heq ▸ hi))
      refine ⟨_, heq ▸ hself, ?_⟩
      by_contra hun
      have hbefore := unanswered_before_work hw (u := ⟨u.tag, k e.res, e :: u.hist⟩) rfl
        (by simpa using hun)
      rw [hans] at hbefore
      cases hbefore
    · exact ⟨u, hother _ u heq hu, hans⟩
  obtain ⟨pending, horder, hpending⟩ := h.order
  rcases hext with rfl | ⟨r, rfl, hnone⟩
  · refine ⟨⟨pending, by rw [List.append_nil, horder], fun en hen => ?_⟩, hanswered⟩
    obtain ⟨u, hu, hun⟩ := hpending en hen
    by_cases heq : en.thread = i
    · obtain rfl : u = t := Option.some.inj (hu.symm.trans (heq ▸ hi))
      have hmem : en ∈ log := (mem_ofClient (c := c) (by rw [horder]; simp_all)).1
      exact ⟨_, heq ▸ hself, hstill en (by simpa using hmem) heq (replies_of_unanswered hun)⟩
    · exact ⟨u, hother _ u heq hu, hun⟩
  · -- another pending command would belong to a second thread in progress
    have hquiet := replies_of_none hnone
    have hun : unanswered t = true := by
      unfold unanswered
      rw [hquiet, hprog]
      rfl
    obtain rfl : pending = none := by
      cases hpend : pending with
      | none => rfl
      | some en =>
        obtain ⟨u, hu, hunu⟩ := hpending en hpend
        have hin : en ∈ ofClient c log := by rw [horder, hpend]; simp
        obtain ⟨hmem, hclient⟩ := mem_ofClient hin
        obtain ⟨v, hv, htag⟩ := hlog.owner en hmem
        obtain rfl := Option.some.inj (hu.symm.trans hv)
        have heq : en.thread = i := index_eq_of_countP_le_one hone hu
          (by simp [htag, hclient, hunu]) hi (by simp [hc, hun])
        obtain ⟨r', hr', hof⟩ := hlog.threads i t hi
        obtain rfl := hr'.unique hnone
        have hans : en.answer ∈ ofThread log i :=
          List.mem_map.mpr ⟨en, List.mem_filter.mpr ⟨hmem, by simpa using heq⟩, rfl⟩
        rw [hof] at hans
        cases hans
    refine ⟨⟨some ⟨i, t.tag, r⟩, ?_, fun en hen => ?_⟩, hanswered⟩
    · have hnew : ofClient c [⟨i, t.tag, r⟩] = [⟨i, t.tag, r⟩] := by simp [ofClient, hc]
      rw [ofClient, List.filter_append, ← ofClient, ← ofClient, hnew, horder]
      simp
    · obtain rfl := Option.some.inj hen
      exact ⟨_, hself, hstill ⟨i, t.tag, r⟩ (by simp) rfl hquiet⟩

/-- A thread of the connection replies. -/
theorem Accounted.reply (h : Accounted p c log told) (hsafe : p.Safe env) (hlog' : Log env p' log)
    {i : Nat} {t : Thread} {e : Event} (hw : p.work Op.exec i = some (p', t, e))
    (hc : t.tag.client = c) {reply : Reply} {rows : List Message} (hop : e.op = .reply reply rows) :
    ∃ answer, answer.ConveyedBy reply ∧ Accounted p' c log (told ++ [⟨i, t.tag, answer⟩]) := by
  have hun := unanswered_of_reply hsafe hw hop
  obtain ⟨hi, k, -, -, -, hp'⟩ := Pool.work_cases hw
  have hlt := (List.getElem?_eq_some_iff.mp hi).1
  have hself : p'.threads[i]? = some ⟨t.tag, k e.res, e :: t.hist⟩ := by
    rw [hp']
    exact List.getElem?_set_self hlt
  obtain ⟨answer, hmem, reply', rows', hop', hconveyed⟩ :=
    hlog'.shown hself (e := e) (by simp) ⟨reply, rows, hop⟩
  obtain ⟨rfl, -⟩ := Op.reply.inj (hop.symm.trans hop')
  refine ⟨answer, hconveyed, ?_⟩
  have hne : ∀ en ∈ told, en.thread ≠ i := by
    rintro en hen rfl
    obtain ⟨u, hu, hans⟩ := h.answered en hen
    obtain rfl := Option.some.inj (hi.symm.trans hu)
    rw [hun] at hans
    cases hans
  obtain ⟨pending, horder, -⟩ := h.order
  have hin : (⟨i, t.tag, answer⟩ : LogEntry) ∈ told ++ pending.toList := by
    rw [← horder]
    exact List.mem_filter.mpr ⟨hmem, by simpa using hc⟩
  obtain rfl : pending = some ⟨i, t.tag, answer⟩ := by
    rcases List.mem_append.mp hin with hold | hpend
    · exact absurd rfl (hne _ hold)
    · simpa using hpend
  refine ⟨⟨none, by simpa using horder, by simp⟩, fun en hen => ?_⟩
  rcases List.mem_append.mp hen with hold | hnew
  · obtain ⟨u, hu, hans⟩ := h.answered en hold
    refine ⟨u, ?_, hans⟩
    rw [hp', List.getElem?_set_ne (Ne.symm (hne en hold))]
    exact hu
  · obtain rfl := List.mem_singleton.mp hnew
    refine ⟨_, hself, ?_⟩
    simp [unanswered, replies_cons e t.hist, replies_reply hop]

end

/-! ## Responses -/

/-- The worker that has made the response tells the answer in the log. The handler of a
request that is refused answers it itself. -/
def Told (r : Response) : Option LogEntry → Prop
  | none => r.thread = none
  | some en => ∃ t, r.thread = some t ∧ t.tag = en.command ∧
      ∃ e ∈ t.hist.head?, ∃ reply rows, e.op = .reply reply rows ∧ en.answer.ConveyedBy reply

/-- One entry or none for each response, and these in the order of the log. -/
structure Transcribed (c : Nat) (w : Watched) (log : List LogEntry)
    (entries : List (Option LogEntry)) : Prop where
  told : List.Forall₂ Told w.responses entries
  accounted : Accounted w.system.workers c log (entries.filterMap id)

section

variable {env : Extern} {c : Nat} {w : Watched} {s' : System} {a : Action} {log : List LogEntry}
  {entries : List (Option LogEntry)}

/-- Responses of a handler. -/
theorem Transcribed.handled (h : Transcribed c w log entries) {responses : List Response}
    (hnone : ∀ r ∈ responses, r.thread = none) (requests : List Asked)
    (hin : Accounted s'.workers c log (entries.filterMap id)) :
    Transcribed c ⟨s', requests, w.responses ++ responses⟩ log
      (entries ++ responses.map fun _ => none) := by
  refine ⟨List.rel_append h.told ?_, ?_⟩
  · rw [List.forall₂_map_right_iff]
    exact List.forall₂_same.mpr hnone
  · have hid : (responses.map fun _ => (none : Option LogEntry)).filterMap id = [] := by
      rw [List.filterMap_eq_nil_iff]
      intro en hen
      obtain ⟨-, -, rfl⟩ := List.mem_map.mp hen
      rfl
    rw [List.filterMap_append, hid, List.append_nil]
    exact hin

theorem thread_of_starts (c : Nat) (s' : System) (ha : ∀ i, a ≠ .work i) (s : System) :
    ∀ r ∈ starts c s a s', r.thread = none := by
  intro r hr
  unfold starts at hr
  split at hr
  · rename_i i
    exact absurd rfl (ha i)
  · obtain ⟨data, -, rfl⟩ := List.mem_map.mp hr
    rfl

/-- A step of the server extends the log and the transcript. -/
theorem transcribed_step (hrun : Run (System.step env) anyStep {} w.system)
    (hfresh : Fresh w.system c) (htakes : w.system.workers.Takes env)
    (hlog : Log env w.system.workers log) (h : Transcribed c w log entries)
    (requests : List Asked) (hs : w.system.step env a = some s') :
    s'.workers.Takes env ∧ ∃ log' entries', Log env s'.workers log' ∧
      Transcribed c ⟨s', requests, w.responses ++ starts c w.system a s'⟩ log' entries' := by
  have hsafe := system_safe hrun
  have hsafe' := system_safe (.tail hrun trivial hs)
  by_cases hwork : ∃ i, a = .work i
  · obtain ⟨i, rfl⟩ := hwork
    obtain ⟨workers, t, e, hw, hcase⟩ := System.work_cases hs
    have hworkers : s'.workers = workers := by
      rcases hcase with ⟨-, -, -, rfl⟩ | ⟨-, rfl⟩ <;> rfl
    obtain ⟨htakes', -, hlinear⟩ := htakes.work (fun _ => .refl _) @ext_trans hw
    obtain ⟨ext, hlog', hext⟩ := hlog.work hw hlinear
    rw [hworkers] at hsafe' ⊢
    obtain ⟨hi, k, hprog, hpre, -, hp'⟩ := Pool.work_cases hw
    have hidle : t.tag.client = c → t.tag.cmd ≠ .idle := fun hc =>
      hfresh.tasks t.tag (List.mem_append_right _ (List.mem_map_of_mem (List.mem_of_getElem? hi))) hc
    have hone : inProgress w.system.workers c ≤ 1 := by
      have hout := hfresh.sequential.one
      unfold outstanding at hout
      omega
    by_cases hreply : t.tag.client = c ∧ ∃ reply rows, e.op = .reply reply rows
    · obtain ⟨hc, reply, rows, hop⟩ := hreply
      obtain rfl : ext = [] := by
        rcases hext with rfl | ⟨r, -, -, hnot⟩
        · rfl
        · exact absurd ⟨reply, rows, hop⟩ hnot
      rw [List.append_nil] at hlog'
      obtain ⟨answer, hconveyed, hin⟩ := h.accounted.reply hsafe hlog' hw hc hop
      obtain ⟨data, hstarts⟩ : ∃ data, starts c w.system (.work i) s' =
          [⟨data, some ⟨t.tag, k e.res, e :: t.hist⟩⟩] := by
        rcases hcase with ⟨reply', rows', hop', hs'⟩ | ⟨hother, -⟩
        · obtain ⟨handler, hwrites⟩ := deliver_writes (w.system.clients c) w.system.now reply'
          have hclient : (s'.clients c).writes = (w.system.clients c).writes ++
              [⟨replyData w.system.now reply', handler⟩] := by
            rw [hs', hc, System.setClient_same, hwrites]
          refine ⟨replyData w.system.now reply', ?_⟩
          unfold starts
          dsimp only
          rw [started_eq hclient, hworkers, hp']
          simp [(List.getElem?_eq_some_iff.mp hi).1]
        · exact absurd hop (hother reply rows)
      refine ⟨htakes', log, entries ++ [some ⟨i, t.tag, answer⟩], hlog', ?_, ?_⟩
      · rw [hstarts]
        refine List.rel_append h.told (.cons ⟨_, rfl, rfl, e, rfl, reply, rows, hop, hconveyed⟩ .nil)
      · rw [List.filterMap_append, hworkers]
        exact hin
    · have hsame : (s'.clients c) = (w.system.clients c) := by
        rcases hcase with ⟨reply, rows, hop, rfl⟩ | ⟨-, rfl⟩
        · have hne : c ≠ t.tag.client := fun hc => hreply ⟨hc.symm, reply, rows, hop⟩
          exact System.setClient_other _ _ hne
        · rfl
      have hstarts : starts c w.system (.work i) s' = [] := starts_eq_nil (by rw [hsame])
      have hin : Accounted workers c (log ++ ext) (entries.filterMap id) := by
        by_cases hc : t.tag.client = c
        · refine h.accounted.quiet hlog hsafe' hw (hidle hc) hc hone
            (fun reply rows hop => hreply ⟨hc, reply, rows, hop⟩) hlog' ?_
          exact hext.imp_right fun ⟨r, hr, hnone, _⟩ => ⟨r, hr, hnone⟩
        · refine h.accounted.other hlog hw hc fun en hen => ?_
          rcases hext with rfl | ⟨r, rfl, -⟩
          · cases hen
          · rw [List.mem_singleton.mp hen]
      refine ⟨htakes', log ++ ext, entries, hlog', ?_, ?_⟩
      · rw [hstarts, List.append_nil]
        exact h.told
      · rw [hworkers]
        exact hin
  · have hnone := thread_of_starts c s' (fun i ha => hwork ⟨i, ha⟩) w.system
    rcases workers_cases hs with hsame | ⟨task, -, hspawn⟩ | ⟨i, t, e, ha, -⟩ | ⟨now, hclock⟩
    · rw [hsame]
      exact ⟨htakes, log, _, hlog, h.handled hnone requests (hsame ▸ h.accounted)⟩
    · rw [hspawn]
      refine ⟨htakes.spawn ⟨none, Took.start⟩ fun s _ => processTask_takes env task s, log, _,
        hlog.spawn task _, h.handled hnone requests ?_⟩
      rw [hspawn]
      exact h.accounted.spawn task _
    · exact absurd ⟨i, ha⟩ hwork
    · rw [hclock]
      refine ⟨htakes.extend @ext_trans (.refl _) htakes.inv, log, _, hlog.extend rfl,
        h.handled hnone requests ?_⟩
      rw [hclock]
      exact ⟨h.accounted.order, h.accounted.answered⟩

/-- In every run in which the connection is not asked for `/v1/idle`. -/
theorem transcribed_run (h : Run (Watched.step env c) (NoIdle c) {} w) :
    w.system.workers.Takes env ∧ ∃ log entries, Log env w.system.workers log ∧
      Transcribed c w log entries := by
  induction h with
  | refl =>
    have hinit : Workers.init.Takes env :=
      ⟨Storage.integrity_empty, by simp [Workers.init], by simp [Workers.init]⟩
    exact ⟨hinit, [], [], log_init env, .nil, ⟨none, rfl, by simp⟩, by simp⟩
  | @tail w w' a hrun hok hs ih =>
    obtain ⟨htakes, log, entries, hlog, htold⟩ := ih
    obtain ⟨s', hs', rfl⟩ := Option.map_eq_some_iff.mp hs
    exact transcribed_step (watched_run hrun) (paired_of_run hrun).fresh htakes hlog htold _ hs'

end

/-- A request of a connection and the data of its response, with the entry of the log
that the response tells unless the request was refused. -/
structure Exchange where
  asked : Asked
  data : Bytes
  entry : Option LogEntry

/-- The response is the answer to this very command, or the refusal of the request. -/
def Exchange.Faithful (env : Extern) (c : Nat) (x : Exchange) : Prop :=
  match x.entry with
  | none => refusal env x.asked.req = some x.data
  | some en => en.command.client = c ∧ en.command.cmd = x.asked.command ∧
      en.command.request = x.asked.params ∧
      ∃ reply now, en.answer.ConveyedBy reply ∧ x.data = replyData now reply

theorem faithful_exchange {env : Extern} {c : Nat} {asked : Asked} {r : Response}
    {entry : Option LogEntry} (hans : Answers env c asked r) (htold : Told r entry) :
    Exchange.Faithful env c ⟨asked, r.data, entry⟩ := by
  cases entry with
  | none =>
    have hnone : r.thread = none := htold
    rw [Answers, hnone] at hans
    exact hans
  | some en =>
    obtain ⟨t, hthread, htag, e, he, reply, rows, hop, hconveyed⟩ := htold
    rw [Answers, hthread] at hans
    obtain ⟨e', he', reply', rows', hop', hdata⟩ := hans.reply
    obtain rfl : e = e' := Option.some.inj (he.symm.trans he')
    obtain ⟨rfl, -⟩ := Op.reply.inj (hop.symm.trans hop')
    exact ⟨htag ▸ hans.client, htag ▸ hans.command, htag ▸ hans.params, reply, e.pre.clock, hconveyed,
      hdata⟩

/-- Two relations along a list of responses make one list of exchanges. -/
theorem exchanges_of_forall₂ {env : Extern} {c : Nat} {asked : List Asked}
    {responses : List Response} {entries : List (Option LogEntry)}
    (hans : List.Forall₂ (Answers env c) asked responses)
    (htold : List.Forall₂ Told responses entries) : ∃ exchanges : List Exchange,
      exchanges.map (·.asked) = asked ∧ exchanges.map (·.data) = responses.map (·.data) ∧
        exchanges.map (·.entry) = entries ∧ ∀ x ∈ exchanges, x.Faithful env c := by
  induction hans generalizing entries with
  | nil =>
    cases htold
    exact ⟨[], rfl, rfl, rfl, by simp⟩
  | @cons a r asked responses ha _ ih =>
    cases htold with
    | @cons _ entry _ entries ht htold =>
      obtain ⟨exchanges, rfl, hdata, rfl, hall⟩ := ih htold
      refine ⟨⟨a, r.data, entry⟩ :: exchanges, rfl, by simp [hdata], rfl, ?_⟩
      intro x hx
      rcases List.mem_cons.mp hx with rfl | hx
      · exact faithful_exchange ha ht
      · exact hall x hx

/-- What any connection without idle polling observes is what the room does, one command
at a time: its responses are the answers of the room to its own requests, in the order of
the requests, and at most the last of its commands in the log is still to be answered. -/
theorem connections_linearizable (env : Extern) (c : Nat) (w : Watched)
    (h : Run (Watched.step env c) (NoIdle c) {} w) :
    ∃ (log : List LogEntry) (exchanges : List Exchange),
      Linearization env w.system.workers log ∧
      exchanges.map (·.asked) = w.requests.take w.responses.length ∧
      exchanges.map (·.data) = w.responses.map (·.data) ∧
      (∀ x ∈ exchanges, x.Faithful env c) ∧
      ∃ pending : Option LogEntry,
        ofClient c log = exchanges.filterMap (·.entry) ++ pending.toList := by
  obtain ⟨htakes, log, entries, hlog, htold⟩ := transcribed_run h
  obtain ⟨exchanges, hasked, hdata, hentries, hall⟩ :=
    exchanges_of_forall₂ (paired_of_run h).inStep.each htold.told
  obtain ⟨pending, horder, -⟩ := htold.accounted.order
  refine ⟨log, exchanges, linearization_of_log htakes hlog, hasked, hdata, hall, pending, ?_⟩
  rw [horder, ← hentries, List.filterMap_map]
  rfl

/-- Amy registers over connection 0, and asks for a resource that does not exist. -/
theorem connections_linearizable_amy : ∃ (w : Watched) (log : List LogEntry)
    (exchanges : List Exchange), Run (Watched.step Sample.noteExt 0) (NoIdle 0) {} w ∧
      w.responses.length = 2 ∧ Linearization Sample.noteExt w.system.workers log ∧
      exchanges.map (·.data) = w.responses.map (·.data) ∧
      (∀ x ∈ exchanges, Exchange.Faithful Sample.noteExt 0 x) ∧
      ∃ pending : Option LogEntry,
        ofClient 0 log = exchanges.filterMap (·.entry) ++ pending.toList := by
  have hlist : (runList (Watched.step Sample.noteExt 0) (NoIdle 0) {} (Sample.amyRegisters ++
      [.readDone 0 (some (Sample.request "/v1/nothing" []))])).any
      (fun w => w.responses.length = 2) = true := by decide +kernel
  obtain ⟨w, hrun, htwo⟩ := exists_run hlist
  obtain ⟨log, exchanges, hlin, -, hdata, hall, hpending⟩ :=
    connections_linearizable Sample.noteExt 0 w hrun
  exact ⟨w, log, exchanges, hrun, by simpa using htwo, hlin, hdata, hall, hpending⟩

end O2Chat.Server
