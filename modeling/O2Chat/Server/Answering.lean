import O2Chat.Server.Connection

/-!
# One response for each request

A request other than `/v1/idle` is answered by the request handler itself or by the
one worker that takes its task. Two kinds of requests are not: a body that is a JSON
text but no object trips an assertion, and `/v1/group/history` leads to a command
for which `processQueue` has no branch.
-/
namespace O2Chat.Server

open O2Chat.Common O2Chat.Db O2Chat.Lib.Interleaving O2Chat.Lib.Runs

/-- One more write, after which the connection reads again, whether it succeeds or not. -/
def WritesResponse (c c' : ApiClient) : Prop :=
  ∃ data, c'.writes = c.writes ++ [⟨data, .responseWrote⟩] ∧
    ∀ error, (c'.writeHandler error .responseWrote).reads = c'.reads + 1

/-- An infinite run of the workers in which thread `i` performs operations until it
is finished. -/
structure FairRun (env : Extern) (p : Workers) (i : Nat) where
  state : Nat → Workers
  action : Nat → WorkerAction
  start : state 0 = p
  steps : ∀ n, (state n).step env (action n) = some (state (n + 1))
  fair : ∀ n t, (state n).threads[i]? = some t → t.prog.finished = false →
    ∃ m, n ≤ m ∧ action m = .work i

/-- Thread `i` replies at most once at all times, exactly once when it is finished,
and is finished in the end; a reply is a response that lets the connection read again. -/
structure RepliesOnce (env : Extern) (p : Workers) (i : Nat) : Prop where
  once : ∀ p', Run (Workers.step env) anyStep p p' → ∃ t, p'.threads[i]? = some t ∧
    (replies t.hist).length ≤ 1 ∧ (t.prog.finished = true → (replies t.hist).length = 1) ∧
    ∀ r ∈ replies t.hist, ∀ (c : ApiClient) now, WritesResponse c (c.deliver now r)
  eventually : ∀ run : FairRun env p i,
    ∃ n t, (run.state n).threads[i]? = some t ∧ t.prog.finished = true

/-- The request handler writes the response, or it puts one task, and the worker that
takes this task replies once, whenever it takes it and whatever the others do. -/
def AnsweredOnce (env : Extern) (id now : Nat) (c : ApiClient) (req : HttpReply) : Prop :=
  ∃ c' tasks, c.requestFromClientReadHandler env id now req = some (c', tasks) ∧
    ((tasks = [] ∧ WritesResponse c c') ∨
      (c'.writes = c.writes ∧ ∃ task, tasks = [task] ∧ task.client = id ∧
        ∀ p, Run (Workers.step env) anyStep Workers.init p →
          RepliesOnce env (p.spawn task (processTask env task)) p.threads.length))

/-- The bodies that are answered: when the content type lets the body be parsed, it is
not a JSON text other than an object, and not an accepted `/v1/group/history`. -/
def Answerable (env : Extern) (c : ApiClient) (req : HttpReply) : Prop :=
  ∀ cmd, ApiClient.route (lowercased req.resource) = some cmd →
    ApiClient.allowedContentType (req.getHeader (bytes "Content-Type")) = true →
    (∀ doc, env.parse (cstr req.body) = some doc → doc.isObject = true) ∧
    (cmd = .chatHistory →
      ∀ params, parseMeta env c.requestDetails.params req.body cmd ≠ some ([], params))

/-! ## A thread in a run -/

section

variable {env : Extern} {p p' : Workers} {i : Nat}

/-- A step leaves a thread alone or is its next operation. -/
theorem thread_step {a : WorkerAction} {t : Thread} (ht : p.threads[i]? = some t)
    (hs : p.step env a = some p') : ∃ t', p'.threads[i]? = some t' ∧ t'.tag = t.tag ∧
      ((a ≠ .work i ∧ t'.prog = t.prog) ∨ (a = .work i ∧ Prog.Next t'.prog t.prog)) := by
  obtain ⟨hlt, -⟩ := List.getElem?_eq_some_iff.mp ht
  cases a with
  | take task =>
    obtain rfl := Option.some.inj hs
    refine ⟨t, ?_, rfl, Or.inl ⟨nofun, rfl⟩⟩
    rw [Pool.spawn, List.getElem?_append_left hlt]
    exact ht
  | work j =>
    obtain ⟨⟨q, u, e⟩, hw, rfl⟩ := Option.map_eq_some_iff.mp hs
    obtain ⟨hj, k, hprog, -, -, rfl⟩ := Pool.work_cases hw
    by_cases hij : j = i
    · subst hij
      obtain rfl : u = t := Option.some.inj (hj.symm.trans ht)
      refine ⟨⟨u.tag, k e.res, e :: u.hist⟩, by simp [hlt], rfl, Or.inr ⟨rfl, ?_⟩⟩
      exact ⟨e.op, k, hprog, e.res, rfl⟩
    · refine ⟨t, ?_, rfl, Or.inl ⟨fun heq => hij (WorkerAction.work.inj heq), rfl⟩⟩
      rw [List.getElem?_set_ne hij]
      exact ht
  | clock now =>
    obtain rfl := Option.some.inj hs
    exact ⟨t, ht, rfl, Or.inl ⟨nofun, rfl⟩⟩

theorem thread_run {t : Thread} (ht : p.threads[i]? = some t)
    (h : Run (Workers.step env) anyStep p p') :
    ∃ t', p'.threads[i]? = some t' ∧ t'.tag = t.tag := by
  refine h.invariant (I := fun q => ∃ t', q.threads[i]? = some t' ∧ t'.tag = t.tag)
    ⟨t, ht, rfl⟩ ?_
  rintro q a q' ⟨u, hu, htag⟩ - hs
  obtain ⟨u', hu', htag', -⟩ := thread_step hu hs
  exact ⟨u', hu', htag'.trans htag⟩

/-- In a fair run every thread finishes. -/
theorem fair_finishes {t : Thread} (ht : p.threads[i]? = some t) (run : FairRun env p i) :
    ∃ n t, (run.state n).threads[i]? = some t ∧ t.prog.finished = true := by
  have halive : ∀ n, ∃ t, (run.state n).threads[i]? = some t := by
    intro n
    induction n with
    | zero => exact ⟨t, by rw [run.start, ht]⟩
    | succ n ih =>
      obtain ⟨u, hu⟩ := ih
      obtain ⟨u', hu', -⟩ := thread_step hu (run.steps n)
      exact ⟨u', hu'⟩
  choose thread hthread using halive
  have hnext : ∀ n, ((run.action n ≠ .work i ∧ (thread (n + 1)).prog = (thread n).prog) ∨
      (run.action n = .work i ∧ Prog.Next (thread (n + 1)).prog (thread n).prog)) := by
    intro n
    obtain ⟨u, hu, -, hcases⟩ := thread_step (hthread n) (run.steps n)
    rw [hthread (n + 1)] at hu
    obtain rfl := Option.some.inj hu
    exact hcases
  obtain ⟨n, hn⟩ := eventually_finished (fun n => (thread n).prog)
    (fun n => (hnext n).imp (·.2) (·.2)) (fun n hun => by
      obtain ⟨m, hnm, hm⟩ := run.fair n (thread n) (hthread n) hun
      rcases hnext m with ⟨hne, -⟩ | ⟨-, hstep⟩
      · exact absurd hm hne
      · exact ⟨m, hnm, hstep⟩)
  exact ⟨n, thread n, hthread n, hn⟩

/-! ## Responses -/

theorem deliver_writesResponse {r : Reply} (hr : r.toIdle = false) (c : ApiClient) (now : Nat) :
    WritesResponse c (c.deliver now r) := by
  cases r with
  | sendMessagesToIdleConn msgs => cases hr
  | _ => exact ⟨_, rfl, fun _ => rfl⟩

theorem sendErrorResponse_writesResponse (c c' : ApiClient) (hsame : c'.writes = c.writes)
    (httpCode : Nat) (apiCode : ApiStatusCode) (desc : Bytes) :
    WritesResponse c (c'.sendErrorResponse httpCode apiCode desc) :=
  ⟨_, by rw [← hsame]; rfl, fun _ => rfl⟩

/-- The task of an answered command is replied to once. -/
theorem repliesOnce_of_answered {task : Task} (hcmd : answered task.cmd = true)
    (hrun : Run (Workers.step env) anyStep Workers.init p) :
    RepliesOnce env (p.spawn task (processTask env task)) p.threads.length := by
  have hstart : (p.spawn task (processTask env task)).threads[p.threads.length]? =
      some ⟨task, processTask env task, []⟩ := by simp [Pool.spawn]
  refine ⟨fun p' hrun' => ?_, fun run => fair_finishes hstart run⟩
  obtain ⟨t, ht, htag⟩ := thread_run hstart hrun'
  have hsafe := workers_safe ((hrun.tail (a := .take task) trivial rfl).trans hrun')
  have hmem := List.mem_of_getElem? ht
  have hgood := hsafe.hist t hmem
  refine ⟨t, ht, hgood.oneReply, fun hfin => hsafe.finished hmem hfin (htag ▸ hcmd), ?_⟩
  intro r hr c now
  refine deliver_writesResponse (hgood.toIdle ?_ r hr) c now
  intro hidle
  have htask : t.tag = task := htag
  rw [htask] at hidle
  rw [hidle] at hcmd
  cases hcmd

/-- Every route but the one to the group history leads to an answered command. -/
theorem answered_of_route {resource : Bytes} {cmd : Cmd}
    (h : ApiClient.route resource = some cmd) (hcmd : cmd ≠ .chatHistory) : answered cmd = true := by
  have hrouted : ∀ cmd ∈ ApiClient.routedCmds, cmd ≠ .chatHistory → answered cmd = true := by decide
  exact hrouted cmd (ApiClient.route_some h).2 hcmd

/-- What the handler does with a routed request of an allowed content type. -/
theorem routed_eq {env : Extern} {id now : Nat} {c : ApiClient} {req : HttpReply} {cmd : Cmd}
    (hidle : lowercased req.resource ≠ bytes "/v1/idle")
    (hroute : ApiClient.route (lowercased req.resource) = some cmd) :
    c.requestFromClientReadHandler env id now req =
      ApiClient.handlerImpl env id ((c.noteRequest req).setCommand cmd) req cmd := by
  unfold ApiClient.requestFromClientReadHandler
  dsimp only
  rw [if_neg hidle, hroute]
  rfl

/-- A task without a branch in `processQueue` is finished at once, without a reply. -/
theorem not_repliesOnce {task : Task} (hcmd : task.cmd = .chatHistory) :
    ¬ RepliesOnce env (p.spawn task (processTask env task)) p.threads.length := by
  intro hreplies
  obtain ⟨t, ht, -, hone, -⟩ := hreplies.once _ .refl
  have hstart : (p.spawn task (processTask env task)).threads[p.threads.length]? =
      some ⟨task, processTask env task, []⟩ := by simp [Pool.spawn]
  rw [hstart] at ht
  obtain rfl := Option.some.inj ht
  have hfin : (processTask env task).finished = true := by
    unfold processTask
    rw [hcmd]
    rfl
  have hlen := hone hfin
  simp [replies] at hlen

theorem answerable_of_answered {id now : Nat} {c : ApiClient} {req : HttpReply}
    (hidle : lowercased req.resource ≠ bytes "/v1/idle") (h : AnsweredOnce env id now c req) :
    Answerable env c req := by
  intro cmd hroute htype
  obtain ⟨c', tasks, hh, hout⟩ := h
  rw [routed_eq hidle hroute] at hh
  have hparams : ((c.noteRequest req).setCommand cmd).requestDetails.params =
      c.requestDetails.params := rfl
  unfold ApiClient.handlerImpl at hh
  rw [if_pos htype, hparams] at hh
  constructor
  · intro doc hdoc
    by_contra hobj
    have hnone := (parseMeta_eq_none_iff env c.requestDetails.params req.body cmd).mpr
      ⟨doc, hdoc, by simpa using hobj⟩
    rw [hnone] at hh
    cases hh
  · intro hcmd params hparse
    rw [hparse] at hh
    simp only [ne_eq, not_true_eq_false, if_false, Option.some.injEq, Prod.mk.injEq] at hh
    obtain ⟨-, rfl⟩ := hh
    rcases hout with ⟨hnil, -⟩ | ⟨-, task, htask, -, hreplies⟩
    · cases hnil
    · have hchat : task.cmd = .chatHistory := by
        rw [← List.singleton_inj.mp htask, hcmd]
        rfl
      exact not_repliesOnce hchat (hreplies _ .refl)

theorem answered_of_answerable {id now : Nat} {c : ApiClient} {req : HttpReply}
    (hidle : lowercased req.resource ≠ bytes "/v1/idle") (h : Answerable env c req) :
    AnsweredOnce env id now c req := by
  cases hroute : ApiClient.route (lowercased req.resource) with
  | none =>
    refine ⟨_, [], ?_, Or.inl ⟨rfl, sendErrorResponse_writesResponse c (c.noteRequest req) rfl
      404 .errNotFound (bytes "bad request")⟩⟩
    unfold ApiClient.requestFromClientReadHandler
    dsimp only
    rw [if_neg hidle, hroute]
  | some cmd =>
    cases hh : c.requestFromClientReadHandler env id now req with
    | none =>
      -- only a failed assertion yields no result
      rw [routed_eq hidle hroute] at hh
      unfold ApiClient.handlerImpl at hh
      split at hh
      · rename_i htype
        split at hh
        · rename_i hnone
          obtain ⟨doc, hdoc, hobj⟩ := (parseMeta_eq_none_iff _ _ _ _).mp hnone
          rw [(h cmd hroute htype).1 doc hdoc] at hobj
          cases hobj
        · dsimp only at hh
          split at hh <;> cases hh
      · cases hh
    | some done =>
      obtain ⟨c', tasks⟩ := done
      refine ⟨c', tasks, hh, ?_⟩
      rw [routed_eq hidle hroute] at hh
      rcases ApiClient.handlerImpl_cases hh with ⟨params, desc, rfl, rfl⟩ |
        ⟨params, task, hparse, htype, rfl, rfl, hcmd, -, hid⟩
      · exact Or.inl ⟨rfl, sendErrorResponse_writesResponse c _ rfl 400 .errBadRequest desc⟩
      · refine Or.inr ⟨rfl, task, rfl, hid, fun p hrun => repliesOnce_of_answered ?_ hrun⟩
        have htask : task.cmd = cmd := hcmd
        rw [htask]
        refine answered_of_route hroute fun hchat => ?_
        exact (h cmd hroute htype).2 hchat params hparse

end

/-- A request that is not for `/v1/idle` is answered exactly once if and only if it is
answerable. -/
theorem answered_once_iff (env : Extern) (id now : Nat) (c : ApiClient) (req : HttpReply)
    (hidle : lowercased req.resource ≠ bytes "/v1/idle") :
    AnsweredOnce env id now c req ↔ Answerable env c req :=
  ⟨answerable_of_answered hidle, answered_of_answerable hidle⟩

namespace Sample

/-- The history of a group, asked for with a correct body. -/
def groupHistory : HttpReply := request "/v1/group/history" (idleBody 1 0)

/-- A user is created with a correct body. -/
def userCreate : HttpReply := request "/v1/user/create" (createBody "amy")

def groupExt : Extern := knowing [(idleBody 1 0, idleJson 1 0), (createBody "amy", createJson "amy")]

theorem userCreate_answerable : Answerable groupExt {} userCreate := by
  intro cmd hroute _
  have hcreate : ApiClient.route (lowercased userCreate.resource) = some .userCreate := by decide
  have hobject : (groupExt.parse (cstr userCreate.body)).all Json.isObject = true := by
    decide +kernel
  constructor
  · intro doc hdoc
    rw [hdoc] at hobject
    exact hobject
  · rintro rfl
    cases hcreate.symm.trans hroute

theorem groupHistory_not_answerable : ¬ Answerable groupExt {} groupHistory := by
  intro h
  have hparse : parseMeta groupExt {} groupHistory.body .chatHistory =
      some ([], { uid := 1, password := bytes "password" }) := by decide +kernel
  exact (h .chatHistory (by decide) (by decide)).2 rfl _ hparse

end Sample

theorem answered_once_iff_two_requests :
    AnsweredOnce Sample.groupExt 0 0 {} Sample.userCreate ∧
      ¬ AnsweredOnce Sample.groupExt 0 0 {} Sample.groupHistory := by
  constructor
  · exact (answered_once_iff Sample.groupExt 0 0 {} Sample.userCreate (by decide)).mpr
      Sample.userCreate_answerable
  · intro hans
    exact Sample.groupHistory_not_answerable
      ((answered_once_iff Sample.groupExt 0 0 {} Sample.groupHistory (by decide)).mp hans)

/-- A correct request for the history of a group is not answered. -/
theorem group_history_unanswered : ¬ ∀ (id now : Nat) (c : ApiClient) (req : HttpReply),
    lowercased req.resource ≠ bytes "/v1/idle" → AnsweredOnce Sample.groupExt id now c req := by
  intro hclaim
  have hidle : lowercased Sample.groupHistory.resource ≠ bytes "/v1/idle" := by decide
  exact Sample.groupHistory_not_answerable
    (answerable_of_answered hidle (hclaim 0 0 {} Sample.groupHistory hidle))

end O2Chat.Server
