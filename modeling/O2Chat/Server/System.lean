import O2Chat.Server.ApiClient
import O2Chat.Server.WorkerRuns

/-!
# The server

Connections, the task queue and the workers. Every step is one event: a completed
handshake, read or write, an expired timer, the run of a timer handler, a worker
taking a task or performing one operation, or the clock moving. A failed assertion
ends the run.
-/
namespace O2Chat.Server

open O2Chat.Common O2Chat.Db O2Chat.Lib.Interleaving O2Chat.Lib.Runs

structure System where
  workers : Workers := Workers.init
  queue : List Task := []
  clients : Nat → ApiClient := fun _ => {}

inductive Action
  /-- the handshake of a new connection -/
  | handshake (c : Nat) (error : Bool)
  /-- `asyncResponse` completes; without a request there was an error -/
  | readDone (c : Nat) (req : Option HttpReply)
  /-- the `i`-th outstanding write completes -/
  | writeDone (c i : Nat) (error : Bool)
  /-- the pending wait expires -/
  | timerExpire (c : Nat)
  /-- the handler of an expired wait runs -/
  | timerRun (c : Nat)
  /-- a worker takes the first task of the queue -/
  | getTask
  /-- worker thread `i` performs its next operation -/
  | work (i : Nat)
  | clock (now : Nat)
  deriving DecidableEq

namespace System

def setClient (s : System) (c : Nat) (client : ApiClient) : System :=
  { s with clients := fun d => if d = c then client else s.clients d }

def putTasks (s : System) (tasks : List Task) : System := { s with queue := s.queue ++ tasks }

def now (s : System) : Nat := s.workers.state.clock

/-- `processClientRequest`. -/
def handshake (s : System) (c : Nat) (error : Bool) : Option System :=
  if (s.clients c).connected = true then none
  else
    let client := { s.clients c with connected := true }
    some (s.setClient c (if error = true then client else client.readCmd))

def readDone (env : Extern) (s : System) (c : Nat) (req : Option HttpReply) : Option System :=
  if (s.clients c).reads = 0 then none
  else
    let client := { s.clients c with reads := (s.clients c).reads - 1 }
    match req with
    | none => some (s.setClient c client)
    | some req =>
      (client.requestFromClientReadHandler env c s.now req).map fun done =>
        (s.setClient c done.1).putTasks done.2

def writeDone (s : System) (c i : Nat) (error : Bool) : Option System :=
  match (s.clients c).writes[i]? with
  | none => none
  | some w =>
    let client := { s.clients c with writes := (s.clients c).writes.eraseIdx i }
    some (s.setClient c (client.writeHandler error w.handler))

def timerExpire (s : System) (c : Nat) : Option System :=
  let client := s.clients c
  if client.timerArmed = true then
    some (s.setClient c { client with timerArmed := false, timerExpired := client.timerExpired + 1 })
  else none

def timerRun (s : System) (c : Nat) : Option System :=
  let client := s.clients c
  if client.timerExpired = 0 then none
  else
    let done := { client with
      timerExpired := client.timerExpired - 1 }.timerWaitTaskResultHandler c s.now
    some ((s.setClient c done.1).putTasks [done.2])

def getTask (env : Extern) (s : System) : Option System :=
  match s.queue with
  | [] => none
  | task :: queue => some { s with queue, workers := s.workers.spawn task (processTask env task) }

def work (s : System) (i : Nat) : Option System :=
  match s.workers.work Op.exec i with
  | none => none
  | some (workers, t, e) =>
    let s' := { s with workers }
    match e.op with
    | .reply reply _ =>
      some (s'.setClient t.tag.client ((s.clients t.tag.client).deliver s.now reply))
    | _ => some s'

def step (env : Extern) (s : System) : Action → Option System
  | .handshake c error => s.handshake c error
  | .readDone c req => s.readDone env c req
  | .writeDone c i error => s.writeDone c i error
  | .timerExpire c => s.timerExpire c
  | .timerRun c => s.timerRun c
  | .getTask => s.getTask env
  | .work i => s.work i
  | .clock now => some { s with workers := setClock s.workers now }

/-! ## Everything a step does -/

section

variable {env : Extern} {s s' : System} {c i : Nat} {error : Bool}

@[simp] theorem setClient_same (s : System) (c : Nat) (client : ApiClient) :
    (s.setClient c client).clients c = client := by simp [setClient]

theorem setClient_other (s : System) {c d : Nat} (client : ApiClient) (h : d ≠ c) :
    (s.setClient c client).clients d = s.clients d := by simp [setClient, h]

@[simp] theorem setClient_workers (s : System) (c : Nat) (client : ApiClient) :
    (s.setClient c client).workers = s.workers := rfl

@[simp] theorem setClient_queue (s : System) (c : Nat) (client : ApiClient) :
    (s.setClient c client).queue = s.queue := rfl

@[simp] theorem putTasks_workers (s : System) (tasks : List Task) :
    (s.putTasks tasks).workers = s.workers := rfl

@[simp] theorem putTasks_clients (s : System) (tasks : List Task) :
    (s.putTasks tasks).clients = s.clients := rfl

@[simp] theorem putTasks_queue (s : System) (tasks : List Task) :
    (s.putTasks tasks).queue = s.queue ++ tasks := rfl

theorem handshake_cases (h : s.handshake c error = some s') : (s.clients c).connected = false ∧
    ∃ reads ≤ 1, s' = s.setClient c { s.clients c with
      connected := true, reads := (s.clients c).reads + reads } := by
  unfold handshake at h
  split at h
  · cases h
  rename_i hnew
  refine ⟨by simpa using hnew, ?_⟩
  obtain rfl := Option.some.inj h
  split
  · exact ⟨0, Nat.zero_le _, rfl⟩
  · exact ⟨1, Nat.le_refl _, rfl⟩

theorem readDone_cases {req : Option HttpReply} (h : s.readDone env c req = some s') :
    (s.clients c).reads ≠ 0 ∧
    ((req = none ∧ s' = s.setClient c { s.clients c with reads := (s.clients c).reads - 1 }) ∨
      ∃ r client tasks, req = some r ∧ ApiClient.requestFromClientReadHandler env c s.now
          { s.clients c with reads := (s.clients c).reads - 1 } r = some (client, tasks) ∧
        s' = (s.setClient c client).putTasks tasks) := by
  unfold readDone at h
  split at h
  · cases h
  rename_i hreads
  refine ⟨hreads, ?_⟩
  cases req with
  | none =>
    obtain rfl := Option.some.inj h
    exact Or.inl ⟨rfl, rfl⟩
  | some r =>
    obtain ⟨⟨client, tasks⟩, hh, rfl⟩ := Option.map_eq_some_iff.mp h
    exact Or.inr ⟨r, client, tasks, rfl, hh, rfl⟩

theorem reads_of_readDone {req : Option HttpReply} (h : s.step env (.readDone c req) = some s') :
    (s.clients c).reads ≠ 0 := (readDone_cases h).1

theorem writeDone_cases (h : s.writeDone c i error = some s') : ∃ w,
    (s.clients c).writes[i]? = some w ∧ s' = s.setClient c (ApiClient.writeHandler
      { s.clients c with writes := (s.clients c).writes.eraseIdx i } error w.handler) := by
  unfold writeDone at h
  split at h
  · cases h
  · rename_i w hw
    obtain rfl := Option.some.inj h
    exact ⟨w, hw, rfl⟩

theorem timerExpire_cases (h : s.timerExpire c = some s') : (s.clients c).timerArmed = true ∧
    s' = s.setClient c { s.clients c with
      timerArmed := false, timerExpired := (s.clients c).timerExpired + 1 } := by
  unfold timerExpire at h
  dsimp only at h
  split at h
  · rename_i harmed
    obtain rfl := Option.some.inj h
    exact ⟨harmed, rfl⟩
  · cases h

theorem timerRun_cases (h : s.timerRun c = some s') : (s.clients c).timerExpired ≠ 0 ∧
    ∃ client task, ApiClient.timerWaitTaskResultHandler c s.now { s.clients c with
        timerExpired := (s.clients c).timerExpired - 1 } = (client, task) ∧
      s' = (s.setClient c client).putTasks [task] := by
  unfold timerRun at h
  dsimp only at h
  split at h
  · cases h
  · rename_i hexp
    generalize hdone : ApiClient.timerWaitTaskResultHandler c s.now _ = done at h
    obtain ⟨client, task⟩ := done
    obtain rfl := Option.some.inj h
    exact ⟨hexp, client, task, rfl, rfl⟩

theorem getTask_cases (h : s.getTask env = some s') : ∃ task queue, s.queue = task :: queue ∧
    s' = { s with queue, workers := s.workers.spawn task (processTask env task) } := by
  unfold getTask at h
  split at h
  · cases h
  · rename_i task queue hq
    obtain rfl := Option.some.inj h
    exact ⟨task, queue, hq, rfl⟩

theorem work_cases (h : s.work i = some s') : ∃ workers t e,
    s.workers.work Op.exec i = some (workers, t, e) ∧
    ((∃ reply rows, e.op = .reply reply rows ∧
        s' = { s with workers }.setClient t.tag.client
          ((s.clients t.tag.client).deliver s.now reply)) ∨
      ((∀ reply rows, e.op ≠ .reply reply rows) ∧ s' = { s with workers })) := by
  unfold work at h
  split at h
  · cases h
  rename_i workers t e hw
  refine ⟨workers, t, e, hw, ?_⟩
  dsimp only at h
  split at h
  · rename_i reply rows hop
    obtain rfl := Option.some.inj h
    exact Or.inl ⟨reply, rows, hop, rfl⟩
  · rename_i hop
    obtain rfl := Option.some.inj h
    exact Or.inr ⟨hop, rfl⟩

/-- A step of the server is at most one step of the workers. -/
theorem step_workers {a : Action} (h : s.step env a = some s') :
    s'.workers = s.workers ∨ ∃ b, s.workers.step env b = some s'.workers := by
  cases a with
  | handshake c error =>
    obtain ⟨-, reads, -, rfl⟩ := handshake_cases h
    exact Or.inl rfl
  | readDone c req =>
    obtain ⟨-, ⟨-, rfl⟩ | ⟨r, client, tasks, -, -, rfl⟩⟩ := readDone_cases h
    · exact Or.inl rfl
    · exact Or.inl rfl
  | writeDone c i error =>
    obtain ⟨w, -, rfl⟩ := writeDone_cases h
    exact Or.inl rfl
  | timerExpire c =>
    obtain ⟨-, rfl⟩ := timerExpire_cases h
    exact Or.inl rfl
  | timerRun c =>
    obtain ⟨-, client, task, -, rfl⟩ := timerRun_cases h
    exact Or.inl rfl
  | getTask =>
    obtain ⟨task, queue, -, rfl⟩ := getTask_cases h
    exact Or.inr ⟨.take task, rfl⟩
  | work i =>
    obtain ⟨workers, t, e, hw, ⟨reply, rows, -, rfl⟩ | ⟨-, rfl⟩⟩ := work_cases h
    · exact Or.inr ⟨.work i, by simp [Workers.step, hw]⟩
    · exact Or.inr ⟨.work i, by simp [Workers.step, hw]⟩
  | clock now =>
    obtain rfl := Option.some.inj h
    exact Or.inr ⟨.clock now, rfl⟩

theorem workers_run {ok : System → Action → Prop} (h : Run (step env) ok {} s) :
    Run (Workers.step env) anyStep Workers.init s.workers := by
  refine h.map (f := System.workers) fun s a s' _ hs => ?_
  rcases step_workers hs with hsame | ⟨b, hb⟩
  · rw [hsame]
    exact .refl
  · exact .tail .refl trivial hb

end

end System

end O2Chat.Server
