import O2Chat.Lib.Potential
import O2Chat.Net.Connect

/-!
# `sync_connect`

The caller starts a timer and a `SyncConnector` and then waits on a condition variable. The
handlers of the timer and of the attempts run on the io threads, each under the mutex as a
whole, and so do the two blocks of the caller; these are the steps, in any order. The
connector is a local variable of the first block, which ends before a handler can take the
mutex: every connect handler reaches the context through an object that is gone. It finds it
there as long as the storage has not been used for something else.
-/
namespace O2Chat.Net

open O2Chat.Lib.Runs O2Chat.Lib.Potential

/-- An error code of the network, or one that the connector sets itself. -/
inductive SyncError
  | network (ec : ConnectError)
  | timedOut
  | notFound
  deriving DecidableEq, Repr

/-- An asynchronous wait or connect. -/
inductive Operation
  /-- not started, or its handler has run -/
  | idle
  | started
  /-- over, and the handler is to run -/
  | complete (ec : Option ConnectError)
  deriving DecidableEq, Repr

def Operation.cancel : Operation → Operation
  | .started => .complete (some .operationAborted)
  | op => op

/-- The thread inside `sync_connect`. -/
inductive Caller
  | entering
  /-- about to look at the two flags -/
  | checking
  /-- inside `cv.wait` -/
  | waiting
  | returned
  deriving DecidableEq, Repr

/-- The storage of the local variable `connector`. -/
inductive StackSlot
  | live
  /-- the block has ended, and the bytes are still there -/
  | dead
  | reused
  deriving DecidableEq, Repr

/-- `SyncConnectContext` with its two operations, the caller and its connector. `undefined`: a
handler has taken reused storage for its connector, and nothing is known any more. History
variables: `tried` are the endpoints handed to `async_connect`, `finishes` counts the calls of
`finish_connect`, `lateRuns` the connect handlers that have run on a dead connector, and
`expired` tells that the timer has not been cancelled in time. -/
structure SyncConnect (ε : Type) where
  endpoints : List ε
  nextEndpoint : Nat := 0
  timerFinished : Bool := false
  connectFinished : Bool := false
  connectResult : Option SyncError := none
  timer : Operation := .idle
  socket : Operation := .idle
  caller : Caller := .entering
  connector : StackSlot := .live
  undefined : Bool := false
  tried : List ε := []
  finishes : Nat := 0
  lateRuns : Nat := 0
  expired : Bool := false
  deriving DecidableEq, Repr

namespace SyncConnect

variable {ε : Type}

/-- `cv.notify_all()`. -/
def notifyAll (c : SyncConnect ε) : SyncConnect ε :=
  { c with caller := if c.caller = .waiting then .checking else c.caller }

def finishConnect (c : SyncConnect ε) (ec : Option SyncError) : SyncConnect ε :=
  { c with
    connectResult := ec
    connectFinished := true
    timer := c.timer.cancel
    finishes := c.finishes + 1 }.notifyAll

def startConnect (net : Network) (c : SyncConnect ε) (lastError : Option ConnectError) :
    SyncConnect ε :=
  match c.endpoints[c.nextEndpoint]? with
  | none => c.finishConnect (some (lastError.elim .notFound .network))
  | some endpoint =>
    match net.opened c.nextEndpoint with
    | some openError => c.finishConnect (some (.network openError))
    | none => { c with socket := .started, tried := c.tried ++ [endpoint] }

def asyncConnectHandler (net : Network) (c : SyncConnect ε) : Option ConnectError → SyncConnect ε
  | none => c.finishConnect none
  | some ec =>
    if c.timerFinished = true then c.finishConnect (some .timedOut)
    else startConnect net { c with nextEndpoint := c.nextEndpoint + 1 } (some ec)

/-- A connect handler, which reaches everything through its connector. -/
def connectRun (net : Network) (c : SyncConnect ε) (ec : Option ConnectError) : SyncConnect ε :=
  match c.connector with
  | .live => { c with socket := .idle }.asyncConnectHandler net ec
  | .dead => { c with socket := .idle, lateRuns := c.lateRuns + 1 }.asyncConnectHandler net ec
  | .reused => { c with socket := .idle, undefined := true }

/-- The error code that it is called with is not looked at. -/
def timerCallback (c : SyncConnect ε) : SyncConnect ε :=
  { c with
    timerFinished := true
    socket := if c.connectFinished = true then c.socket else c.socket.cancel }.notifyAll

/-- The first block of the caller, at whose end the connector is destroyed. -/
def enter (net : Network) (c : SyncConnect ε) : SyncConnect ε :=
  { startConnect net { c with timer := .started, caller := .checking } none with
    connector := .dead }

/-- One round of the caller's loop, up to the wait or the return. -/
def check (c : SyncConnect ε) : SyncConnect ε :=
  { c with caller := if c.timerFinished = false ∨ c.connectFinished = false then .waiting
      else .returned }

inductive Action
  | enter
  | check
  /-- `cv.wait` returns although nobody has notified -/
  | wakeup
  | timerExpire
  | timerRun
  /-- the attempt ends as the network has it -/
  | connectDone
  | connectRun
  /-- the storage of the dead connector is used for something else -/
  | reuse
  deriving DecidableEq, Repr

def step (net : Network) (c : SyncConnect ε) : Action → Option (SyncConnect ε)
  | .enter => if c.caller = .entering then some (c.enter net) else none
  | .check => if c.caller = .checking then some c.check else none
  | .wakeup => if c.caller = .waiting then some { c with caller := .checking } else none
  | .timerExpire =>
    if c.timer = .started then some { c with timer := .complete none, expired := true } else none
  | .timerRun =>
    match c.timer with
    | .complete _ => some { c with timer := .idle }.timerCallback
    | _ => none
  | .connectDone =>
    if c.socket = .started then some { c with socket := .complete (net.connected c.nextEndpoint) }
    else none
  | .connectRun =>
    match c.socket with
    | .complete ec => some (c.connectRun net ec)
    | _ => none
  | .reuse => if c.connector = .dead then some { c with connector := .reused } else none

/-- No connect handler runs after the storage of its connector has been reused. -/
def ConnectorKept (c : SyncConnect ε) (a : Action) : Prop :=
  a = .connectRun → c.connector ≠ .reused

instance (c : SyncConnect ε) (a : Action) : Decidable (ConnectorKept c a) :=
  inferInstanceAs (Decidable (_ → _))

/-- Everything a step does. -/
theorem step_cases {net : Network} {c c' : SyncConnect ε} {a : Action}
    (hs : c.step net a = some c') :
    match a with
    | .enter => c.caller = .entering ∧ c' = c.enter net
    | .check => c.caller = .checking ∧ c' = c.check
    | .wakeup => c.caller = .waiting ∧ c' = { c with caller := .checking }
    | .timerExpire => c.timer = .started ∧ c' = { c with timer := .complete none, expired := true }
    | .timerRun => ∃ ec, c.timer = .complete ec ∧ c' = { c with timer := .idle }.timerCallback
    | .connectDone => c.socket = .started ∧
        c' = { c with socket := .complete (net.connected c.nextEndpoint) }
    | .connectRun => ∃ ec, c.socket = .complete ec ∧ c' = c.connectRun net ec
    | .reuse => c.connector = .dead ∧ c' = { c with connector := .reused } := by
  cases a with
  | enter | check | wakeup | timerExpire | connectDone | reuse =>
    obtain ⟨hguard, rfl⟩ := Option.ite_some_none_eq_some.mp hs
    exact ⟨hguard, rfl⟩
  | timerRun | connectRun =>
    unfold step at hs
    dsimp only at hs
    split at hs
    · rename_i ec hover
      exact ⟨ec, hover, (Option.some.inj hs).symm⟩
    · cases hs

/-! ## What should be reported -/

/-- An endpoint that is passed over. -/
def Refused (net : Network) (i : Nat) : Prop := net.opened i = none ∧ net.connected i ≠ none

/-- The result, and the endpoints handed to `async_connect` until then. -/
inductive Outcome (net : Network) (endpoints : List ε) (expired : Bool) :
    List ε → Option SyncError → Prop
  | connected {i : Nat} (hi : i < endpoints.length) (hopen : net.opened i = none)
    (h : net.connected i = none) (hrefused : ∀ j < i, Refused net j) :
    Outcome net endpoints expired (endpoints.take (i + 1)) none
  | timedOut {i : Nat} (hi : i < endpoints.length) (hopen : net.opened i = none)
    (hexpired : expired = true) (hrefused : ∀ j < i, Refused net j) :
    Outcome net endpoints expired (endpoints.take (i + 1)) (some .timedOut)
  | notOpened {i : Nat} {ec : ConnectError} (hi : i < endpoints.length)
    (h : net.opened i = some ec) (hrefused : ∀ j < i, Refused net j) :
    Outcome net endpoints expired (endpoints.take i) (some (.network ec))
  | exhausted {i : Nat} {ec : ConnectError} (hi : i + 1 = endpoints.length)
    (h : net.connected i = some ec) (hrefused : ∀ j < i + 1, Refused net j) :
    Outcome net endpoints expired endpoints (some (.network ec))
  | noEndpoint (h : endpoints = []) : Outcome net endpoints expired [] (some .notFound)

/-! ## The invariant -/

/-- An attempt is on its way, or its handler is to run. -/
structure Trying (net : Network) (c : SyncConnect ε) : Prop where
  inRange : c.nextEndpoint < c.endpoints.length
  opened : net.opened c.nextEndpoint = none
  refused : ∀ j < c.nextEndpoint, Refused net j
  tried : c.tried = c.endpoints.take (c.nextEndpoint + 1)
  finishes : c.finishes = 0
  late : c.lateRuns + 1 = c.tried.length
  pending : (c.socket = .started ∧ c.timerFinished = false) ∨
    c.socket = .complete (net.connected c.nextEndpoint) ∨
    (c.socket = .complete (some .operationAborted) ∧ c.timerFinished = true)

structure Finished (net : Network) (c : SyncConnect ε) : Prop where
  idle : c.socket = .idle
  finishes : c.finishes = 1
  late : c.lateRuns = c.tried.length
  outcome : Outcome net c.endpoints c.expired c.tried c.connectResult

/-- After the first block of the caller. -/
structure Started (net : Network) (c : SyncConnect ε) : Prop where
  timer : c.timer = .idle ↔ c.timerFinished = true
  /-- nobody but `finish_connect` cancels the timer -/
  expired : c.connectFinished = false → c.timer ≠ .started → c.expired = true
  trying : c.connectFinished = false → Trying net c
  finished : c.connectFinished = true → Finished net c ∧ c.timer ≠ .started
  entered : c.caller ≠ .entering
  waiting : c.caller = .waiting → c.timerFinished = false ∨ c.connectFinished = false
  returned : c.caller = .returned → c.timerFinished = true ∧ c.connectFinished = true

/-- What holds as long as the connector is found where it was. -/
def Inv (net : Network) (endpoints : List ε) (c : SyncConnect ε) : Prop :=
  c = { endpoints } ∨ (c.endpoints = endpoints ∧ Started net c ∧ c.connector ≠ .live)

variable {net : Network} {endpoints : List ε} {c c' : SyncConnect ε}

@[simp] theorem notifyAll_caller_ne (c : SyncConnect ε) : c.notifyAll.caller ≠ .waiting := by
  unfold notifyAll
  dsimp only
  split
  · decide
  · assumption

theorem notifyAll_caller_eq {caller : Caller} (h : c.notifyAll.caller = caller)
    (hne : caller ≠ .checking) : c.caller = caller := by
  unfold notifyAll at h
  dsimp only at h
  split at h
  · exact absurd h.symm hne
  · exact h

theorem cancel_eq_idle {op : Operation} : op.cancel = .idle ↔ op = .idle := by
  cases op <;> simp [Operation.cancel]

theorem cancel_ne_started (op : Operation) : op.cancel ≠ .started := by
  cases op <;> simp [Operation.cancel]

/-- What `finish_connect` needs: nothing else is going on. -/
structure Unfinished (c : SyncConnect ε) : Prop where
  unfinished : c.connectFinished = false
  idle : c.socket = .idle
  finishes : c.finishes = 0
  late : c.lateRuns = c.tried.length
  timer : c.timer = .idle ↔ c.timerFinished = true
  expired : c.timer ≠ .started → c.expired = true
  entered : c.caller ≠ .entering
  returned : c.caller ≠ .returned

theorem Unfinished.finishConnect (h : Unfinished c) {ec : Option SyncError}
    (hout : Outcome net c.endpoints c.expired c.tried ec) : Started net (c.finishConnect ec) where
  timer := cancel_eq_idle.trans h.timer
  expired := fun hfalse => absurd hfalse (by simp [SyncConnect.finishConnect, notifyAll])
  trying := fun hfalse => absurd hfalse (by simp [SyncConnect.finishConnect, notifyAll])
  finished := fun _ => by
    refine ⟨⟨h.idle, ?_, h.late, hout⟩, cancel_ne_started _⟩
    show c.finishes + 1 = 1
    rw [h.finishes]
  entered := fun heq => h.entered (notifyAll_caller_eq heq (by decide))
  waiting := fun heq => absurd heq (notifyAll_caller_ne _)
  returned := fun heq => absurd (notifyAll_caller_eq heq (by decide)) h.returned

/-- The next endpoint is to be tried; `lastError` is the error of the one before it. -/
structure Ready (net : Network) (c : SyncConnect ε) (lastError : Option ConnectError) : Prop
    extends Unfinished c where
  inTime : c.timerFinished = false
  refused : ∀ j < c.nextEndpoint, Refused net j
  tried : c.tried = c.endpoints.take c.nextEndpoint
  inRange : c.nextEndpoint ≤ c.endpoints.length
  last : (c.nextEndpoint = 0 ∧ lastError = none) ∨
    ∃ i, c.nextEndpoint = i + 1 ∧ lastError = net.connected i

/-- No endpoint is left. -/
theorem Ready.exhausted {lastError : Option ConnectError} (h : Ready net c lastError)
    (hend : c.nextEndpoint = c.endpoints.length) :
    Outcome net c.endpoints c.expired c.tried (some (lastError.elim .notFound .network)) := by
  have htried : c.tried = c.endpoints := by
    rw [h.tried, hend, List.take_length]
  rw [htried]
  rcases h.last with ⟨hzero, rfl⟩ | ⟨i, hi, rfl⟩
  · have hnil : c.endpoints = [] := List.length_eq_zero_iff.mp (hend.symm.trans hzero)
    rw [hnil]
    exact .noEndpoint rfl
  · cases hc : net.connected i with
    | none => exact absurd hc (h.refused i (by omega)).2
    | some ec =>
      exact .exhausted (hi.symm.trans hend) hc fun j hj => h.refused j (by omega)

theorem Ready.startConnect {lastError : Option ConnectError} (h : Ready net c lastError) :
    Started net (c.startConnect net lastError) := by
  unfold SyncConnect.startConnect
  cases hat : c.endpoints[c.nextEndpoint]? with
  | none =>
    have hend : c.nextEndpoint = c.endpoints.length := by
      have := List.getElem?_eq_none_iff.mp hat
      have := h.inRange
      omega
    exact h.toUnfinished.finishConnect (h.exhausted hend)
  | some endpoint =>
    have hlt : c.nextEndpoint < c.endpoints.length := (List.getElem?_eq_some_iff.mp hat).1
    cases hopen : net.opened c.nextEndpoint with
    | some openError =>
      refine h.toUnfinished.finishConnect ?_
      rw [h.tried]
      exact .notOpened hlt hopen h.refused
    | none =>
      refine ⟨h.timer, fun _ => h.expired, fun _ => ?_, ?_, h.entered, ?_, ?_⟩
      · refine ⟨hlt, hopen, h.refused, ?_, h.finishes, ?_, Or.inl ⟨rfl, h.inTime⟩⟩
        · show c.tried ++ [endpoint] = c.endpoints.take (c.nextEndpoint + 1)
          rw [h.tried, List.take_add_one, hat]
          rfl
        · show c.lateRuns + 1 = (c.tried ++ [endpoint]).length
          rw [h.late, List.length_append, List.length_singleton]
      · exact fun htrue => absurd (h.unfinished.symm.trans htrue) (by decide)
      · exact fun _ => Or.inl h.inTime
      · exact fun heq => absurd heq h.returned

theorem Started.unfinished (h : Started net c) {ec : Option ConnectError}
    (hsocket : c.socket = .complete ec) : c.connectFinished = false := by
  by_contra htrue
  have := (h.finished (by simpa using htrue)).1.idle
  rw [hsocket] at this
  cases this

/-- The attempt is over and its handler runs. -/
theorem Started.asyncConnectHandler (h : Started net c) {ec : Option ConnectError}
    (hsocket : c.socket = .complete ec) : Started net
      ({ c with socket := .idle, lateRuns := c.lateRuns + 1 }.asyncConnectHandler net ec) := by
  have hun := h.unfinished hsocket
  have htrying := h.trying hun
  have hready : Unfinished { c with socket := .idle, lateRuns := c.lateRuns + 1 } :=
    ⟨hun, rfl, htrying.finishes, htrying.late, h.timer, h.expired hun, h.entered,
      fun heq => absurd (hun.symm.trans (h.returned heq).2) (by decide)⟩
  unfold SyncConnect.asyncConnectHandler
  cases ec with
  | none =>
    refine hready.finishConnect ?_
    show Outcome net c.endpoints c.expired c.tried none
    rw [htrying.tried]
    refine .connected htrying.inRange htrying.opened ?_ htrying.refused
    rcases htrying.pending with ⟨hs, -⟩ | hs | ⟨hs, -⟩ <;> rw [hsocket] at hs
    · cases hs
    · exact (Operation.complete.inj hs).symm
    · cases hs
  | some ec =>
    dsimp only
    by_cases hfinished : c.timerFinished = true
    · rw [if_pos hfinished]
      refine hready.finishConnect ?_
      show Outcome net c.endpoints c.expired c.tried (some .timedOut)
      rw [htrying.tried]
      refine .timedOut htrying.inRange htrying.opened ?_ htrying.refused
      exact h.expired hun (by rw [h.timer.mpr hfinished]; decide)
    · rw [if_neg hfinished]
      have hconnected : some ec = net.connected c.nextEndpoint := by
        rcases htrying.pending with ⟨hs, -⟩ | hs | ⟨-, htrue⟩
        · rw [hsocket] at hs
          cases hs
        · rw [hsocket] at hs
          exact Operation.complete.inj hs
        · exact absurd htrue hfinished
      refine Ready.startConnect ⟨⟨hun, rfl, htrying.finishes, htrying.late, h.timer, h.expired hun,
        h.entered, hready.returned⟩, by simpa using hfinished, ?_, htrying.tried, htrying.inRange,
        Or.inr ⟨c.nextEndpoint, rfl, hconnected⟩⟩
      intro j hj
      rcases Nat.lt_succ_iff_lt_or_eq.mp hj with hj | rfl
      · exact htrying.refused j hj
      · exact ⟨htrying.opened, hconnected ▸ Option.some_ne_none ec⟩

/-- The timer's handler runs. -/
theorem Started.timerCallback (h : Started net c) {ec : Option ConnectError}
    (htimer : c.timer = .complete ec) : Started net { c with timer := .idle }.timerCallback where
  timer := iff_of_true rfl rfl
  expired := fun hun _ => h.expired hun (by simp [htimer])
  trying := fun hun => by
    have hun : c.connectFinished = false := hun
    have htrying := h.trying hun
    refine ⟨htrying.inRange, htrying.opened, htrying.refused, htrying.tried, htrying.finishes,
      htrying.late, ?_⟩
    have hcancelled : ({ c with timer := .idle } : SyncConnect ε).timerCallback.socket =
        c.socket.cancel := if_neg (by simp [hun])
    rw [hcancelled]
    rcases htrying.pending with ⟨hs, -⟩ | hs | ⟨hs, -⟩ <;> rw [hs]
    · exact Or.inr (Or.inr ⟨rfl, rfl⟩)
    · exact Or.inr (Or.inl rfl)
    · exact Or.inr (Or.inr ⟨rfl, rfl⟩)
  finished := fun hfin => by
    have hfin : c.connectFinished = true := hfin
    obtain ⟨hidle, hfinishes, hlate, houtcome⟩ := (h.finished hfin).1
    exact ⟨⟨(if_pos hfin).trans hidle, hfinishes, hlate, houtcome⟩,
      by simp [SyncConnect.timerCallback, notifyAll]⟩
  entered := fun heq => h.entered (notifyAll_caller_eq heq (by decide))
  waiting := fun heq => absurd heq (notifyAll_caller_ne _)
  returned := fun heq => ⟨rfl, (h.returned (notifyAll_caller_eq heq (by decide))).2⟩

/-- Only the caller moves. -/
theorem Started.withCaller (h : Started net c) {caller : Caller} (hentered : caller ≠ .entering)
    (hwaiting : caller = .waiting → c.timerFinished = false ∨ c.connectFinished = false)
    (hreturned : caller = .returned → c.timerFinished = true ∧ c.connectFinished = true) :
    Started net { c with caller } where
  timer := h.timer
  expired := h.expired
  trying := fun hun => { h.trying hun with }
  finished := fun hfin => ⟨{ (h.finished hfin).1 with }, (h.finished hfin).2⟩
  entered := hentered
  waiting := hwaiting
  returned := hreturned

/-- No handler is running that would need the connector. -/
theorem Started.withConnector (h : Started net c) (connector : StackSlot) :
    Started net { c with connector } where
  timer := h.timer
  expired := h.expired
  trying := fun hun => { h.trying hun with }
  finished := fun hfin => ⟨{ (h.finished hfin).1 with }, (h.finished hfin).2⟩
  entered := h.entered
  waiting := h.waiting
  returned := h.returned

theorem Started.check (h : Started net c) : Started net c.check := by
  unfold SyncConnect.check
  by_cases hwait : c.timerFinished = false ∨ c.connectFinished = false
  · rw [if_pos hwait]
    exact h.withCaller (by decide) (fun _ => hwait) nofun
  · rw [if_neg hwait]
    exact h.withCaller (by decide) nofun fun _ => by simpa using hwait

theorem Started.timerExpire (h : Started net c) (htimer : c.timer = .started) :
    Started net { c with timer := .complete none, expired := true } where
  timer := by
    refine iff_of_false (by simp) fun hfin => ?_
    have := h.timer.mpr hfin
    rw [htimer] at this
    cases this
  expired := fun _ _ => rfl
  trying := fun hun => { h.trying hun with }
  finished := fun hfin => absurd htimer (h.finished hfin).2
  entered := h.entered
  waiting := h.waiting
  returned := h.returned

theorem Started.connectDone (h : Started net c) (hsocket : c.socket = .started) :
    Started net { c with socket := .complete (net.connected c.nextEndpoint) } where
  timer := h.timer
  expired := h.expired
  trying := fun hun => { h.trying hun with pending := Or.inr (Or.inl rfl) }
  finished := fun hfin => by
    have := (h.finished hfin).1.idle
    rw [hsocket] at this
    cases this
  entered := h.entered
  waiting := h.waiting
  returned := h.returned

theorem connectRun_eq (hgone : c.connector ≠ .live) (hkept : c.connector ≠ .reused)
    (net : Network) (ec : Option ConnectError) : c.connectRun net ec =
      { c with socket := .idle, lateRuns := c.lateRuns + 1 }.asyncConnectHandler net ec := by
  unfold SyncConnect.connectRun
  split
  · contradiction
  · rfl
  · contradiction

theorem Started.step (h : Started net c) (hgone : c.connector ≠ .live) {a : Action}
    (hkept : ConnectorKept c a) (hs : c.step net a = some c') : Started net c' := by
  cases a with
  | enter => exact absurd (step_cases hs).1 h.entered
  | check =>
    obtain ⟨-, rfl⟩ := step_cases hs
    exact h.check
  | wakeup =>
    obtain ⟨-, rfl⟩ := step_cases hs
    exact h.withCaller (by decide) nofun nofun
  | timerExpire =>
    obtain ⟨htimer, rfl⟩ := step_cases hs
    exact h.timerExpire htimer
  | timerRun =>
    obtain ⟨ec, htimer, rfl⟩ := step_cases hs
    exact h.timerCallback htimer
  | connectDone =>
    obtain ⟨hsocket, rfl⟩ := step_cases hs
    exact h.connectDone hsocket
  | connectRun =>
    obtain ⟨ec, hsocket, rfl⟩ := step_cases hs
    rw [connectRun_eq hgone (hkept rfl)]
    exact h.asyncConnectHandler hsocket
  | reuse =>
    obtain ⟨-, rfl⟩ := step_cases hs
    exact h.withConnector .reused

theorem startConnect_endpoints (net : Network) (c : SyncConnect ε) (lastError : Option ConnectError) :
    (c.startConnect net lastError).endpoints = c.endpoints := by
  unfold startConnect
  split
  · rfl
  · split <;> rfl

theorem asyncConnectHandler_endpoints (net : Network) (c : SyncConnect ε) (ec : Option ConnectError) :
    (c.asyncConnectHandler net ec).endpoints = c.endpoints := by
  unfold asyncConnectHandler
  split
  · rfl
  · split
    · rfl
    · exact startConnect_endpoints _ _ _

theorem connectRun_endpoints (net : Network) (c : SyncConnect ε) (ec : Option ConnectError) :
    (c.connectRun net ec).endpoints = c.endpoints := by
  unfold connectRun
  split
  · exact asyncConnectHandler_endpoints _ _ _
  · exact asyncConnectHandler_endpoints _ _ _
  · rfl

theorem step_endpoints {a : Action} (hs : c.step net a = some c') : c'.endpoints = c.endpoints := by
  cases a with
  | enter =>
    obtain ⟨-, rfl⟩ := step_cases hs
    exact startConnect_endpoints _ _ _
  | connectRun =>
    obtain ⟨ec, -, rfl⟩ := step_cases hs
    exact connectRun_endpoints _ _ _
  | timerRun =>
    obtain ⟨ec, -, rfl⟩ := step_cases hs
    rfl
  | check | wakeup | timerExpire | connectDone | reuse =>
    obtain ⟨-, rfl⟩ := step_cases hs
    rfl

theorem startConnect_connector (net : Network) (c : SyncConnect ε) (lastError : Option ConnectError) :
    (c.startConnect net lastError).connector = c.connector := by
  unfold startConnect
  split
  · rfl
  · split <;> rfl

theorem connectRun_connector (net : Network) (c : SyncConnect ε) (ec : Option ConnectError) :
    (c.connectRun net ec).connector = c.connector := by
  have hhandler : ∀ c : SyncConnect ε, (c.asyncConnectHandler net ec).connector = c.connector := by
    intro c
    unfold asyncConnectHandler
    split
    · rfl
    · split
      · rfl
      · exact startConnect_connector _ _ _
  unfold connectRun
  split
  · exact hhandler _
  · exact hhandler _
  · rfl

/-- The connector does not come back. -/
theorem step_connector {a : Action} (hs : c.step net a = some c') (h : c.connector ≠ .live) :
    c'.connector ≠ .live := by
  cases a with
  | enter =>
    obtain ⟨-, rfl⟩ := step_cases hs
    exact nofun
  | connectRun =>
    obtain ⟨ec, -, rfl⟩ := step_cases hs
    rw [connectRun_connector]
    exact h
  | timerRun =>
    obtain ⟨ec, -, rfl⟩ := step_cases hs
    exact h
  | reuse =>
    obtain ⟨-, rfl⟩ := step_cases hs
    exact nofun
  | check | wakeup | timerExpire | connectDone =>
    obtain ⟨-, rfl⟩ := step_cases hs
    exact h

theorem ready_init (net : Network) (endpoints : List ε) :
    Ready net { endpoints, timer := .started, caller := .checking } none := by
  refine ⟨⟨rfl, rfl, rfl, rfl, ?_, ?_, ?_, ?_⟩, rfl, nofun, rfl, Nat.zero_le _, Or.inl ⟨rfl, rfl⟩⟩ <;> simp

theorem Inv.step (h : Inv net endpoints c) {a : Action} (hkept : ConnectorKept c a)
    (hs : c.step net a = some c') : Inv net endpoints c' := by
  refine Or.inr ?_
  rcases h with rfl | ⟨hendpoints, hstarted, hgone⟩
  · refine ⟨step_endpoints hs, ?_⟩
    -- nothing but the first block of the caller can run
    cases a with
    | enter =>
      obtain ⟨-, rfl⟩ := step_cases hs
      exact ⟨(ready_init net endpoints).startConnect.withConnector .dead, nofun⟩
    | timerRun | connectRun =>
      obtain ⟨ec, hover, -⟩ := step_cases hs
      cases hover
    | check | wakeup | timerExpire | connectDone | reuse => cases (step_cases hs).1
  · exact ⟨(step_endpoints hs).trans hendpoints, hstarted.step hgone hkept hs,
      step_connector hs hgone⟩

theorem inv_run (h : Run (step net) ConnectorKept { endpoints } c) : Inv net endpoints c :=
  h.invariant (Or.inl rfl) fun _ _ _ hc hkept hs => hc.step hkept hs

/-! ## No lost wakeup, and an end -/

/-- What the caller does not wait for. -/
def spurious : Action → Nat
  | .wakeup => 1
  | _ => 0

/-- A step of the caller, of a handler or of an operation. -/
def real : Action → Nat
  | .wakeup | .reuse => 0
  | _ => 1

def timerWork : Operation → Nat
  | .idle => 0
  | .started => 3
  | .complete _ => 2

def socketWork (left : Nat) : Operation → Nat
  | .idle => 0
  | .started => 2 * left + 1
  | .complete _ => 2 * left

def callerWork (endpoints : Nat) : Caller → Nat
  | .entering => 2 * endpoints + 6
  | .checking => 1
  | .waiting | .returned => 0

/-- Bounds the steps that are still to come; a handler that notifies pays for the round of
the caller that follows. -/
def work (c : SyncConnect ε) : Nat :=
  callerWork c.endpoints.length c.caller + timerWork c.timer +
    socketWork (c.endpoints.length - c.nextEndpoint) c.socket

theorem timerWork_cancel (op : Operation) : timerWork op.cancel ≤ timerWork op := by
  cases op with
  | started => exact Nat.le_succ _
  | idle | complete => exact Nat.le_refl _

theorem socketWork_cancel (left : Nat) (op : Operation) :
    socketWork left op.cancel ≤ socketWork left op := by
  cases op with
  | started => exact Nat.le_succ _
  | idle | complete => exact Nat.le_refl _

theorem callerWork_notifyAll (n : Nat) (c : SyncConnect ε) :
    callerWork n c.notifyAll.caller ≤ callerWork n c.caller + 1 := by
  unfold notifyAll
  dsimp only
  split
  · exact Nat.le_add_left _ _
  · exact Nat.le_succ _

theorem work_finishConnect (c : SyncConnect ε) (ec : Option SyncError) :
    (c.finishConnect ec).work ≤ c.work + 1 := by
  have hcaller := callerWork_notifyAll c.endpoints.length c
  have htimer := timerWork_cancel c.timer
  show callerWork c.endpoints.length c.notifyAll.caller + timerWork c.timer.cancel +
    socketWork (c.endpoints.length - c.nextEndpoint) c.socket ≤ _
  unfold work
  omega

/-- `startConnect` finishes, or starts an attempt. -/
theorem work_startConnect (net : Network) (lastError : Option ConnectError)
    (hidle : c.socket = .idle) : (c.startConnect net lastError).work ≤
      c.work + 2 * (c.endpoints.length - c.nextEndpoint) + 1 := by
  unfold startConnect
  split
  · exact Nat.le_trans (work_finishConnect _ _) (by omega)
  · split
    · exact Nat.le_trans (work_finishConnect _ _) (by omega)
    · simp only [work, hidle, socketWork]
      omega

theorem work_asyncConnectHandler (net : Network) (ec : Option ConnectError) (hidle : c.socket = .idle)
    (hrange : c.nextEndpoint < c.endpoints.length) : (c.asyncConnectHandler net ec).work + 1 ≤
      c.work + 2 * (c.endpoints.length - c.nextEndpoint) := by
  have hfinish := fun ec => work_finishConnect c ec
  unfold asyncConnectHandler
  split
  · have := hfinish none
    omega
  · split
    · have := hfinish (some .timedOut)
      omega
    · rename_i ec _
      have hnext := work_startConnect net (some ec)
        (c := { c with nextEndpoint := c.nextEndpoint + 1 }) hidle
      have hsame : ({ c with nextEndpoint := c.nextEndpoint + 1 } : SyncConnect ε).work = c.work := by
        simp [work, hidle, socketWork]
      rw [hsame] at hnext
      dsimp only at hnext
      omega

/-- A step does some of the work, or is a wakeup that nobody has asked for. -/
theorem work_step (h : Inv net endpoints c) {a : Action} (hkept : ConnectorKept c a)
    (hs : c.step net a = some c') : c'.work + real a ≤ c.work + spurious a := by
  cases a with
  | enter =>
    obtain ⟨hcaller, rfl⟩ := step_cases hs
    obtain rfl : c = { endpoints } := h.resolve_right fun hstarted => hstarted.2.1.entered hcaller
    have hstart := work_startConnect net none
      (c := { endpoints, timer := .started, caller := .checking }) rfl
    simp only [work, timerWork, socketWork, callerWork, real, spurious] at hstart ⊢
    exact Nat.succ_le_succ (Nat.le_trans hstart (by omega))
  | check =>
    obtain ⟨hcaller, rfl⟩ := step_cases hs
    have hdone : callerWork c.endpoints.length c.check.caller = 0 := by
      unfold check
      dsimp only
      split <;> rfl
    show callerWork c.endpoints.length c.check.caller + timerWork c.timer +
      socketWork (c.endpoints.length - c.nextEndpoint) c.socket + 1 ≤ c.work + 0
    rw [hdone]
    simp only [work, hcaller, callerWork]
    omega
  | wakeup =>
    obtain ⟨hcaller, rfl⟩ := step_cases hs
    simp only [work, hcaller, callerWork, real, spurious]
    omega
  | timerExpire =>
    obtain ⟨htimer, rfl⟩ := step_cases hs
    simp only [work, htimer, timerWork, real, spurious]
    omega
  | timerRun =>
    obtain ⟨ec, htimer, rfl⟩ := step_cases hs
    have hcaller := callerWork_notifyAll c.endpoints.length c
    have hsocket := socketWork_cancel (c.endpoints.length - c.nextEndpoint) c.socket
    show callerWork c.endpoints.length c.notifyAll.caller + 0 +
      socketWork (c.endpoints.length - c.nextEndpoint)
        (if c.connectFinished = true then c.socket else c.socket.cancel) + 1 ≤ c.work + 0
    simp only [work, htimer, timerWork]
    split <;> omega
  | connectDone =>
    obtain ⟨hsocket, rfl⟩ := step_cases hs
    simp only [work, hsocket, socketWork, real, spurious]
    omega
  | connectRun =>
    obtain ⟨ec, hsocket, rfl⟩ := step_cases hs
    obtain ⟨-, hstarted, hgone⟩ := h.resolve_left (by rintro rfl; cases hsocket)
    have hun := hstarted.unfinished hsocket
    have hrun := work_asyncConnectHandler net ec
      (c := { c with socket := .idle, lateRuns := c.lateRuns + 1 }) rfl
      (hstarted.trying hun).inRange
    have hidle : ({ c with socket := .idle, lateRuns := c.lateRuns + 1 } : SyncConnect ε).work +
        2 * (c.endpoints.length - c.nextEndpoint) = c.work := by
      simp [work, hsocket, socketWork]
    rw [connectRun_eq hgone (hkept rfl)]
    show work _ + 1 ≤ c.work + 0
    dsimp only at hrun
    omega
  | reuse =>
    obtain ⟨-, rfl⟩ := step_cases hs
    exact Nat.le_refl _

/-- A caller that sleeps is not alone: an operation is on its way that will wake it. -/
theorem Started.progress (h : Started net c) (hret : c.caller ≠ .returned) :
    ∃ a, real a = 1 ∧ (c.step net a).isSome = true := by
  cases hcaller : c.caller with
  | entering => exact absurd hcaller h.entered
  | returned => exact absurd hcaller hret
  | checking => exact ⟨.check, rfl, by simp [SyncConnect.step, hcaller]⟩
  | waiting =>
    rcases h.waiting hcaller with hun | hun
    · have htimer : c.timer ≠ .idle := fun hidle => absurd (h.timer.mp hidle) (by simp [hun])
      cases ht : c.timer with
      | idle => exact absurd ht htimer
      | started => exact ⟨.timerExpire, rfl, by simp [SyncConnect.step, ht]⟩
      | complete ec => exact ⟨.timerRun, rfl, by simp [SyncConnect.step, ht]⟩
    · rcases (h.trying hun).pending with ⟨hs, -⟩ | hs | ⟨hs, -⟩
      · exact ⟨.connectDone, rfl, by simp [SyncConnect.step, hs]⟩
      · exact ⟨.connectRun, rfl, by simp [SyncConnect.step, hs]⟩
      · exact ⟨.connectRun, rfl, by simp [SyncConnect.step, hs]⟩

/-- Every connect handler runs on a connector that is gone, one for each endpoint tried. If none
finds its storage reused: when `sync_connect` returns, both handlers have run and nothing is left
that could reach its context; the result has been set once, and it is what is to be reported: the
endpoints were tried in their order, and a timeout is reported only when the timer has expired. -/
theorem syncConnect_returns (net : Network) (endpoints : List ε) (c : SyncConnect ε)
    (h : Run (step net) ConnectorKept { endpoints } c) (hret : c.caller = .returned) :
    c.timer = .idle ∧ c.socket = .idle ∧ c.lateRuns = c.tried.length ∧ c.finishes = 1 ∧
      Outcome net endpoints c.expired c.tried c.connectResult := by
  obtain rfl | ⟨rfl, hstarted, -⟩ := inv_run h
  · cases hret
  obtain ⟨htimer, hconnect⟩ := hstarted.returned hret
  obtain ⟨hidle, hfinishes, hlate, houtcome⟩ := (hstarted.finished hconnect).1
  exact ⟨hstarted.timer.mpr htimer, hidle, hlate, hfinishes, houtcome⟩

/-- No wakeup is lost and the waiting ends, if no connect handler finds the storage of its
connector reused: as long as `sync_connect` has not returned, some step of its own can be made,
and of these steps no run has more than a fixed number and one for each spurious wakeup. -/
theorem syncConnect_ends (net : Network) (endpoints : List ε) (as : List Action)
    (c : SyncConnect ε) (h : runList (step net) ConnectorKept { endpoints } as = some c) :
    (c.caller ≠ .returned → ∃ a, real a = 1 ∧ (c.step net a).isSome = true) ∧
      total real as ≤ 2 * endpoints.length + 6 + total spurious as := by
  constructor
  · intro hret
    obtain rfl | ⟨-, hstarted, -⟩ := inv_run (Run.of_runList .refl h)
    · exact ⟨.enter, rfl, rfl⟩
    · exact hstarted.progress hret
  · have hcost : total real as + c.work ≤ work { endpoints } + total spurious as :=
      runList_total_le (I := Inv net endpoints) (step net) (fun _ _ _ hc hkept hs => hc.step hkept hs)
        (fun _ _ _ hc hkept hs => work_step hc hkept hs) (Or.inl rfl) h
    have hinit : work { endpoints } = 2 * endpoints.length + 6 := rfl
    omega

end SyncConnect

namespace Sample

/-- The timer expires while the first of two endpoints does not answer. The storage of the
connector is reused, but too late to be noticed. -/
def slow : List SyncConnect.Action :=
  [.enter, .check, .wakeup, .check, .timerExpire, .timerRun, .check, .connectRun, .reuse, .check]

end Sample

theorem syncConnect_returns_slow : ∃ c : SyncConnect Nat, c.caller = .returned ∧
    c.connectResult = some .timedOut ∧ c.timer = .idle ∧ c.socket = .idle ∧
    c.lateRuns = c.tried.length := by
  have hlist : (runList (SyncConnect.step Sample.secondConnects) SyncConnect.ConnectorKept
      ({ endpoints := [4, 6] } : SyncConnect Nat) Sample.slow).any
      (fun c => c.caller = .returned ∧ c.connectResult = some .timedOut) = true := by decide
  obtain ⟨c, hrun, hc⟩ := exists_run hlist
  obtain ⟨hret, hresult⟩ := of_decide_eq_true hc
  have hdone := SyncConnect.syncConnect_returns Sample.secondConnects [4, 6] c hrun hret
  exact ⟨c, hret, hresult, hdone.1, hdone.2.1, hdone.2.2.1⟩

theorem syncConnect_ends_slow : ∃ c : SyncConnect Nat,
    runList (SyncConnect.step Sample.secondConnects) SyncConnect.ConnectorKept
      { endpoints := [4, 6] } Sample.slow = some c ∧
    total SyncConnect.real Sample.slow ≤ 10 + total SyncConnect.spurious Sample.slow := by
  have hlist : (runList (SyncConnect.step Sample.secondConnects) SyncConnect.ConnectorKept
      ({ endpoints := [4, 6] } : SyncConnect Nat) Sample.slow).isSome = true := by decide
  obtain ⟨c, hc⟩ := Option.isSome_iff_exists.mp hlist
  exact ⟨c, hc, (SyncConnect.syncConnect_ends Sample.secondConnects [4, 6] Sample.slow c hc).2⟩

end O2Chat.Net
