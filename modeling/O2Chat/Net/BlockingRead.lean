import O2Chat.Net.SyncConnect

/-!
# The timeout of a blocking read

`BasicTcpClient::read_until` and `read` start a read and a timer and wait until one of the
two handlers posts to an `io_service` of their own. The handlers run through a strand, one
after the other, on the io threads; the caller looks at what they have set once it is woken.
The variables that the handlers set, and that `io_service`, are local to the call.
-/
namespace O2Chat.Net

open O2Chat.Lib.Runs O2Chat.Lib.Potential

/-- How a read has ended: its error code and the number of bytes. -/
abbrev ReadEnd : Type := Option ConnectError × Nat

inductive ReadOutcome
  | timeout
  | failed (ec : ConnectError)
  | done (bytes : Nat)
  deriving DecidableEq, Repr

/-- The thread inside `read_until` or `read`. -/
inductive ReadCaller
  /-- inside `local_io.run_one()` -/
  | waiting
  | awake
  /-- `timer_result` was not set -/
  | inTime
  | left (outcome : ReadOutcome)
  deriving DecidableEq, Repr

/-- `posted` counts the handlers in `local_io`. History variables: `expired` tells that the
timer was not cancelled in time, `ended` how the read ended by itself, and `late` that a handler
has used a variable of the call after its end. -/
structure BlockingRead where
  timer : Operation := .started
  reading : Operation := .started
  transferred : Nat := 0
  timerResult : Option (Option ConnectError) := none
  readResult : Option (Option ConnectError) := none
  bytes : Nat := 0
  posted : Nat := 0
  caller : ReadCaller := .waiting
  expired : Bool := false
  ended : Option ReadEnd := none
  late : Bool := false
  deriving DecidableEq, Repr

namespace BlockingRead

def hasLeft : ReadCaller → Bool
  | .left _ => true
  | _ => false

def post (r : BlockingRead) : BlockingRead :=
  { r with posted := r.posted + 1, late := r.late || hasLeft r.caller }

def aborted : Option ConnectError := some .operationAborted

def readCompleted (r : BlockingRead) (error : Option ConnectError) : BlockingRead :=
  if error = aborted then r
  else { r with
    timer := r.timer.cancel
    readResult := some error
    bytes := if error = none then r.transferred else r.bytes }.post

def timeoutExpired (r : BlockingRead) (error : Option ConnectError) : BlockingRead :=
  if error = aborted then r
  else { r with reading := r.reading.cancel, timerResult := some error }.post

/-- The timer is destroyed at the end of the call. -/
def leave (r : BlockingRead) (outcome : ReadOutcome) : BlockingRead :=
  { r with caller := .left outcome, timer := r.timer.cancel }

def lookRead (r : BlockingRead) : BlockingRead :=
  match r.readResult with
  | some (some ec) => r.leave (.failed ec)
  | _ => r.leave (.done r.bytes)

inductive Action
  | timerExpire
  /-- the read ends by itself, with this error and so many bytes -/
  | readDone (ec : Option ConnectError) (transferred : Nat)
  | timerRun
  | readRun
  | wake
  | lookTimer
  | lookRead
  deriving DecidableEq, Repr

def step (r : BlockingRead) : Action → Option BlockingRead
  | .timerExpire =>
    if r.timer = .started then some { r with timer := .complete none, expired := true } else none
  | .readDone ec transferred =>
    if r.reading = .started then
      some { r with reading := .complete ec, transferred, ended := some (ec, transferred) }
    else none
  | .timerRun =>
    match r.timer with
    | .complete ec => some ({ r with timer := .idle }.timeoutExpired ec)
    | _ => none
  | .readRun =>
    match r.reading with
    | .complete ec => some ({ r with reading := .idle }.readCompleted ec)
    | _ => none
  | .wake =>
    if r.caller = .waiting ∧ r.posted ≠ 0 then
      some { r with caller := .awake, posted := r.posted - 1 }
    else none
  | .lookTimer =>
    if r.caller = .awake then
      some (if r.timerResult.isSome = true then r.leave .timeout else { r with caller := .inTime })
    else none
  | .lookRead => if r.caller = .inTime then some r.lookRead else none

/-- Everything a step does. -/
theorem step_cases {r r' : BlockingRead} {a : Action} (hs : r.step a = some r') :
    match a with
    | .timerExpire => r.timer = .started ∧ r' = { r with timer := .complete none, expired := true }
    | .readDone ec transferred => r.reading = .started ∧
        r' = { r with reading := .complete ec, transferred, ended := some (ec, transferred) }
    | .timerRun => ∃ ec, r.timer = .complete ec ∧ r' = { r with timer := .idle }.timeoutExpired ec
    | .readRun => ∃ ec, r.reading = .complete ec ∧ r' = { r with reading := .idle }.readCompleted ec
    | .wake => (r.caller = .waiting ∧ r.posted ≠ 0) ∧
        r' = { r with caller := .awake, posted := r.posted - 1 }
    | .lookTimer => r.caller = .awake ∧
        r' = if r.timerResult.isSome = true then r.leave .timeout else { r with caller := .inTime }
    | .lookRead => r.caller = .inTime ∧ r' = r.lookRead := by
  cases a with
  | timerExpire | readDone | wake | lookTimer | lookRead =>
    obtain ⟨hguard, rfl⟩ := Option.ite_some_none_eq_some.mp hs
    exact ⟨hguard, rfl⟩
  | timerRun | readRun =>
    unfold step at hs
    dsimp only at hs
    split at hs
    · rename_i ec hover
      exact ⟨ec, hover, (Option.some.inj hs).symm⟩
    · cases hs

/-! ## The invariant -/

/-- What the timer and its result tell. -/
structure TimerOk (r : BlockingRead) : Prop where
  started : r.timer = .started → r.timerResult = none
  complete : ∀ ec, r.timer = .complete ec → r.timerResult = none ∧
    (ec = aborted ∨ r.expired = true)
  result : ∀ ec, r.timerResult = some ec → r.expired = true
  /-- only the other handler and the end of the call cancel the timer -/
  pending : r.timer = .idle ∨ r.timer = .complete aborted →
    r.timerResult ≠ none ∨ r.readResult ≠ none ∨ hasLeft r.caller = true

structure ReadOk (r : BlockingRead) : Prop where
  started : r.reading = .started → r.readResult = none ∧ r.ended = none
  complete : ∀ ec, r.reading = .complete ec → r.readResult = none ∧
    (ec = aborted ∨ r.ended = some (ec, r.transferred))
  result : ∀ ec, r.readResult = some ec → ec ≠ aborted ∧ r.ended = some (ec, r.transferred) ∧
    (ec = none → r.bytes = r.transferred)

/-- What the caller knows. -/
structure CallerOk (r : BlockingRead) : Prop where
  waiting : r.caller = .waiting → r.posted = 0 → r.timerResult = none ∧ r.readResult = none
  woken : r.caller ≠ .waiting ∨ r.posted ≠ 0 → r.timerResult ≠ none ∨ r.readResult ≠ none
  inTime : r.caller = .inTime → r.readResult ≠ none
  timeout : r.caller = .left .timeout → r.timerResult ≠ none
  failed : ∀ ec, r.caller = .left (.failed ec) → r.readResult = some (some ec)
  done : ∀ n, r.caller = .left (.done n) → r.readResult = some none ∧ n = r.transferred
  late : r.late = true → r.expired = true ∧ ∃ ec n, r.ended = some (ec, n) ∧ ec ≠ aborted

structure Ok (r : BlockingRead) : Prop where
  timer : TimerOk r
  read : ReadOk r
  caller : CallerOk r

theorem ok_init : Ok {} := by
  refine ⟨⟨?_, ?_, ?_, ?_⟩, ⟨?_, ?_, ?_⟩, ⟨?_, ?_, ?_, ?_, ?_, ?_, ?_⟩⟩ <;> simp [hasLeft]

variable {r r' : BlockingRead}

theorem Ok.timerExpire (h : Ok r) (htimer : r.timer = .started) :
    Ok { r with timer := .complete none, expired := true } where
  timer := by
    refine ⟨nofun, fun ec _ => ⟨h.timer.started htimer, Or.inr rfl⟩, fun _ _ => rfl, ?_⟩
    simp [aborted]
  read := ⟨h.read.started, h.read.complete, h.read.result⟩
  caller := ⟨h.caller.waiting, h.caller.woken, h.caller.inTime, h.caller.timeout, h.caller.failed,
    h.caller.done, fun hlate => ⟨rfl, (h.caller.late hlate).2⟩⟩

theorem Ok.readDone (h : Ok r) (hreading : r.reading = .started) (ec : Option ConnectError) (n : Nat) :
    Ok { r with reading := .complete ec, transferred := n, ended := some (ec, n) } where
  timer := ⟨h.timer.started, h.timer.complete, h.timer.result, h.timer.pending⟩
  read := by
    have hstarted := h.read.started hreading
    constructor <;> grind
  caller := by
    obtain ⟨hwaiting, hwoken, hinTime, htimeout, hfailed, hdone, hlate⟩ := h.caller
    have hstarted := h.read.started hreading
    constructor <;> grind

/-- The call has ended although the timer's handler has set nothing: the read was over. -/
theorem Ok.ended_of_left (h : Ok r) (hleft : hasLeft r.caller = true) (hnone : r.timerResult = none) :
    ∃ ec n, r.ended = some (ec, n) ∧ ec ≠ aborted := by
  cases hc : r.caller with
  | waiting | awake | inTime =>
    rw [hc] at hleft
    cases hleft
  | left outcome =>
    cases outcome with
    | timeout => exact absurd hnone (h.caller.timeout hc)
    | failed ec =>
      obtain ⟨hne, hended, -⟩ := h.read.result _ (h.caller.failed ec hc)
      exact ⟨_, _, hended, hne⟩
    | done n =>
      obtain ⟨hne, hended, -⟩ := h.read.result _ (h.caller.done n hc).1
      exact ⟨_, _, hended, hne⟩

/-- It has ended although the read's handler has set nothing: the timer had expired. -/
theorem Ok.expired_of_left (h : Ok r) (hleft : hasLeft r.caller = true) (hnone : r.readResult = none) :
    r.expired = true := by
  cases hc : r.caller with
  | waiting | awake | inTime =>
    rw [hc] at hleft
    cases hleft
  | left outcome =>
    cases outcome with
    | timeout =>
      obtain ⟨ec, hec⟩ := Option.ne_none_iff_exists'.mp (h.caller.timeout hc)
      exact h.timer.result ec hec
    | failed ec => exact absurd (hnone.symm.trans (h.caller.failed ec hc)) (by simp)
    | done n => exact absurd (hnone.symm.trans (h.caller.done n hc).1) (by simp)

theorem Ok.timeoutExpired (h : Ok r) {ec : Option ConnectError} (htimer : r.timer = .complete ec) :
    Ok ({ r with timer := .idle }.timeoutExpired ec) := by
  obtain ⟨hnone, hexpired⟩ := h.timer.complete ec htimer
  have hpending := h.timer.pending
  obtain ⟨hstarted, hover, hresult⟩ := h.read
  unfold BlockingRead.timeoutExpired
  split
  · rename_i haborted
    exact ⟨⟨nofun, nofun, h.timer.result, fun _ => hpending (Or.inr (haborted ▸ htimer))⟩,
      ⟨hstarted, hover, hresult⟩, ⟨h.caller.waiting, h.caller.woken, h.caller.inTime, h.caller.timeout,
        h.caller.failed, h.caller.done, h.caller.late⟩⟩
  · rename_i haborted
    have hexpired := hexpired.resolve_left haborted
    refine ⟨⟨nofun, nofun, fun _ _ => hexpired, fun _ => Or.inl (by simp [post])⟩, ?_, ?_⟩
    · constructor <;> grind [post, Operation.cancel, aborted]
    · refine ⟨?_, ?_, h.caller.inTime, by simp [post], h.caller.failed, h.caller.done, fun hlate => ?_⟩
      · simp [post]
      · simp [post]
      · refine ⟨hexpired, ?_⟩
        rcases Bool.or_eq_true_iff.mp hlate with hbefore | hleft
        · exact (h.caller.late hbefore).2
        · exact h.ended_of_left hleft hnone

theorem Ok.readCompleted (h : Ok r) {ec : Option ConnectError} (hreading : r.reading = .complete ec) :
    Ok ({ r with reading := .idle }.readCompleted ec) := by
  obtain ⟨hnone, hended⟩ := h.read.complete ec hreading
  obtain ⟨hstarted, hover, hresult, hpending⟩ := h.timer
  unfold BlockingRead.readCompleted
  split
  · exact ⟨⟨hstarted, hover, hresult, hpending⟩, ⟨nofun, nofun, h.read.result⟩, ⟨h.caller.waiting,
      h.caller.woken, h.caller.inTime, h.caller.timeout, h.caller.failed, h.caller.done, h.caller.late⟩⟩
  · rename_i haborted
    have hended := hended.resolve_left haborted
    refine ⟨?_, ⟨nofun, nofun, ?_⟩, ?_⟩
    · constructor <;> grind [post, Operation.cancel, aborted]
    · rintro ec' heq
      obtain rfl := Option.some.inj heq
      exact ⟨haborted, hended, fun hok => if_pos hok⟩
    · refine ⟨?_, ?_, ?_, h.caller.timeout, fun ec' hc => ?_, fun n hc => ?_, fun hlate => ?_⟩
      · simp [post]
      · simp [post]
      · simp [post]
      · exact absurd (hnone.symm.trans (h.caller.failed ec' hc)) (by simp)
      · exact absurd (hnone.symm.trans (h.caller.done n hc).1) (by simp)
      · refine ⟨?_, ec, r.transferred, hended, haborted⟩
        rcases Bool.or_eq_true_iff.mp hlate with hbefore | hleft
        · exact (h.caller.late hbefore).1
        · exact h.expired_of_left hleft hnone

theorem Ok.leave (h : Ok r) {outcome : ReadOutcome}
    (htimeout : outcome = .timeout → r.timerResult ≠ none)
    (hfailed : ∀ ec, outcome = .failed ec → r.readResult = some (some ec))
    (hdone : ∀ n, outcome = .done n → r.readResult = some none ∧ n = r.transferred) :
    Ok (r.leave outcome) where
  timer := by
    obtain ⟨hstarted, hover, hresult, hpending⟩ := h.timer
    constructor <;> grind [BlockingRead.leave, hasLeft, Operation.cancel, aborted]
  read := ⟨h.read.started, h.read.complete, h.read.result⟩
  caller := by
    refine ⟨fun hc => ?_, fun _ => ?_, fun hc => ?_, fun hc => ?_, fun ec hc => ?_, fun n hc => ?_,
      h.caller.late⟩
    · cases hc
    · cases outcome with
      | timeout => exact Or.inl (htimeout rfl)
      | failed ec => exact Or.inr (by simp [BlockingRead.leave, hfailed ec rfl])
      | done n => exact Or.inr (by simp [BlockingRead.leave, hdone n rfl])
    · cases hc
    · exact htimeout (ReadCaller.left.inj hc)
    · exact hfailed ec (ReadCaller.left.inj hc)
    · exact hdone n (ReadCaller.left.inj hc)

theorem Ok.lookRead (h : Ok r) (hcaller : r.caller = .inTime) : Ok r.lookRead := by
  have hset := h.caller.inTime hcaller
  unfold BlockingRead.lookRead
  split
  · rename_i ec hresult
    refine h.leave nofun (fun ec' heq => ?_) nofun
    rw [hresult, ReadOutcome.failed.inj heq]
  · rename_i hnot
    obtain ⟨result, hresult⟩ := Option.ne_none_iff_exists'.mp hset
    cases result with
    | some ec => exact absurd hresult (hnot ec)
    | none =>
      refine h.leave nofun nofun fun n heq => ⟨hresult, ?_⟩
      rw [← ReadOutcome.done.inj heq]
      exact (h.read.result _ hresult).2.2 rfl

/-- The caller wakes up, or goes on when it has found no timeout. -/
theorem Ok.withCaller (h : Ok r) {caller : ReadCaller} {posted : Nat} (hwaiting : caller ≠ .waiting)
    (hleft : hasLeft caller = false)
    (hset : r.timerResult ≠ none ∨ r.readResult ≠ none)
    (hinTime : caller = .inTime → r.readResult ≠ none) : Ok { r with caller, posted } where
  timer := by
    obtain ⟨hstarted, hover, hresult, hpending⟩ := h.timer
    constructor <;> grind
  read := ⟨h.read.started, h.read.complete, h.read.result⟩
  caller := by
    refine ⟨fun heq => absurd heq hwaiting, fun _ => hset, hinTime, fun heq => ?_, fun ec heq => ?_,
      fun n heq => ?_, h.caller.late⟩ <;>
    · rw [show caller = _ from heq] at hleft
      cases hleft

theorem Ok.step (h : Ok r) {a : Action} (hs : r.step a = some r') : Ok r' := by
  cases a with
  | timerExpire =>
    obtain ⟨htimer, rfl⟩ := step_cases hs
    exact h.timerExpire htimer
  | readDone ec n =>
    obtain ⟨hreading, rfl⟩ := step_cases hs
    exact h.readDone hreading ec n
  | timerRun =>
    obtain ⟨ec, htimer, rfl⟩ := step_cases hs
    exact h.timeoutExpired htimer
  | readRun =>
    obtain ⟨ec, hreading, rfl⟩ := step_cases hs
    exact h.readCompleted hreading
  | wake =>
    obtain ⟨⟨hcaller, hposted⟩, rfl⟩ := step_cases hs
    exact h.withCaller (by decide) rfl (h.caller.woken (Or.inr hposted)) nofun
  | lookTimer =>
    obtain ⟨hcaller, rfl⟩ := step_cases hs
    have hset := h.caller.woken (Or.inl (by rw [hcaller]; decide))
    split
    · rename_i htimer
      exact h.leave (fun _ => Option.isSome_iff_ne_none.mp htimer) nofun nofun
    · rename_i htimer
      have hread := hset.resolve_left fun hne => htimer (Option.isSome_iff_ne_none.mpr hne)
      exact h.withCaller (by decide) rfl hset fun _ => hread
  | lookRead =>
    obtain ⟨hcaller, rfl⟩ := step_cases hs
    exact h.lookRead hcaller

theorem ok_run (h : Run step anyStep {} r) : Ok r :=
  h.invariant ok_init fun _ _ _ hr _ hs => hr.step hs

/-! ## The end of the call -/

def operationWork : Operation → Nat
  | .idle => 0
  | .complete _ => 1
  | .started => 2

def callerWork : ReadCaller → Nat
  | .waiting => 3
  | .awake => 2
  | .inTime => 1
  | .left _ => 0

def work (r : BlockingRead) : Nat :=
  operationWork r.timer + operationWork r.reading + callerWork r.caller

@[simp] theorem operationWork_idle : operationWork .idle = 0 := rfl

@[simp] theorem operationWork_complete (ec : Option ConnectError) : operationWork (.complete ec) = 1 := rfl

theorem operationWork_cancel (op : Operation) : operationWork op.cancel ≤ operationWork op := by
  cases op with
  | started => exact Nat.le_succ _
  | idle | complete => exact Nat.le_refl _

theorem work_leave (r : BlockingRead) (outcome : ReadOutcome) :
    (r.leave outcome).work + callerWork r.caller ≤ r.work := by
  have htimer := operationWork_cancel r.timer
  simp only [work, BlockingRead.leave, callerWork]
  omega

theorem work_step {a : Action} (hs : r.step a = some r') : r'.work + 1 ≤ r.work := by
  cases a with
  | timerExpire =>
    obtain ⟨htimer, rfl⟩ := step_cases hs
    simp only [work, htimer, operationWork]
    omega
  | readDone ec n =>
    obtain ⟨hreading, rfl⟩ := step_cases hs
    simp only [work, hreading, operationWork]
    omega
  | timerRun =>
    obtain ⟨ec, htimer, rfl⟩ := step_cases hs
    have hcancel := operationWork_cancel r.reading
    unfold BlockingRead.timeoutExpired
    split <;> simp only [work, post, htimer, operationWork_idle, operationWork_complete] <;> omega
  | readRun =>
    obtain ⟨ec, hreading, rfl⟩ := step_cases hs
    have hcancel := operationWork_cancel r.timer
    unfold BlockingRead.readCompleted
    split <;> simp only [work, post, hreading, operationWork_idle, operationWork_complete] <;> omega
  | wake =>
    obtain ⟨⟨hcaller, -⟩, rfl⟩ := step_cases hs
    simp only [work, hcaller, callerWork]
    omega
  | lookTimer =>
    obtain ⟨hcaller, rfl⟩ := step_cases hs
    split
    · have := work_leave r .timeout
      simp only [hcaller, callerWork] at this
      omega
    · simp only [work, hcaller, callerWork]
      omega
  | lookRead =>
    obtain ⟨hcaller, rfl⟩ := step_cases hs
    have hleave : ∀ outcome, (r.leave outcome).work + 1 ≤ r.work := by
      intro outcome
      have := work_leave r outcome
      rwa [hcaller] at this
    unfold BlockingRead.lookRead
    split
    · exact hleave _
    · exact hleave _

/-- The caller need not wait for the peer. -/
theorem Ok.progress (h : Ok r) (hleft : ∀ outcome, r.caller ≠ .left outcome) :
    ∃ a, (∀ ec n, a ≠ .readDone ec n) ∧ (r.step a).isSome = true := by
  cases hcaller : r.caller with
  | left outcome => exact absurd hcaller (hleft outcome)
  | awake => exact ⟨.lookTimer, nofun, by simp [BlockingRead.step, hcaller]⟩
  | inTime => exact ⟨.lookRead, nofun, by simp [BlockingRead.step, hcaller]⟩
  | waiting =>
    by_cases hposted : r.posted = 0
    · obtain ⟨htimer, hread⟩ := h.caller.waiting hcaller hposted
      cases ht : r.timer with
      | idle =>
        have hpending := h.timer.pending (Or.inl ht)
        simp [htimer, hread, hcaller, hasLeft] at hpending
      | started => exact ⟨.timerExpire, nofun, by simp [BlockingRead.step, ht]⟩
      | complete ec => exact ⟨.timerRun, nofun, by simp [BlockingRead.step, ht]⟩
    · exact ⟨.wake, nofun, by simp [BlockingRead.step, hcaller, hposted]⟩

/-- A blocking read ends after at most seven steps, and until then there is always one that
does not depend on the peer. -/
theorem blockingRead_ends (as : List Action) (r : BlockingRead)
    (h : runList step anyStep {} as = some r) : as.length ≤ 7 ∧
      ((∀ outcome, r.caller ≠ .left outcome) →
        ∃ a, (∀ ec n, a ≠ .readDone ec n) ∧ (r.step a).isSome = true) := by
  refine ⟨?_, (ok_run (Run.of_runList .refl h)).progress⟩
  have hcost : total (fun _ => 1) as + r.work ≤ work {} + total (fun _ => 0) as :=
    runList_total_le (I := fun _ => True) step (fun _ _ _ _ _ _ => trivial)
      (fun _ _ _ _ _ hs => work_step hs) trivial h
  rw [total_const, total_const] at hcost
  have hinit : work {} = 7 := rfl
  omega

end BlockingRead

namespace Sample

/-- The read ends in time, but the timer expires before its handler has run. -/
def closeCall : List BlockingRead.Action :=
  [.readDone none 4, .timerExpire, .readRun, .wake, .lookTimer, .lookRead, .timerRun]

end Sample

theorem blockingRead_ends_closeCall :
    (runList BlockingRead.step anyStep {} Sample.closeCall).isSome = true ∧
      Sample.closeCall.length ≤ 7 := by
  have hlist : (runList BlockingRead.step anyStep {} Sample.closeCall).isSome = true := by decide
  obtain ⟨r, hr⟩ := Option.isSome_iff_exists.mp hlist
  exact ⟨hlist, (BlockingRead.blockingRead_ends Sample.closeCall r hr).1⟩

end O2Chat.Net
