import Mathlib.Data.List.Basic

/-!
# `RangeConnectOp`

The operation of `net/async_connect.hpp` goes over a range of endpoints. It is moved into
each asynchronous attempt and called with the result, so there is either an attempt on its
way, or a posted call of the handler, or nothing any more. The outcomes of opening a socket
and of connecting it are given by the network, attempt by attempt.
-/
namespace O2Chat.Net

/-- An error code; zero, for success, is no error. -/
inductive ConnectError
  | operationAborted
  | other (value : Nat)
  deriving DecidableEq, Repr

/-- The results of the attempts, counted from 0: of `open`, and of `async_connect`. -/
structure Network where
  opened : Nat → Option ConnectError
  connected : Nat → Option ConnectError

/-- What the io thread will call. -/
inductive Awaited
  /-- the operation, with the result of the attempt -/
  | connect
  /-- the handler, with an error of `open` -/
  | posted (ec : ConnectError)
  deriving DecidableEq, Repr

/-- `tried` are the endpoints of the attempts, `calls` what the handler is called with. -/
structure RangeConnectOp (ε : Type) where
  endpoints : List ε
  index : Nat := 0
  awaited : Option Awaited := none
  tried : List ε := []
  calls : List (Option ConnectError × ε) := []
  deriving DecidableEq, Repr

namespace RangeConnectOp

variable {ε : Type} [Inhabited ε]

def call (op : RangeConnectOp ε) (ec : Option ConnectError) (endpoint : ε) : RangeConnectOp ε :=
  { op with awaited := none, calls := op.calls ++ [(ec, endpoint)] }

def awaitedOf : Option ConnectError → Awaited
  | some ec => .posted ec
  | none => .connect

/-- `start_connect`. -/
def startConnect (net : Network) (op : RangeConnectOp ε) (endpoint : ε) : RangeConnectOp ε :=
  { op with
    awaited := some (awaitedOf (net.opened op.tried.length))
    tried := op.tried ++ [endpoint] }

/-- `start`; without an endpoint its assertion fails. -/
def start (net : Network) (op : RangeConnectOp ε) : Option (RangeConnectOp ε) :=
  op.endpoints[0]?.map fun endpoint => op.startConnect net endpoint

/-- `operator()`; `none` when an iterator is used that is not at an endpoint. The default
endpoint is `Socket::endpoint_type()`. -/
def completed (net : Network) (op : RangeConnectOp ε) (ec : Option ConnectError) :
    Option (RangeConnectOp ε) :=
  if ec = none ∨ ec = some .operationAborted then
    if ec.isSome then some (op.call ec default)
    else op.endpoints[op.index]?.map fun endpoint => op.call ec endpoint
  else
    let op := { op with index := op.index + 1 }
    if op.index ≠ op.endpoints.length then
      op.endpoints[op.index]?.map fun endpoint => op.startConnect net endpoint
    else some (op.call ec default)

/-- One step of the io thread. -/
def step (net : Network) (op : RangeConnectOp ε) : Option (RangeConnectOp ε) :=
  match op.awaited with
  | none => some op
  | some .connect => { op with awaited := none }.completed net (net.connected (op.tried.length - 1))
  | some (.posted ec) => some (op.call (some ec) default)

def run (net : Network) : Nat → RangeConnectOp ε → Option (RangeConnectOp ε)
  | 0, op => some op
  | n + 1, op => (op.step net).bind (run net n)

/-- `asyncConnect` of `async_connect.hpp`, after this many steps. -/
def asyncConnect (net : Network) (endpoints : List ε) (n : Nat) : Option (RangeConnectOp ε) :=
  (start net { endpoints }).bind (run net n)

/-! ## What should be reported -/

/-- An attempt after which the next endpoint is tried. -/
def Failed (net : Network) (i : Nat) : Prop :=
  net.opened i = none ∧ ∃ ec, net.connected i = some ec ∧ ec ≠ .operationAborted

/-- The attempt `i` is the last one, and this is to be reported of it. -/
inductive Reports (net : Network) (endpoints : List ε) (i : Nat) : Option ConnectError × ε → Prop
  | notOpened {ec : ConnectError} (h : net.opened i = some ec) :
    Reports net endpoints i (some ec, default)
  | connected {endpoint : ε} (hopen : net.opened i = none) (h : net.connected i = none)
    (hendpoint : endpoints[i]? = some endpoint) : Reports net endpoints i (none, endpoint)
  | aborted (hopen : net.opened i = none) (h : net.connected i = some .operationAborted) :
    Reports net endpoints i (some .operationAborted, default)
  | exhausted {ec : ConnectError} (hopen : net.opened i = none) (h : net.connected i = some ec)
    (hlast : i + 1 = endpoints.length) : Reports net endpoints i (some ec, default)

/-! ## From one attempt to the next -/

/-- The attempt `i` is on its way. -/
structure Trying (net : Network) (endpoints : List ε) (i : Nat) (op : RangeConnectOp ε) : Prop where
  range : op.endpoints = endpoints
  index : op.index = i
  inRange : i < endpoints.length
  awaited : op.awaited = some (awaitedOf (net.opened i))
  tried : op.tried = endpoints.take (i + 1)
  calls : op.calls = []
  failed : ∀ j < i, Failed net j

/-- The handler has been called, after the attempt `i`. -/
structure Finished (net : Network) (endpoints : List ε) (i : Nat) (op : RangeConnectOp ε) : Prop where
  inRange : i < endpoints.length
  awaited : op.awaited = none
  tried : op.tried = endpoints.take (i + 1)
  calls : ∃ report, op.calls = [report] ∧ Reports net endpoints i report
  failed : ∀ j < i, Failed net j

variable {net : Network} {endpoints : List ε} {i : Nat} {op : RangeConnectOp ε}

omit [Inhabited ε] in
theorem startConnect_trying {endpoint : ε} (hendpoints : op.endpoints = endpoints)
    (hindex : op.index = i) (hat : endpoints[i]? = some endpoint)
    (htried : op.tried = endpoints.take i) (hcalls : op.calls = []) (hfailed : ∀ j < i, Failed net j) :
    Trying net endpoints i (op.startConnect net endpoint) := by
  obtain ⟨hlt, hget⟩ := List.getElem?_eq_some_iff.mp hat
  have hattempt : op.tried.length = i := by
    rw [htried, List.length_take, Nat.min_eq_left (Nat.le_of_lt hlt)]
  have htake : op.tried ++ [endpoint] = endpoints.take (i + 1) := by
    rw [htried, List.take_add_one, hat]
    rfl
  unfold startConnect
  rw [hattempt]
  exact ⟨hendpoints, hindex, hlt, rfl, htake, hcalls, hfailed⟩

/-- The handler is called with what is to be reported, and that is the end. -/
theorem Trying.finished (h : Trying net endpoints i op) {ec : Option ConnectError} {endpoint : ε}
    (hreport : Reports net endpoints i (ec, endpoint)) {op' : RangeConnectOp ε}
    (htried : op'.tried = op.tried) (hcalls : op'.calls = op.calls) :
    Finished net endpoints i (op'.call ec endpoint) where
  inRange := h.inRange
  awaited := rfl
  tried := htried.trans h.tried
  calls := by
    refine ⟨(ec, endpoint), ?_, hreport⟩
    rw [call, hcalls, h.calls]
    rfl
  failed := h.failed

/-- The attempt comes to an end: its outcome is reported, or the next endpoint is tried. -/
theorem Trying.step (h : Trying net endpoints i op) : ∃ op', op.step net = some op' ∧
    (Finished net endpoints i op' ∨ Trying net endpoints (i + 1) op') := by
  obtain ⟨hendpoints, hindex, hlt, hawaited, htried, hcalls, hfailed⟩ := id h
  have hattempt : op.tried.length - 1 = i := by
    rw [htried, List.length_take]
    omega
  have hat : op.endpoints[op.index]? = some endpoints[i] := by
    rw [hendpoints, hindex, List.getElem?_eq_getElem hlt]
  unfold RangeConnectOp.step
  rw [hawaited]
  cases hopen : net.opened i with
  | some ec => exact ⟨_, rfl, Or.inl (h.finished (.notOpened hopen) rfl rfl)⟩
  | none =>
    show ∃ op', completed net { op with awaited := none } (net.connected (op.tried.length - 1)) =
      some op' ∧ _
    rw [hattempt]
    unfold completed
    cases hconnected : net.connected i with
    | none =>
      rw [if_pos (Or.inl rfl), if_neg (by simp)]
      dsimp only
      rw [hat]
      refine ⟨_, rfl, Or.inl (h.finished (.connected hopen hconnected ?_) rfl rfl)⟩
      exact List.getElem?_eq_getElem hlt
    | some ec =>
      by_cases haborted : ec = .operationAborted
      · subst haborted
        rw [if_pos (Or.inr rfl), if_pos (by rfl)]
        exact ⟨_, rfl, Or.inl (h.finished (.aborted hopen hconnected) rfl rfl)⟩
      · rw [if_neg (by simp [haborted])]
        dsimp only
        rw [hendpoints, hindex]
        by_cases hlast : i + 1 = endpoints.length
        · rw [if_neg (not_not.mpr hlast)]
          exact ⟨_, rfl, Or.inl (h.finished (.exhausted hopen hconnected hlast) rfl rfl)⟩
        · have hnext : endpoints[i + 1]? = some endpoints[i + 1] :=
            List.getElem?_eq_getElem (by omega)
          rw [if_pos hlast, hnext]
          refine ⟨_, rfl, Or.inr (startConnect_trying rfl rfl hnext htried hcalls ?_)⟩
          intro j hj
          rcases Nat.lt_succ_iff_lt_or_eq.mp hj with hj | rfl
          · exact hfailed j hj
          · exact ⟨hopen, ec, hconnected, haborted⟩

theorem Finished.run (h : Finished net endpoints i op) (n : Nat) : run net n op = some op := by
  induction n with
  | zero => rfl
  | succ n ih =>
    have hstep : op.step net = some op := by
      unfold RangeConnectOp.step
      rw [h.awaited]
    rw [RangeConnectOp.run, hstep]
    exact ih

/-- The attempts come to an end. Until then the handler has not been called, and at no time
is an iterator used past the endpoints. -/
theorem Trying.run (h : Trying net endpoints i op) : ∃ last n op', Finished net endpoints last op' ∧
    ∀ k, (n ≤ k → run net k op = some op') ∧
      (k < n → ∃ mid, run net k op = some mid ∧ mid.calls = [] ∧ mid.tried <+: endpoints) := by
  induction hleft : endpoints.length - i generalizing i op with
  | zero => exact absurd h.inRange (by omega)
  | succ left ih =>
    obtain ⟨op', hstep, hnext⟩ := h.step
    have hfirst : ∃ mid, RangeConnectOp.run net 0 op = some mid ∧ mid.calls = [] ∧
        mid.tried <+: endpoints := ⟨op, rfl, h.calls, h.tried ▸ List.take_prefix _ _⟩
    rcases hnext with hfinished | htrying
    · refine ⟨i, 1, op', hfinished, fun k => ⟨fun hk => ?_, fun hk => ?_⟩⟩
      · obtain ⟨m, rfl⟩ := Nat.exists_eq_add_of_le' hk
        rw [RangeConnectOp.run, hstep]
        exact hfinished.run m
      · obtain rfl : k = 0 := by omega
        exact hfirst
    · obtain ⟨last, n, final, hfinal, hrun⟩ := ih htrying (by omega)
      refine ⟨last, n + 1, final, hfinal, fun k => ?_⟩
      cases k with
      | zero => exact ⟨fun hk => absurd hk (by omega), fun _ => hfirst⟩
      | succ k =>
        obtain ⟨hafter, hbefore⟩ := hrun k
        rw [RangeConnectOp.run, hstep]
        exact ⟨fun hk => hafter (by omega), fun hk => hbefore (by omega)⟩

/-- For every range of endpoints and all outcomes, the endpoints are tried in their order,
each at most once and none past the last, and the handler is called exactly once, with what
is to be reported of the last attempt. -/
theorem asyncConnect_reports (net : Network) (endpoints : List ε) (hne : endpoints ≠ []) :
    ∃ i n report, i < endpoints.length ∧ (∀ j < i, Failed net j) ∧ Reports net endpoints i report ∧
      ∀ k, ∃ op, asyncConnect net endpoints k = some op ∧
        (n ≤ k → op.awaited = none ∧ op.tried = endpoints.take (i + 1) ∧ op.calls = [report]) ∧
        (k < n → op.calls = [] ∧ op.tried <+: endpoints) := by
  obtain ⟨first, rest, rfl⟩ := List.exists_cons_of_ne_nil hne
  have htrying : Trying net (first :: rest) 0 (startConnect net { endpoints := first :: rest } first) :=
    startConnect_trying rfl rfl rfl rfl rfl fun j hj => absurd hj (Nat.not_lt_zero j)
  obtain ⟨i, n, final, hfinal, hrun⟩ := htrying.run
  obtain ⟨report, hcalls, hreports⟩ := hfinal.calls
  refine ⟨i, n, report, hfinal.inRange, hfinal.failed, hreports, fun k => ?_⟩
  obtain ⟨hafter, hbefore⟩ := hrun k
  by_cases hk : n ≤ k
  · exact ⟨final, hafter hk, fun _ => ⟨hfinal.awaited, hfinal.tried, hcalls⟩, fun h => absurd hk (by omega)⟩
  · obtain ⟨mid, hmid, hcalls, htried⟩ := hbefore (by omega)
    exact ⟨mid, hmid, fun h => absurd h hk, fun _ => ⟨hcalls, htried⟩⟩

end RangeConnectOp

namespace Sample

/-- The first connect is refused, the second one succeeds. -/
def secondConnects : Network where
  opened _ := none
  connected i := if i = 0 then some (.other 111) else none

end Sample

theorem asyncConnect_reports_second : ∃ n report, ∀ k, n ≤ k → ∃ op,
    RangeConnectOp.asyncConnect Sample.secondConnects [4, 6, 8] k = some op ∧ op.calls = [report] := by
  obtain ⟨i, n, report, -, -, -, hrun⟩ :=
    RangeConnectOp.asyncConnect_reports Sample.secondConnects [4, 6, 8] (by decide)
  refine ⟨n, report, fun k hk => ?_⟩
  obtain ⟨op, hop, hafter, -⟩ := hrun k
  exact ⟨op, hop, (hafter hk).2.2⟩

end O2Chat.Net
