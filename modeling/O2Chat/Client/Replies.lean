import O2Chat.Client.Effects

/-!
# Replies and the last command

`onHttpRead` reads every 200 reply under `m_LastCmd`. That is the command whose request the
reply answers as long as no request is sent before the replies to the earlier ones are there;
otherwise the reply is taken for the answer to the newer command, or two reads overlap on one
connection and the replies are lost.
-/
namespace O2Chat.Client

open O2Chat.Common O2Chat.Lib.Runs

/-- Nothing is outstanding on `m_Http`, nor on one that has been replaced. -/
def NothingOutstanding (c : Client) : Prop :=
  c.http.outstanding = [] ∧ c.http.reads = 0 ∧ c.oldHttp.writes = 0 ∧ c.oldHttp.reads = 0

instance (c : Client) : Decidable c.NothingOutstanding := inferInstanceAs (Decidable (_ ∧ _))

/-- A reply on an `m_Http` that has been replaced. -/
def isLateReply : Action → Bool
  | .httpRead .replaced (some _) => true
  | _ => false

/-- Every request is sent when nothing is outstanding, and no reply comes on a replaced `m_Http`. -/
def RepliesFirst (c : Client) (a : Action) : Prop :=
  (c.sends a ≠ none → c.NothingOutstanding) ∧ isLateReply a = false

instance (c : Client) (a : Action) : Decidable (RepliesFirst c a) :=
  inferInstanceAs (Decidable (_ ∧ _))

/-- The requests without a reply are those of the last command. -/
def LastCmdFits (c : Client) : Prop :=
  ∀ r ∈ c.http.outstanding, r.cmd = c.lastCmd ∧ r.cmd.api = some r.request.cmd

/-- The 200 reply answers the oldest request that waits and is read under its command; a
reply to LOGIN sets the session. -/
def ReadAsSent (parseJson : Bytes → Option Json) (c : Client) (reply : HttpReply) (c' : Client) :
    Prop :=
  ∃ r rest, c.http.awaiting = r :: rest ∧ r.cmd.api = some r.request.cmd ∧ c.lastCmd = r.cmd ∧
    (r.cmd = .login → ∀ resp, parseResponseAswer parseJson reply.body = some (.ok resp) →
      c'.selfId = resp.uid ∧ c'.selfChatId = resp.chatid ∧ c'.heartBit = resp.heartbit)

section

variable {parseJson : Bytes → Option Json} {user password : Bytes} {c c' : Client} {a : Action}

/-! ## One call at a time -/

/-- The writes and reads that are outstanding on `m_Http` and on replaced ones. -/
def callsOutstanding (c : Client) : Nat :=
  c.http.writing.length + c.http.reads + c.oldHttp.writes + c.oldHttp.reads

/-- At most one call is outstanding, so reads never overlap. -/
structure OneCall (c : Client) : Prop where
  le : c.callsOutstanding ≤ 1
  apart : c.http.overlapped = false

theorem NothingOutstanding.calls (h : c.NothingOutstanding) : c.callsOutstanding = 0 := by
  obtain ⟨hout, hreads, hwrites, hold⟩ := h
  have hwriting : c.http.writing = [] := (List.append_eq_nil_iff.mp hout).2
  simp [callsOutstanding, hwriting, hreads, hwrites, hold]

theorem OneCall.congr (h : OneCall c) (hhttp : c'.http = c.http) (hold : c'.oldHttp = c.oldHttp) :
    OneCall c' := by
  refine ⟨?_, hhttp ▸ h.apart⟩
  rw [callsOutstanding, hhttp, hold]
  exact h.le

theorem OneCall.sendRequest (h : OneCall c) (hnone : c.NothingOutstanding) (cmd : InputCmd)
    (request : Request) : OneCall (c.sendRequest cmd request) := by
  refine ⟨?_, h.apart⟩
  have hcalls : (c.sendRequest cmd request).callsOutstanding = c.callsOutstanding + 1 := by
    simp only [callsOutstanding, Client.sendRequest, HttpConn.asyncRequest, List.length_append,
      List.length_singleton]
    omega
  rw [hcalls, hnone.calls]

theorem OneCall.reconnect (h : OneCall c) : OneCall c.reconnect := by
  refine ⟨?_, rfl⟩
  have hle := h.le
  simp only [callsOutstanding, Client.reconnect, HttpConn.asyncConnect, Replaced.add,
    List.length_nil] at hle ⊢
  omega

theorem OneCall.input {msg : Bytes} (h : OneCall c) (hok : RepliesFirst c (.input msg))
    (hs : c.onUserInput msg = some c') : OneCall c' := by
  have hnone : ∀ {cmd}, c.inputCmd msg = some cmd → c.NothingOutstanding := by
    intro cmd hcmd
    exact hok.1 (by rw [sends, hcmd]; exact Option.some_ne_none cmd)
  obtain ⟨c₁, he, hc'⟩ := onUserInput_effect (fun _ => none) hs
  have h₁ : OneCall c₁ := by
    cases he with
    | quiet => exact h
    | typed hcmd => exact h.sendRequest (hnone hcmd) _ _
    | typedLogin hcmd => exact (h.sendRequest (hnone hcmd) _ _).congr rfl rfl
  rw [hc']
  exact h₁.congr rfl rfl

theorem OneCall.connect {conn : Conn} {error : Bool} (h : OneCall c)
    (hok : RepliesFirst c (.httpConnect conn error))
    (hs : c.step parseJson (.httpConnect conn error) = some c') : OneCall c' := by
  -- The handler runs on a client with one `asyncConnect` less.
  have hdone : ∃ c₀ : Client, OneCall c₀ ∧ c₀.sends = c.sends ∧
      (c.NothingOutstanding → c₀.NothingOutstanding) ∧ c' = c₀.onHttpConnect error := by
    cases conn with
    | current =>
      obtain ⟨http, hconn, rfl⟩ := Option.map_eq_some_iff.mp hs
      obtain ⟨n, rfl⟩ := HttpConn.connectDone_some hconn
      exact ⟨{ c with http := { c.http with connects := n } }, ⟨h.le, h.apart⟩, rfl, id, rfl⟩
    | replaced =>
      obtain ⟨oldHttp, hconn, rfl⟩ := Option.map_eq_some_iff.mp hs
      obtain ⟨-, heq⟩ := Option.ite_none_left_eq_some.mp hconn
      obtain rfl := Option.some.inj heq
      exact ⟨{ c with oldHttp := { c.oldHttp with connects := c.oldHttp.connects - 1 } },
        ⟨h.le, h.apart⟩, rfl, id, rfl⟩
  obtain ⟨c₀, h₀, hsends, hnone, rfl⟩ := hdone
  unfold onHttpConnect
  split
  · exact ⟨h₀.le, h₀.apart⟩
  · rename_i herror
    obtain rfl := Bool.eq_false_iff.mpr herror
    split
    · rename_i hlogin
      refine h₀.sendRequest (hnone (hok.1 ?_)) _ _
      rw [← hsends, sends, if_pos hlogin]
      exact Option.some_ne_none _
    · exact h₀

theorem OneCall.write {conn : Conn} {error : Bool} (h : OneCall c)
    (hs : c.step parseJson (.httpWrite conn error) = some c') : OneCall c' := by
  -- A write less, and no read is outstanding beside it.
  have hdone : ∃ c₀ : Client, c₀.callsOutstanding = 0 ∧ c₀.http.overlapped = false ∧
      c' = c₀.onHttpWrite error := by
    have hle := h.le
    cases conn with
    | current =>
      obtain ⟨http, hw, rfl⟩ := Option.map_eq_some_iff.mp hs
      obtain ⟨r, rest, hr, rfl⟩ := HttpConn.writeDone_some hw
      refine ⟨_, ?_, ?_, rfl⟩
      · simp only [callsOutstanding, hr, List.length_cons] at hle ⊢
        split <;> dsimp only <;> omega
      · dsimp only
        split <;> exact h.apart
    | replaced =>
      obtain ⟨oldHttp, hw, rfl⟩ := Option.map_eq_some_iff.mp hs
      obtain ⟨hwrites, heq⟩ := Option.ite_none_left_eq_some.mp hw
      obtain rfl := Option.some.inj heq
      refine ⟨{ c with oldHttp := { c.oldHttp with writes := c.oldHttp.writes - 1 } }, ?_, h.apart,
        rfl⟩
      simp only [callsOutstanding] at hle ⊢
      omega
  obtain ⟨c₀, hcalls, hapart, rfl⟩ := hdone
  unfold onHttpWrite
  split
  · exact ⟨by omega, hapart⟩
  · refine ⟨?_, ?_⟩
    · simp only [callsOutstanding, HttpConn.asyncResponse] at hcalls ⊢
      omega
    · have hreads : c₀.http.reads = 0 := by
        unfold callsOutstanding at hcalls
        omega
      simp [HttpConn.asyncResponse, hapart, hreads]

theorem OneCall.answer (h : OneCall c) {request : Option Request} {reply : HttpReply}
    (hs : c.onHttpRead parseJson (some (request, reply)) = some c') : OneCall c' := by
  obtain ⟨rfl, -⟩ | ⟨resp, -, -, rfl⟩ := onHttpRead_cases hs
  · exact h
  · unfold startIdle
    split
    · exact h.congr rfl rfl
    · exact h.congr rfl rfl

theorem OneCall.readDone {http : HttpConn Sent} (h : OneCall c)
    (hread : c.http.readDone = some http) : OneCall { c with http } := by
  have hle := h.le
  obtain ⟨-, heq⟩ := Option.ite_none_left_eq_some.mp hread
  obtain rfl := Option.some.inj heq
  refine ⟨?_, h.apart⟩
  simp only [callsOutstanding] at hle ⊢
  omega

theorem OneCall.oldReadDone {oldHttp : Replaced} (h : OneCall c)
    (hread : c.oldHttp.readDone = some oldHttp) : OneCall { c with oldHttp } := by
  have hle := h.le
  obtain ⟨-, heq⟩ := Option.ite_none_left_eq_some.mp hread
  obtain rfl := Option.some.inj heq
  refine ⟨?_, h.apart⟩
  simp only [callsOutstanding] at hle ⊢
  omega

theorem OneCall.read {conn : Conn} {reply : Option HttpReply} (h : OneCall c)
    (hs : c.httpRead parseJson conn reply = some c') : OneCall c' := by
  unfold httpRead at hs
  split at hs
  · obtain ⟨http, hread, hc'⟩ := Option.bind_eq_some_iff.mp hs
    obtain rfl := Option.some.inj hc'
    exact (h.readDone hread).reconnect
  · split at hs
    · rename_i hover
      rw [h.apart] at hover
      cases hover
    · split at hs
      · cases hs
      · obtain ⟨http, hread, hc'⟩ := Option.bind_eq_some_iff.mp hs
        have h₀ := h.readDone hread
        refine OneCall.answer ?_ hc'
        exact ⟨h₀.le, h₀.apart⟩
  · obtain ⟨oldHttp, hread, hc'⟩ := Option.bind_eq_some_iff.mp hs
    have h₀ := h.oldReadDone hread
    cases reply with
    | none =>
      obtain rfl := Option.some.inj hc'
      exact h₀.reconnect
    | some reply => exact h₀.answer hc'

theorem OneCall.idleRead {conn : Conn} {reply : Option HttpReply} (h : OneCall c)
    (hs : c.idleRead parseJson conn reply = some c') : OneCall c' := by
  have hdone : ∃ c₀ : Client, OneCall c₀ ∧ c₀.onHttpIdleRead parseJson reply = some c' := by
    unfold Client.idleRead at hs
    split at hs
    · obtain ⟨httpIdle, -, hread⟩ := Option.bind_eq_some_iff.mp hs
      exact ⟨{ c with httpIdle }, h.congr rfl rfl, hread⟩
    · obtain ⟨oldIdle, -, hread⟩ := Option.bind_eq_some_iff.mp hs
      exact ⟨{ c with oldIdle }, h.congr rfl rfl, hread⟩
  obtain ⟨c₀, h₀, hread⟩ := hdone
  unfold onHttpIdleRead at hread
  split at hread
  · obtain rfl := Option.some.inj hread
    exact OneCall.reconnect (h₀.congr rfl rfl)
  · split at hread
    · obtain rfl := Option.some.inj hread
      exact h₀.congr rfl rfl
    · obtain ⟨-, -, rfl⟩ := Option.map_eq_some_iff.mp hread
      exact h₀.congr rfl rfl

/-- What happens on the idle connection leaves the calls on `m_Http` alone, until it breaks. -/
theorem oneCall_step (h : OneCall c) (hok : RepliesFirst c a) (hs : c.step parseJson a = some c') :
    OneCall c' := by
  cases a with
  | input msg => exact h.input hok hs
  | httpConnect conn error => exact h.connect hok hs
  | httpWrite conn error => exact h.write hs
  | httpRead conn reply => exact h.read hs
  | idleOpen =>
    obtain ⟨-, hc'⟩ := Option.ite_none_left_eq_some.mp hs
    rw [← Option.some.inj hc']
    exact h.congr rfl rfl
  | idleConnect conn error =>
    have hdone : ∃ c₀ : Client, OneCall c₀ ∧ c' = c₀.onHttpIdleConnect error := by
      cases conn with
      | current =>
        obtain ⟨-, hc'⟩ := Option.ite_none_left_eq_some.mp hs
        obtain ⟨httpIdle, -, rfl⟩ := Option.map_eq_some_iff.mp hc'
        exact ⟨{ c with httpIdle }, h.congr rfl rfl, rfl⟩
      | replaced =>
        obtain ⟨oldIdle, -, rfl⟩ := Option.map_eq_some_iff.mp hs
        exact ⟨{ c with oldIdle }, h.congr rfl rfl, rfl⟩
    obtain ⟨c₀, h₀, rfl⟩ := hdone
    unfold onHttpIdleConnect
    split
    · exact h₀.congr rfl rfl
    · exact h₀.congr rfl rfl
  | idleWrite conn error =>
    cases conn <;>
    · obtain ⟨idle, -, rfl⟩ := Option.map_eq_some_iff.mp hs
      unfold onHttpIdleWrite
      split
      · exact h.congr rfl rfl
      · exact h.congr rfl rfl
  | idleRead conn reply => exact h.idleRead hs

/-- A run that sends its requests one after the other knows what every reply answers. -/
theorem run_oneCall {ok : Client → Action → Prop}
    (h : Run (step parseJson) ok (init user password) c) (hok : ∀ c a, ok c a → RepliesFirst c a) :
    Run (step parseJson) (fun c a => ok c a ∧ OneCall c) (init user password) c ∧ OneCall c := by
  have h0 : OneCall (init user password) := ⟨Nat.zero_le _, rfl⟩
  have hstep : ∀ c a c', OneCall c → ok c a → c.step parseJson a = some c' → OneCall c' :=
    fun c a c' hc ha hs => oneCall_step hc (hok c a ha) hs
  exact ⟨h.strengthen h0 hstep, h.invariant h0 hstep⟩

theorem not_stray {conn : Conn} {reply : HttpReply} (hcall : OneCall c)
    (hok : RepliesFirst c (.httpRead conn (some reply))) : ¬ c.Stray conn := by
  cases conn with
  | current =>
    intro hover
    have hover : c.http.overlapped = true := hover
    rw [hcall.apart] at hover
    cases hover
  | replaced => exact absurd hok.2 (by simp [isLateReply])

/-! ## The last command -/

theorem fits_of_subset (hi : LastCmdFits c) (hlast : c'.lastCmd = c.lastCmd)
    (hsub : ∀ r ∈ c'.http.outstanding, r ∈ c.http.outstanding) : LastCmdFits c' := by
  intro r hr
  rw [hlast]
  exact hi r (hsub r hr)

theorem outstanding_sendRequest (hnone : c.http.outstanding = []) (cmd : InputCmd)
    (request : Request) : (c.sendRequest cmd request).http.outstanding =
      [{ cmd, request, before := c.session }] := by
  show c.http.awaiting ++ (c.http.writing ++ [{ cmd, request, before := c.session }]) = _
  rw [← List.append_assoc]
  show c.http.outstanding ++ _ = _
  rw [hnone, List.nil_append]

theorem fits_sendRequest {cmd : InputCmd} {request : Request} (hnone : c.NothingOutstanding)
    (hapi : cmd.api = some request.cmd) : LastCmdFits (c.sendRequest cmd request) := by
  intro r hr
  rw [outstanding_sendRequest hnone.1] at hr
  obtain rfl := List.mem_singleton.mp hr
  exact ⟨rfl, hapi⟩

theorem fits_effect (hi : LastCmdFits c) (hok : RepliesFirst c a) (h : Effect parseJson c a c') :
    LastCmdFits c' := by
  have hnone : ∀ {cmd}, c.sends a = some cmd → c.NothingOutstanding :=
    fun hcmd => hok.1 (by rw [hcmd]; exact Option.some_ne_none _)
  cases h with
  | quiet | stray | strayLogin | idleOpened | idleSent | idleWritten | idleUnwritten => exact hi
  | typed hcmd hne hapi => exact fits_sendRequest (hnone hcmd) hapi
  | typedLogin hcmd => exact fits_sendRequest (hnone hcmd) rfl
  | autoLogin huser hpass => exact fits_sendRequest (hnone (if_pos ⟨huser, hpass⟩)) rfl
  | written hw =>
    refine fits_of_subset hi rfl ?_
    intro r hr
    exact HttpConn.outstanding_written hw ▸ hr
  | unwritten hw => exact fits_of_subset hi rfl fun _ hr => HttpConn.mem_of_unwritten hw hr
  | answered ha hn => exact fits_of_subset hi rfl fun _ hr => HttpConn.mem_of_answered ha hr
  | loggedIn ha hlast hreply =>
    exact fits_of_subset hi rfl fun _ hr => HttpConn.mem_of_answered ha hr
  | reconnected | idleBroken => exact fits_of_subset hi rfl fun _ hr => absurd hr List.not_mem_nil

theorem run_fits (h : Run (step parseJson) RepliesFirst (init user password) c) : LastCmdFits c :=
  run_invariant h (fun _ hr => absurd hr List.not_mem_nil) (fun _ _ hi => hi)
    fun _ _ _ => fits_effect

/-- In a run that sends a request only when nothing is outstanding, and in which no reply comes on
a replaced connection, every 200 reply is read under the command whose request it answers. -/
theorem replies_read_as_sent {reply : HttpReply}
    (h : Run (step parseJson) RepliesFirst (init user password) c) (hstatus : reply.status = 200)
    (hs : c.step parseJson (.httpRead .current (some reply)) = some c') :
    ReadAsSent parseJson c reply c' := by
  have hok : RepliesFirst c (.httpRead .current (some reply)) :=
    ⟨fun hsends => absurd rfl hsends, rfl⟩
  have hknown : ¬ c.Stray .current := not_stray (run_oneCall h fun _ _ => id).2 hok
  obtain ⟨c₁, he, x, rfl⟩ := step_effect hs
  cases he with
  | quiet _ hreply => exact absurd hreply (by simp [Action.reply])
  | stray hstray => exact absurd hstray hknown
  | strayLogin hstray => exact absurd hstray hknown
  | @answered _ r rest ha hn =>
    obtain ⟨hcmd, hapi⟩ := run_fits h r (List.mem_append_left _ (ha ▸ List.mem_cons_self))
    refine ⟨r, rest, ha, hapi, hcmd.symm, ?_⟩
    intro hlogin resp hp
    have hnone := hn (hcmd ▸ hlogin)
    simp [loginReply, hstatus, hp] at hnone
  | @loggedIn _ r rest resp ha hlast hreply =>
    obtain ⟨hcmd, hapi⟩ := run_fits h r (List.mem_append_left _ (ha ▸ List.mem_cons_self))
    refine ⟨r, rest, ha, hapi, hcmd.symm, ?_⟩
    intro _ resp' hp
    simp only [loginReply, hstatus, if_true, hp, Option.some.injEq] at hreply
    subst hreply
    exact ⟨rfl, rfl, rfl⟩

end

namespace Sample

/-- What the server tells of an account. -/
def account (uid chatid : Nat) (name : String) : Members :=
  [("id", .uint64 uid), ("chatid", .uint64 chatid), ("heartbit", .uint64 0),
    ("name", .string (bytes name)), ("server_ts", .uint64 9)]

def ok (body : Members) : HttpReply := { status := 200, body := body.text }

/-- A parser that knows some texts. -/
def parseJson (bodies : List Members) (text : Bytes) : Option Json :=
  (bodies.find? fun body => body.text = text).map Members.json

def amy : Members := account 1 1 "amy"

def bob : Members := account 2 2 "bob"

/-- A line is typed and its request is written. -/
def line (msg : String) : List Action := [.input (bytes msg), .httpWrite .current false]

/-- The first LOGIN has its reply when the second one is typed. -/
def twoLogins : List Action :=
  .httpConnect .current false :: line "login amy password" ++
    .httpRead .current (some (ok amy)) :: line "login bob letmein1"

/-- The STATUS is still being written when the reply to the LOGIN comes. -/
def loginAndStatus : List Action :=
  .httpConnect .current false :: line "login amy password" ++ [.input (bytes "status bob")]

end Sample

theorem replies_read_as_sent_two_logins : ∃ c c' : Client, c.selfId = 1 ∧ c'.selfId = 2 ∧
    ReadAsSent (Sample.parseJson [Sample.amy, Sample.bob]) c (Sample.ok Sample.bob) c' := by
  have hlist : (runList (step (Sample.parseJson [Sample.amy, Sample.bob])) RepliesFirst (init [] [])
      Sample.twoLogins).any (fun c => c.selfId = 1 ∧
        ((c.step (Sample.parseJson [Sample.amy, Sample.bob])
          (.httpRead .current (some (Sample.ok Sample.bob)))).any fun c' => c'.selfId = 2) = true) =
            true := by
    decide +kernel
  obtain ⟨c, hrun, hc⟩ := exists_run hlist
  obtain ⟨hamy, hstep⟩ := of_decide_eq_true hc
  obtain ⟨c', hs, hbob⟩ := (Option.any_eq_true _ _).mp hstep
  exact ⟨c, c', hamy, of_decide_eq_true hbob, replies_read_as_sent hrun rfl hs⟩

/-- The reply to a LOGIN is read as the answer to a STATUS typed before it came, and the
session stays without a user. -/
theorem login_reply_read_as_status : ∃ (c c' : Client) (r : Sent) (resp : Response),
    Run (step (Sample.parseJson [Sample.amy])) anyStep (init [] []) c ∧
    c.step (Sample.parseJson [Sample.amy])
      (.httpRead .current (some (Sample.ok Sample.amy))) = some c' ∧
    (Sample.ok Sample.amy).status = 200 ∧ c.http.awaiting.head? = some r ∧ r.cmd = .login ∧
    parseResponseAswer (Sample.parseJson [Sample.amy]) (Sample.ok Sample.amy).body =
      some (.ok resp) ∧ c.lastCmd = .statusUser ∧ c'.selfId ≠ resp.uid := by
  have hlist : (runList (step (Sample.parseJson [Sample.amy])) anyStep (init [] [])
      Sample.loginAndStatus).any (fun c => c.lastCmd = .statusUser ∧
        (c.http.awaiting.head?.any fun r => r.cmd = .login) = true ∧
        ((c.step (Sample.parseJson [Sample.amy])
          (.httpRead .current (some (Sample.ok Sample.amy)))).any fun c' => c'.selfId = 0) =
            true) = true := by
    decide +kernel
  obtain ⟨c, hrun, hc⟩ := exists_run hlist
  obtain ⟨hlast, hhead, hstep⟩ := of_decide_eq_true hc
  obtain ⟨r, hr, hlogin⟩ := (Option.any_eq_true _ _).mp hhead
  obtain ⟨c', hs, huid⟩ := (Option.any_eq_true _ _).mp hstep
  have hresp : parseResponseAswer (Sample.parseJson [Sample.amy]) (Sample.ok Sample.amy).body =
      some (.ok { uid := 1, chatid := 1, serverTs := 9 }) := by decide +kernel
  refine ⟨c, c', r, _, hrun, hs, rfl, hr, of_decide_eq_true hlogin, hresp, hlast, ?_⟩
  rw [of_decide_eq_true huid]
  decide

end O2Chat.Client
