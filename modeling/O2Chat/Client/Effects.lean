import O2Chat.Client.Client
import O2Chat.Lib.Runs

/-!
# What a step of the client can do

`Effect` lists the changes a step can make to the requests, the session and the idle
connection. What it leaves open is `Aside`: the chat mode and the calls that are
outstanding.
-/
namespace O2Chat.Client

open O2Chat.Common O2Chat.Lib.Runs

/-- The command of the interface that a command of the input stands for. -/
def InputCmd.api : InputCmd → Option Cmd
  | .registerUser => some .userCreate
  | .login => some .userLogin
  | .directMsgUser => some .messageSend
  | .historyUser => some .userHistory
  | .statusUser => some .userStatus
  | .registerGroup => some .chatCreate
  | .addToGroup => some .chatAdduser
  | .directMsgGroup => some .messageSendChat
  | _ => Option.none

/-- What a 200 reply to a LOGIN tells, if it can be read. -/
def loginReply (parseJson : Bytes → Option Json) (reply : HttpReply) : Option Response :=
  if reply.status = 200 then
    match parseResponseAswer parseJson reply.body with
    | some (.ok resp) => some resp
    | _ => none
  else none

/-- The command under which a typed line is sent, if it is. -/
def inputCmd (c : Client) (msg : Bytes) : Option InputCmd :=
  if c.isChatLine msg = true then some .directMsgUser
  else if (parse msg).cmd.api.isSome = true then some (parse msg).cmd else none

/-- The command under which an action sends a request on `m_Http`, if it does. -/
def sends (c : Client) : Action → Option InputCmd
  | .input msg => c.inputCmd msg
  | .httpConnect _ false => if c.user ≠ [] ∧ c.password ≠ [] then some .login else none
  | _ => none

/-- The reply that an action brings. -/
def Action.reply : Action → Option HttpReply
  | .httpRead .current reply => reply
  | _ => none

/-! ## Effects -/

/-- The fields that no fact about sessions rests on. -/
structure Aside where
  state : ChatState
  idleState : Bool
  connects : Nat
  reads : Nat
  overlapped : Bool
  idleConnects : Nat
  idleReads : Nat
  idleOverlapped : Bool
  oldHttp : Replaced
  oldIdle : Replaced

def aside (c : Client) (x : Aside) : Client :=
  { c with
    state := x.state
    idleState := x.idleState
    http := { c.http with connects := x.connects, reads := x.reads, overlapped := x.overlapped }
    httpIdle := { c.httpIdle with
      connects := x.idleConnects, reads := x.idleReads, overlapped := x.idleOverlapped }
    oldHttp := x.oldHttp
    oldIdle := x.oldIdle }

def asideOf (c : Client) : Aside :=
  { state := c.state, idleState := c.idleState
    connects := c.http.connects, reads := c.http.reads, overlapped := c.http.overlapped
    idleConnects := c.httpIdle.connects, idleReads := c.httpIdle.reads
    idleOverlapped := c.httpIdle.overlapped
    oldHttp := c.oldHttp, oldIdle := c.oldIdle }

/-- With the LOGIN that a user has typed. -/
def typeLogin (c : Client) (user pass : Bytes) : Client :=
  { c.sendRequest .login (.userLogin user pass) with
    password := pass, entered := c.entered ++ [(user, pass)] }

/-- With `m_Http` as these requests have it. -/
def withHttp (c : Client) (writing awaiting : List Sent) : Client :=
  { c with http := { c.http with writing, awaiting } }

def withIdle (c : Client) (writing awaiting : List Request) : Client :=
  { c with httpIdle := { c.httpIdle with writing, awaiting } }

/-- With the session of a reply to LOGIN. -/
def logIn (c : Client) (request : Option Request) (resp : Response) : Client :=
  { c with
    selfId := resp.uid, selfChatId := resp.chatid, heartBit := resp.heartbit
    login := request.map fun request => { request, uid := resp.uid } }

/-- A reply on this connection answers no request that is known. -/
def Stray (c : Client) : Conn → Prop
  | .current => c.http.overlapped = true
  | .replaced => True

/-- What an action may make of a client, up to `Aside`. -/
inductive Effect (parseJson : Bytes → Option Json) (c : Client) : Action → Client → Prop
  | quiet {a : Action} : c.sends a = none → a.reply = none → Effect parseJson c a c
  | typed {msg : Bytes} {cmd : InputCmd} {request : Request} : c.inputCmd msg = some cmd →
      cmd ≠ .login → cmd.api = some request.cmd →
      Effect parseJson c (.input msg) (c.sendRequest cmd request)
  | typedLogin {msg user pass : Bytes} : c.inputCmd msg = some .login →
      Effect parseJson c (.input msg) (c.typeLogin user pass)
  | autoLogin {conn : Conn} : c.user ≠ [] → c.password ≠ [] →
      Effect parseJson c (.httpConnect conn false)
        (c.sendRequest .login (.userLogin c.user c.password))
  | written {r : Sent} {rest : List Sent} : c.http.writing = r :: rest →
      Effect parseJson c (.httpWrite .current false) (c.withHttp rest (c.http.awaiting ++ [r]))
  | unwritten {r : Sent} {rest : List Sent} : c.http.writing = r :: rest →
      Effect parseJson c (.httpWrite .current true) (c.withHttp rest c.http.awaiting)
  | answered {reply : HttpReply} {r : Sent} {rest : List Sent} : c.http.awaiting = r :: rest →
      (c.lastCmd = .login → loginReply parseJson reply = none) →
      Effect parseJson c (.httpRead .current (some reply)) (c.withHttp c.http.writing rest)
  | loggedIn {reply : HttpReply} {r : Sent} {rest : List Sent} {resp : Response} :
      c.http.awaiting = r :: rest → c.lastCmd = .login → loginReply parseJson reply = some resp →
      Effect parseJson c (.httpRead .current (some reply))
        ((c.withHttp c.http.writing rest).logIn (some r.request) resp)
  | stray {conn : Conn} {reply : HttpReply} : c.Stray conn →
      (c.lastCmd = .login → loginReply parseJson reply = none) →
      Effect parseJson c (.httpRead conn (some reply)) c
  | strayLogin {conn : Conn} {reply : HttpReply} {resp : Response} : c.Stray conn →
      c.lastCmd = .login → loginReply parseJson reply = some resp →
      Effect parseJson c (.httpRead conn (some reply)) (c.logIn none resp)
  | reconnected {conn : Conn} : Effect parseJson c (.httpRead conn none) (c.withHttp [] [])
  | idleOpened : Effect parseJson c .idleOpen { c with idleIsOpen := true }
  | idleSent {conn : Conn} : Effect parseJson c (.idleConnect conn false)
      (c.withIdle (c.httpIdle.writing ++ [.idle c.selfId c.heartBit c.password])
        c.httpIdle.awaiting)
  | idleWritten {r : Request} {rest : List Request} : c.httpIdle.writing = r :: rest →
      Effect parseJson c (.idleWrite .current false)
        (c.withIdle rest (c.httpIdle.awaiting ++ [r]))
  | idleUnwritten {r : Request} {rest : List Request} : c.httpIdle.writing = r :: rest →
      Effect parseJson c (.idleWrite .current true)
        (c.withIdle rest c.httpIdle.awaiting)
  | idleBroken {conn : Conn} {reply : Option HttpReply} : isError reply = true →
      Effect parseJson c (.idleRead conn reply)
        (({ c with idleIsOpen := false } : Client).withIdle [] [] |>.withHttp [] [])

/-! ## Every step has an effect -/

section

variable {parseJson : Bytes → Option Json} {c c' : Client} {a : Action}

/-- Equal up to what `Aside` has. -/
def Alike (c c' : Client) : Prop := ∃ x, c' = c.aside x

theorem alike_asideOf (h : c.aside c'.asideOf = c') : Alike c c' := ⟨c'.asideOf, h.symm⟩

/-- An input leaves the calls that are outstanding alone. -/
theorem onUserInput_effect (parseJson : Bytes → Option Json) {msg : Bytes}
    (h : c.onUserInput msg = some c') :
    ∃ c₁, Effect parseJson c (.input msg) c₁ ∧ c' = { c₁ with state := c'.state } := by
  cases hchat : c.isChatLine msg with
  | true =>
    have hcmd : c.inputCmd msg = some .directMsgUser := by simp [inputCmd, hchat]
    simp only [onUserInput, hchat, if_true, Option.some.injEq] at h
    subst h
    exact ⟨_, .typed hcmd (by decide) rfl, rfl⟩
  | false =>
    have hcmd : c.inputCmd msg =
        if (parse msg).cmd.api.isSome = true then some (parse msg).cmd else none := by
      simp [inputCmd, hchat]
    simp only [onUserInput, hchat, Bool.false_eq_true, if_false] at h
    cases hp : (parse msg).cmd with
    | quit => simp [hp] at h
    | none | help | unchat | chatWithUser | historyGroup | statusGroup =>
      rw [hp] at hcmd
      simp only [hp, Option.some.injEq] at h
      subst h
      exact ⟨c, .quiet hcmd rfl, rfl⟩
    | login =>
      rw [hp] at hcmd
      simp only [hp, Option.some.injEq] at h
      subst h
      exact ⟨_, .typedLogin hcmd, rfl⟩
    | registerUser | registerGroup | addToGroup | historyUser | directMsgUser | directMsgGroup
    | statusUser =>
      rw [hp] at hcmd
      simp only [hp, Option.some.injEq] at h
      subst h
      exact ⟨_, .typed hcmd (by decide) rfl, rfl⟩

theorem onHttpConnect_effect {conn : Conn} {error : Bool} {c₀ : Client} (h₀ : Alike c c₀) :
    ∃ c₁, Effect parseJson c (.httpConnect conn error) c₁ ∧ Alike c₁ (c₀.onHttpConnect error) := by
  obtain ⟨x, rfl⟩ := h₀
  cases error with
  | true => exact ⟨c, .quiet rfl rfl, alike_asideOf rfl⟩
  | false =>
    by_cases hlogin : c.user ≠ [] ∧ c.password ≠ []
    · have hsent : (c.aside x).onHttpConnect false =
          (c.aside x).sendRequest .login (.userLogin c.user c.password) := if_pos hlogin
      rw [hsent]
      exact ⟨_, .autoLogin hlogin.1 hlogin.2, alike_asideOf rfl⟩
    · have hsame : (c.aside x).onHttpConnect false = c.aside x := if_neg hlogin
      rw [hsame]
      exact ⟨c, .quiet (if_neg hlogin) rfl, x, rfl⟩

/-- A reply sets the session, or nothing. -/
theorem onHttpRead_cases {request : Option Request} {reply : HttpReply}
    (h : c.onHttpRead parseJson (some (request, reply)) = some c') :
    (c' = c ∧ (c.lastCmd = .login → loginReply parseJson reply = none)) ∨
      ∃ resp, c.lastCmd = .login ∧ loginReply parseJson reply = some resp ∧
        c' = (c.logIn request resp).startIdle := by
  simp only [onHttpRead] at h
  by_cases hstatus : reply.status = 200
  · simp only [hstatus, ne_eq, not_true_eq_false, if_false] at h
    by_cases hlogin : c.lastCmd = .login
    · simp only [hlogin] at h
      cases hp : parseResponseAswer parseJson reply.body with
      | none => simp [hp] at h
      | some parsed =>
        cases parsed with
        | error err =>
          simp only [hp, Option.some.injEq] at h
          exact .inl ⟨h.symm, fun _ => by simp [loginReply, hstatus, hp]⟩
        | ok resp =>
          simp only [hp, Option.some.injEq] at h
          refine .inr ⟨resp, hlogin, by simp [loginReply, hstatus, hp], ?_⟩
          rw [← h, ← hlogin]
          rfl
    · have hn : c.lastCmd = .login → loginReply parseJson reply = none :=
        fun hc => absurd hc hlogin
      cases hc : c.lastCmd with
      | login => exact absurd hc hlogin
      | historyUser | statusUser =>
        simp only [hc, Option.map_eq_some_iff] at h
        obtain ⟨_, -, rfl⟩ := h
        exact .inl ⟨rfl, hc ▸ hn⟩
      | _ =>
        simp only [hc, Option.some.injEq] at h
        exact .inl ⟨h.symm, hc ▸ hn⟩
  · simp only [ne_eq, hstatus, not_false_eq_true, if_true, Option.some.injEq] at h
    exact .inl ⟨h.symm, fun _ => if_neg hstatus⟩

theorem startIdle_alike (c : Client) : Alike c c.startIdle := by
  unfold startIdle
  split
  · exact alike_asideOf rfl
  · exact alike_asideOf rfl

theorem stray_effect {c₀ : Client} {conn : Conn} {reply : HttpReply} (hstray : c.Stray conn)
    (h₀ : Alike c c₀) (h : c₀.onHttpRead parseJson (some (none, reply)) = some c') :
    ∃ c₁, Effect parseJson c (.httpRead conn (some reply)) c₁ ∧ Alike c₁ c' := by
  obtain ⟨x, rfl⟩ := h₀
  obtain ⟨rfl, hn⟩ | ⟨resp, hlast, hreply, rfl⟩ := onHttpRead_cases h
  · exact ⟨c, .stray hstray hn, x, rfl⟩
  · obtain ⟨y, hy⟩ := startIdle_alike ((c.aside x).logIn none resp)
    exact ⟨_, .strayLogin hstray hlast hreply, y, hy⟩

theorem answer_effect {c₀ : Client} {reply : HttpReply} {r : Sent} {rest : List Sent}
    (hr : c.http.awaiting = r :: rest) (h₀ : Alike (c.withHttp c.http.writing rest) c₀)
    (h : c₀.onHttpRead parseJson (some (some r.request, reply)) = some c') :
    ∃ c₁, Effect parseJson c (.httpRead .current (some reply)) c₁ ∧ Alike c₁ c' := by
  obtain ⟨x, rfl⟩ := h₀
  obtain ⟨rfl, hn⟩ | ⟨resp, hlast, hreply, rfl⟩ := onHttpRead_cases h
  · exact ⟨_, .answered hr hn, x, rfl⟩
  · obtain ⟨y, hy⟩ :=
      startIdle_alike (((c.withHttp c.http.writing rest).aside x).logIn (some r.request) resp)
    exact ⟨_, .loggedIn hr hlast hreply, y, hy⟩

theorem httpRead_effect {conn : Conn} {reply : Option HttpReply}
    (h : c.httpRead parseJson conn reply = some c') :
    ∃ c₁, Effect parseJson c (.httpRead conn reply) c₁ ∧ Alike c₁ c' := by
  cases conn with
  | current =>
    cases reply with
    | none =>
      obtain ⟨http, hread, h⟩ := Option.bind_eq_some_iff.mp h
      obtain ⟨n, rfl⟩ := HttpConn.readDone_some hread
      obtain rfl := Option.some.inj h
      exact ⟨_, .reconnected, alike_asideOf rfl⟩
    | some reply =>
      unfold httpRead at h
      dsimp only at h
      split at h
      · rename_i hover
        obtain ⟨http, hread, h⟩ := Option.bind_eq_some_iff.mp h
        obtain ⟨n, rfl⟩ := HttpConn.readDone_some hread
        exact stray_effect hover (alike_asideOf rfl) h
      · split at h
        · cases h
        · rename_i r rest hr
          obtain ⟨http, hread, h⟩ := Option.bind_eq_some_iff.mp h
          obtain ⟨n, rfl⟩ := HttpConn.readDone_some hread
          exact answer_effect hr (alike_asideOf rfl) h
  | replaced =>
    obtain ⟨old, hread, h⟩ := Option.bind_eq_some_iff.mp h
    cases reply with
    | none =>
      obtain rfl := Option.some.inj h
      exact ⟨_, .reconnected, alike_asideOf rfl⟩
    | some reply => exact stray_effect trivial (alike_asideOf rfl) h

theorem onHttpIdleRead_effect {conn : Conn} {reply : Option HttpReply} {c₀ : Client}
    (h₀ : Alike c c₀) (h : c₀.onHttpIdleRead parseJson reply = some c') :
    ∃ c₁, Effect parseJson c (.idleRead conn reply) c₁ ∧ Alike c₁ c' := by
  obtain ⟨x, rfl⟩ := h₀
  unfold onHttpIdleRead at h
  split at h
  · rename_i herror
    obtain rfl := Option.some.inj h
    exact ⟨_, .idleBroken herror, alike_asideOf rfl⟩
  · split at h
    · obtain rfl := Option.some.inj h
      exact ⟨c, .quiet rfl rfl, alike_asideOf rfl⟩
    · obtain ⟨_, -, rfl⟩ := Option.map_eq_some_iff.mp h
      exact ⟨c, .quiet rfl rfl, alike_asideOf rfl⟩

theorem idleRead_effect {conn : Conn} {reply : Option HttpReply}
    (h : c.idleRead parseJson conn reply = some c') :
    ∃ c₁, Effect parseJson c (.idleRead conn reply) c₁ ∧ Alike c₁ c' := by
  cases conn with
  | current =>
    obtain ⟨httpIdle, hread, h⟩ := Option.bind_eq_some_iff.mp h
    obtain ⟨n, rfl⟩ := HttpConn.readDone_some hread
    exact onHttpIdleRead_effect (alike_asideOf rfl) h
  | replaced =>
    obtain ⟨old, -, h⟩ := Option.bind_eq_some_iff.mp h
    exact onHttpIdleRead_effect (alike_asideOf rfl) h

theorem httpWrite_effect {conn : Conn} {error : Bool}
    (h : c.step parseJson (.httpWrite conn error) = some c') :
    ∃ c₁, Effect parseJson c (.httpWrite conn error) c₁ ∧ Alike c₁ c' := by
  cases conn with
  | current =>
    obtain ⟨http, hw, rfl⟩ := Option.map_eq_some_iff.mp h
    obtain ⟨r, rest, hr, rfl⟩ := HttpConn.writeDone_some hw
    cases error with
    | true => exact ⟨_, .unwritten hr, alike_asideOf rfl⟩
    | false => exact ⟨_, .written hr, alike_asideOf rfl⟩
  | replaced =>
    obtain ⟨old, -, rfl⟩ := Option.map_eq_some_iff.mp h
    cases error with
    | true => exact ⟨c, .quiet rfl rfl, alike_asideOf rfl⟩
    | false => exact ⟨c, .quiet rfl rfl, alike_asideOf rfl⟩

theorem idleWrite_effect {conn : Conn} {error : Bool}
    (h : c.step parseJson (.idleWrite conn error) = some c') :
    ∃ c₁, Effect parseJson c (.idleWrite conn error) c₁ ∧ Alike c₁ c' := by
  cases conn with
  | current =>
    obtain ⟨httpIdle, hw, rfl⟩ := Option.map_eq_some_iff.mp h
    obtain ⟨r, rest, hr, rfl⟩ := HttpConn.writeDone_some hw
    cases error with
    | true => exact ⟨_, .idleUnwritten hr, alike_asideOf rfl⟩
    | false => exact ⟨_, .idleWritten hr, alike_asideOf rfl⟩
  | replaced =>
    obtain ⟨old, -, rfl⟩ := Option.map_eq_some_iff.mp h
    cases error with
    | true => exact ⟨c, .quiet rfl rfl, alike_asideOf rfl⟩
    | false => exact ⟨c, .quiet rfl rfl, alike_asideOf rfl⟩

theorem onHttpIdleConnect_effect {conn : Conn} {error : Bool} {c₀ : Client} (h₀ : Alike c c₀) :
    ∃ c₁, Effect parseJson c (.idleConnect conn error) c₁ ∧
      Alike c₁ (c₀.onHttpIdleConnect error) := by
  obtain ⟨x, rfl⟩ := h₀
  cases error with
  | true => exact ⟨c, .quiet rfl rfl, alike_asideOf rfl⟩
  | false => exact ⟨_, .idleSent, alike_asideOf rfl⟩

/-- What a step does is one of the effects of its action. -/
theorem step_effect (h : c.step parseJson a = some c') :
    ∃ c₁, Effect parseJson c a c₁ ∧ Alike c₁ c' := by
  cases a with
  | input msg =>
    obtain ⟨c₁, he, hc'⟩ := onUserInput_effect parseJson h
    exact ⟨c₁, he, by rw [hc']; exact alike_asideOf rfl⟩
  | httpConnect conn error =>
    cases conn with
    | current =>
      obtain ⟨http, hdone, rfl⟩ := Option.map_eq_some_iff.mp h
      obtain ⟨n, rfl⟩ := HttpConn.connectDone_some hdone
      exact onHttpConnect_effect (alike_asideOf rfl)
    | replaced =>
      obtain ⟨old, -, rfl⟩ := Option.map_eq_some_iff.mp h
      exact onHttpConnect_effect (alike_asideOf rfl)
  | httpWrite conn error => exact httpWrite_effect h
  | httpRead conn reply => exact httpRead_effect h
  | idleOpen =>
    simp only [step] at h
    split at h
    · exact absurd h (by simp)
    · obtain rfl := Option.some.inj h
      exact ⟨_, .idleOpened, alike_asideOf rfl⟩
  | idleConnect conn error =>
    cases conn with
    | current =>
      simp only [step] at h
      split at h
      · exact absurd h (by simp)
      · obtain ⟨httpIdle, hdone, rfl⟩ := Option.map_eq_some_iff.mp h
        obtain ⟨n, rfl⟩ := HttpConn.connectDone_some hdone
        exact onHttpIdleConnect_effect (alike_asideOf rfl)
    | replaced =>
      obtain ⟨old, -, rfl⟩ := Option.map_eq_some_iff.mp h
      exact onHttpIdleConnect_effect (alike_asideOf rfl)
  | idleWrite conn error => exact idleWrite_effect h
  | idleRead conn reply => exact idleRead_effect h

/-- What holds at the start and is kept by every admissible effect holds throughout, when
it does not depend on what `Aside` has. -/
theorem run_invariant {ok : Client → Action → Prop} {I : Client → Prop} {user password : Bytes}
    (h : Run (step parseJson) ok (init user password) c) (h0 : I (init user password))
    (haside : ∀ c x, I c → I (c.aside x))
    (heffect : ∀ c a c', I c → ok c a → Effect parseJson c a c' → I c') : I c := by
  apply h.invariant h0
  intro c a c' hi hok hs
  obtain ⟨c₁, he, x, rfl⟩ := step_effect hs
  exact haside c₁ x (heffect c a c₁ hi hok he)

end

end O2Chat.Client
