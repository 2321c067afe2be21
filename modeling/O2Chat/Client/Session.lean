import O2Chat.Client.Replies

/-!
# Failed logins

A typed LOGIN sets `m_Password` when it is sent, the other fields of the session when its
reply has come. A LOGIN that fails leaves the session as it was when it carried the
password of the session.
-/
namespace O2Chat.Client

open O2Chat.Common O2Chat.Lib.Runs

/-- The password of a LOGIN. -/
def Request.loginPassword : Request → Option Bytes
  | .userLogin _ pass => some pass
  | _ => none

/-- A LOGIN carries the password that `m_Password` had when it was sent. -/
def Sent.KeepsPassword (r : Sent) : Prop :=
  r.cmd = .login → r.request.loginPassword = some r.before.password

instance (r : Sent) : Decidable r.KeepsPassword := inferInstanceAs (Decidable (_ → _))

/-- The requests that will have no reply: a write fails, or the connection is replaced. -/
def unanswered (c : Client) : Action → List Sent
  | .httpWrite .current true => c.http.writing.take 1
  | .httpRead _ none => c.http.outstanding
  | .idleRead _ reply => if isError reply = true then c.http.outstanding else []
  | _ => []

/-- The request with a reply that sets no session. -/
def refused (parseJson : Bytes → Option Json) (c : Client) : Action → List Sent
  | .httpRead .current (some reply) =>
    if loginReply parseJson reply = none then c.http.awaiting.take 1 else []
  | _ => []

/-- A LOGIN that is refused, or that has no reply while a user is logged in, carries the
password of the session. -/
def FailuresKeepPassword (parseJson : Bytes → Option Json) (c : Client) (a : Action) : Prop :=
  (∀ r ∈ c.unanswered a, r.before.selfId ≠ 0 → r.KeepsPassword) ∧
    ∀ r ∈ c.refused parseJson a, r.KeepsPassword

instance (parseJson : Bytes → Option Json) (c : Client) (a : Action) :
    Decidable (FailuresKeepPassword parseJson c a) := inferInstanceAs (Decidable (_ ∧ _))

/-- The password of the LOGIN that has set the session. -/
def LoginPassword (c : Client) : Prop :=
  c.selfId ≠ 0 →
    ∃ name, c.login = some { request := .userLogin name c.password, uid := c.selfId }

/-- The step after which a LOGIN has failed leaves the session from which it was sent
exactly when it has kept the password. -/
def FailureKeepsSession (parseJson : Bytes → Option Json) (c : Client) : Prop :=
  ∀ (reply : HttpReply) (r : Sent) (c' : Client), c.http.awaiting.head? = some r →
    r.cmd = .login → loginReply parseJson reply = none →
    c.step parseJson (.httpRead .current (some reply)) = some c' →
    (c'.session = r.before ↔ r.KeepsPassword)

/-! ## The invariant -/

/-- What holds of the request that waits: only a typed LOGIN has changed the session, and
only the password. -/
structure Pending (c : Client) (r : Sent) : Prop where
  last : r.cmd = c.lastCmd
  before : r.before = { c.session with password := r.before.password }
  password : (r.cmd = .login ∧ ∃ name, r.request = .userLogin name c.password) ∨
    (r.cmd ≠ .login ∧ r.before.password = c.password)

/-- `m_Password`, or what it was before the request that waits. -/
def settledPassword (c : Client) : Bytes :=
  match c.http.outstanding with
  | [] => c.password
  | r :: _ => r.before.password

structure Settled (c : Client) : Prop where
  pending : c.http.outstanding = [] ∨ ∃ r, c.http.outstanding = [r] ∧ Pending c r
  login : c.selfId ≠ 0 →
    ∃ name, c.login = some { request := .userLogin name c.settledPassword, uid := c.selfId }

section

variable {parseJson : Bytes → Option Json} {user password : Bytes} {c c' : Client} {a : Action}
  {r : Sent} {rest : List Sent}

theorem settledPassword_of_nil (h : c.http.outstanding = []) : c.settledPassword = c.password := by
  simp [settledPassword, h]

theorem settledPassword_of_single (h : c.http.outstanding = [r]) :
    c.settledPassword = r.before.password := by simp [settledPassword, h]

theorem Pending.keepsPassword_iff (h : Pending c r) (hlogin : r.cmd = .login) :
    r.KeepsPassword ↔ r.before.password = c.password := by
  rcases h.password with ⟨-, name, hreq⟩ | ⟨hne, -⟩
  · constructor
    · intro hkeeps
      have hpass := hkeeps hlogin
      rw [hreq] at hpass
      exact (Option.some.inj hpass).symm
    · intro heq _
      rw [hreq, heq]
      rfl
  · exact absurd hlogin hne

theorem Settled.congr (hs : Settled c) (hout : c'.http.outstanding = c.http.outstanding)
    (hlast : c'.lastCmd = c.lastCmd) (hsession : c'.session = c.session)
    (hlogin : c'.login = c.login) : Settled c' := by
  have hid : c'.selfId = c.selfId := congrArg Session.selfId hsession
  have hpass : c'.password = c.password := congrArg Session.password hsession
  constructor
  · rw [hout]
    rcases hs.pending with hnil | ⟨r, hr, hp⟩
    · exact .inl hnil
    · refine .inr ⟨r, hr, hlast ▸ hp.last, ?_, ?_⟩
      · rw [hsession]
        exact hp.before
      · rw [hpass]
        exact hp.password
  · intro hne
    have hsettled : c'.settledPassword = c.settledPassword := by
      simp only [settledPassword, hout, hpass]
    rw [hsettled, hlogin, hid]
    exact hs.login (hid ▸ hne)

/-- A request is sent while none waits. -/
theorem settled_sendRequest (hs : Settled c) (cmd : InputCmd) (request : Request) (pass : Bytes)
    (hnone : c.http.outstanding = []) (hother : cmd ≠ .login → pass = c.password)
    (hlogin : cmd = .login → ∃ name, request = .userLogin name pass) :
    Settled { c.sendRequest cmd request with password := pass } := by
  have hout : ({ c.sendRequest cmd request with password := pass } : Client).http.outstanding =
      [{ cmd, request, before := c.session }] := outstanding_sendRequest hnone cmd request
  constructor
  · refine .inr ⟨_, hout, rfl, rfl, ?_⟩
    by_cases hcmd : cmd = .login
    · exact .inl ⟨hcmd, hlogin hcmd⟩
    · exact .inr ⟨hcmd, (hother hcmd).symm⟩
  · intro hid
    rw [settledPassword_of_single hout]
    obtain ⟨name, hl⟩ := hs.login hid
    rw [settledPassword_of_nil hnone] at hl
    exact ⟨name, hl⟩

/-- The request that waits is given up, and has kept the password. -/
theorem settled_dropped (hs : Settled c) (writing awaiting : List Sent)
    (hnone : (c.withHttp writing awaiting).http.outstanding = [])
    (hkeeps : ∀ r ∈ c.http.outstanding, r.before.selfId ≠ 0 → r.KeepsPassword) :
    Settled (c.withHttp writing awaiting) := by
  constructor
  · exact .inl hnone
  · intro hid
    rw [settledPassword_of_nil hnone]
    obtain ⟨name, hl⟩ := hs.login hid
    have hsame : c.settledPassword = c.password := by
      rcases hs.pending with hnil | ⟨r, hr, hp⟩
      · exact settledPassword_of_nil hnil
      · rw [settledPassword_of_single hr]
        by_cases hlogin : r.cmd = .login
        · have hbefore : r.before.selfId = c.selfId := by rw [hp.before]; rfl
          apply (hp.keepsPassword_iff hlogin).mp
          apply hkeeps r (by rw [hr]; exact List.mem_singleton_self r)
          rw [hbefore]
          exact hid
        · rcases hp.password with ⟨hyes, -⟩ | ⟨-, heq⟩
          · exact absurd hyes hlogin
          · exact heq
    rw [hsame] at hl
    exact ⟨name, hl⟩

theorem Settled.of_awaiting (hs : Settled c) (ha : c.http.awaiting = r :: rest) :
    c.http.outstanding = [r] ∧ rest = [] ∧ c.http.writing = [] ∧ Pending c r := by
  have hout : c.http.outstanding = r :: (rest ++ c.http.writing) := by
    show c.http.awaiting ++ c.http.writing = _
    rw [ha, List.cons_append]
  rcases hs.pending with hnil | ⟨r', hr, hp⟩
  · rw [hnil] at hout
    cases hout
  · rw [hr] at hout
    obtain ⟨rfl, htail⟩ := List.cons.inj hout
    obtain ⟨hrest, hwriting⟩ := List.append_eq_nil_iff.mp htail.symm
    exact ⟨hr, hrest, hwriting, hp⟩

theorem Settled.of_writing (hs : Settled c) (hw : c.http.writing = r :: rest) :
    c.http.outstanding = [r] ∧ rest = [] ∧ c.http.awaiting = [] := by
  have hout : c.http.outstanding = c.http.awaiting ++ r :: rest := by
    show c.http.awaiting ++ c.http.writing = _
    rw [hw]
  rcases hs.pending with hnil | ⟨r', hr, -⟩
  · simp [hnil] at hout
  · rw [hr] at hout
    cases ha : c.http.awaiting with
    | nil =>
      rw [ha, List.nil_append] at hout
      obtain ⟨rfl, htail⟩ := List.cons.inj hout
      exact ⟨hr, htail.symm, rfl⟩
    | cons r₁ more => simp [ha] at hout

theorem settled_effect (hs : Settled c) (hcall : OneCall c) (hfirst : RepliesFirst c a)
    (hkeep : FailuresKeepPassword parseJson c a) (h : Effect parseJson c a c') : Settled c' := by
  have hsends : ∀ cmd, c.sends a = some cmd → c.http.outstanding = [] := by
    intro cmd hcmd
    exact (hfirst.1 (by rw [hcmd]; exact Option.some_ne_none cmd)).1
  cases h with
  | stray hstray => exact absurd hstray (not_stray hcall hfirst)
  | strayLogin hstray => exact absurd hstray (not_stray hcall hfirst)
  | quiet | idleOpened | idleSent | idleWritten | idleUnwritten => exact hs.congr rfl rfl rfl rfl
  | @typed _ cmd request hcmd hne hapi =>
    have hs' := settled_sendRequest hs cmd request c.password (hsends _ hcmd) (fun _ => rfl)
      fun hlogin => absurd hlogin hne
    exact hs'.congr rfl rfl rfl rfl
  | @typedLogin _ name pass hcmd =>
    have hs' := settled_sendRequest hs .login (.userLogin name pass) pass (hsends _ hcmd)
      (fun hne => absurd rfl hne) fun _ => ⟨name, rfl⟩
    exact hs'.congr rfl rfl rfl rfl
  | autoLogin huser hpass =>
    have hs' := settled_sendRequest hs .login (.userLogin c.user c.password) c.password
      (hsends _ (if_pos ⟨huser, hpass⟩)) (fun _ => rfl) fun _ => ⟨c.user, rfl⟩
    exact hs'.congr rfl rfl rfl rfl
  | written hw => exact hs.congr (HttpConn.outstanding_written hw) rfl rfl rfl
  | @unwritten r rest hw =>
    obtain ⟨hout, hrest, hawaiting⟩ := hs.of_writing hw
    apply settled_dropped hs _ _
    · show c.http.awaiting ++ rest = []
      rw [hawaiting, hrest, List.nil_append]
    · intro r' hr'
      apply hkeep.1
      rw [hout] at hr'
      simpa [unanswered, hw] using hr'
  | @answered reply r rest ha hn =>
    obtain ⟨hout, hrest, hwriting, hp⟩ := hs.of_awaiting ha
    apply settled_dropped hs _ _
    · show rest ++ c.http.writing = []
      rw [hrest, hwriting, List.nil_append]
    · intro r' hr' _ hlogin
      rw [hout] at hr'
      obtain rfl := List.mem_singleton.mp hr'
      have hnone := hn (hp.last ▸ hlogin)
      exact hkeep.2 r' (by simp [refused, hnone, ha]) hlogin
  | @loggedIn reply r rest resp ha hlast hreply =>
    obtain ⟨-, hrest, hwriting, hp⟩ := hs.of_awaiting ha
    have hnone :
        ((c.withHttp c.http.writing rest).logIn (some r.request) resp).http.outstanding = [] := by
      show rest ++ c.http.writing = []
      rw [hrest, hwriting, List.nil_append]
    constructor
    · exact .inl hnone
    · intro _
      rw [settledPassword_of_nil hnone]
      rcases hp.password with ⟨-, name, hreq⟩ | ⟨hne, -⟩
      · exact ⟨name, congrArg (fun request => some ({ request, uid := resp.uid } : Login)) hreq⟩
      · exact absurd (hp.last.trans hlast) hne
  | reconnected => exact settled_dropped hs [] [] rfl hkeep.1
  | @idleBroken conn reply herror =>
    have hs' : Settled (c.withHttp [] []) := by
      apply settled_dropped hs [] [] rfl
      intro r hr
      apply hkeep.1
      simpa [unanswered, herror] using hr
    exact hs'.congr rfl rfl rfl rfl

theorem run_settled (h : Run (step parseJson)
    (fun c a => RepliesFirst c a ∧ FailuresKeepPassword parseJson c a) (init user password) c) :
    Settled c := by
  apply run_invariant (run_oneCall h fun _ _ hok => hok.1).1
  · exact ⟨.inl rfl, fun hid => absurd rfl hid⟩
  · exact fun c x hs => hs.congr rfl rfl rfl rfl
  · exact fun c a c' hs hok he => settled_effect hs hok.2 hok.1.1 hok.1.2 he

/-- In a run that sends every request when nothing is outstanding, in which no reply comes on a
replaced connection, and in which the LOGINs that fail carry the password of the session: whenever
no request waits and a user is logged in, `m_Password` is the password of the LOGIN that has set
the session. A LOGIN whose reply sets no session leaves the session as it was exactly when it
carried its password. -/
theorem failed_login_keeps_session (h : Run (step parseJson)
    (fun c a => RepliesFirst c a ∧ FailuresKeepPassword parseJson c a) (init user password) c) :
    (c.http.outstanding = [] → LoginPassword c) ∧ FailureKeepsSession parseJson c := by
  have hs := run_settled h
  constructor
  · intro hnone hid
    rw [← settledPassword_of_nil hnone]
    exact hs.login hid
  · intro reply r c' hhead hlogin hnone hstep
    obtain ⟨rest, ha⟩ := List.head?_eq_some_iff.mp hhead
    obtain ⟨-, -, -, hp⟩ := hs.of_awaiting ha
    have hsame : c'.session = c.session := by
      obtain ⟨c₁, he, x, rfl⟩ := step_effect hstep
      cases he with
      | quiet _ hreply => exact absurd hreply (by simp [Action.reply])
      | answered | stray => rfl
      | loggedIn _ _ hreply | strayLogin _ _ hreply => rw [hnone] at hreply; cases hreply
    rw [hsame, hp.keepsPassword_iff hlogin]
    constructor
    · intro heq
      rw [← heq]
      rfl
    · intro heq
      rw [hp.before, heq]
      rfl

end

namespace Sample

def refusal : HttpReply := { status := 403, body := bytes "wrong password" }

/-- A line is typed, its request is written and has its reply. -/
def exchange (msg : String) (reply : HttpReply) : List Action :=
  line msg ++ [.httpRead .current (some reply)]

def amyIsIn : List Action :=
  .httpConnect .current false :: exchange "login amy password" (ok amy)

def failsAlike : List Action := amyIsIn ++ exchange "login bob password" refusal

def failsOtherwise : List Action := amyIsIn ++ exchange "login bob letmein1" refusal

end Sample

theorem failed_login_keeps_session_amy : ∃ c : Client, c.selfId = 1 ∧ c.http.outstanding = [] ∧
    c.sent.length = 2 ∧ (c.http.outstanding = [] → LoginPassword c) ∧
    FailureKeepsSession (Sample.parseJson [Sample.amy]) c := by
  have hlist : (runList (step (Sample.parseJson [Sample.amy]))
      (fun c a => RepliesFirst c a ∧ FailuresKeepPassword (Sample.parseJson [Sample.amy]) c a)
      (init [] []) Sample.failsAlike).any
        (fun c => c.selfId = 1 ∧ c.http.outstanding = [] ∧ c.sent.length = 2) = true := by
    decide +kernel
  obtain ⟨c, hrun, hc⟩ := exists_run hlist
  obtain ⟨hid, hnone, hsent⟩ := of_decide_eq_true hc
  exact ⟨c, hid, hnone, hsent, failed_login_keeps_session hrun⟩

/-- After a refused LOGIN with another password the session has that password. -/
theorem failed_login_changes_password : ¬ ∀ c, Run (step (Sample.parseJson [Sample.amy]))
    RepliesFirst (init [] []) c → c.http.outstanding = [] → LoginPassword c := by
  intro hclaim
  have hlist : (runList (step (Sample.parseJson [Sample.amy])) RepliesFirst (init [] [])
      Sample.failsOtherwise).any (fun c => c.http.outstanding = [] ∧ c.selfId = 1 ∧
        c.password = bytes "letmein1" ∧ c.login = some
          { request := .userLogin (bytes "amy") (bytes "password"), uid := 1 }) = true := by
    decide +kernel
  obtain ⟨c, hrun, hc⟩ := exists_run hlist
  obtain ⟨hnone, hid, hpass, hlogin⟩ := of_decide_eq_true hc
  obtain ⟨name, hother⟩ := hclaim c hrun hnone (by rw [hid]; decide)
  rw [hlogin, hpass, hid] at hother
  revert hother
  simp only [Option.some.injEq, Login.mk.injEq, Request.userLogin.injEq]
  intro hother
  exact absurd hother.1.2 (by decide)

end O2Chat.Client
