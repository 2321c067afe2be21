import O2Chat.Client.Session

/-!
# The idle connection

The IDLE request has the session of the moment in which the idle connection has been made.
A later LOGIN opens no new idle connection while there is one, so it must be for the same
user and password.
-/
namespace O2Chat.Client

open O2Chat.Common O2Chat.Lib.Runs

/-- A LOGIN that succeeds while an IDLE request is out is for the user and the password of
the last one; when the idle connection has been made, `m_Password` is that of the last
successful LOGIN. -/
def IdleUserStays (parseJson : Bytes → Option Json) (c : Client) : Action → Prop
  | .httpRead .current (some reply) =>
    ∀ r ∈ c.http.awaiting.head?, ∀ resp ∈ loginReply parseJson reply, r.cmd = .login →
      c.httpIdle.outstanding ≠ [] → ∃ l ∈ c.login,
        resp.uid = l.uid ∧ r.request.loginPassword = l.request.loginPassword
  | .idleConnect _ false => ∃ l ∈ c.login, l.request.loginPassword = some c.password
  | _ => True

instance (parseJson : Bytes → Option Json) (c : Client) (a : Action) :
    Decidable (IdleUserStays parseJson c a) :=
  match a with
  | .httpRead .current (some reply) =>
    inferInstanceAs (Decidable (∀ r ∈ c.http.awaiting.head?, ∀ resp ∈ loginReply parseJson reply,
      r.cmd = .login → c.httpIdle.outstanding ≠ [] → ∃ l ∈ c.login,
        resp.uid = l.uid ∧ r.request.loginPassword = l.request.loginPassword))
  | .idleConnect _ false =>
    inferInstanceAs (Decidable (∃ l ∈ c.login, l.request.loginPassword = some c.password))
  | .input _ | .httpConnect _ _ | .httpWrite _ _ | .httpRead .replaced _ | .httpRead .current none
  | .idleOpen | .idleConnect _ true | .idleWrite _ _ | .idleRead _ _ =>
    inferInstanceAs (Decidable True)

/-- An IDLE request with the id and the password of the LOGIN that has set the session. -/
def OfLogin (c : Client) (r : Request) : Prop :=
  ∃ name pass uid heartbit,
    c.login = some { request := .userLogin name pass, uid } ∧ r = .idle uid heartbit pass

/-- The session is that of a LOGIN, and so are the IDLE requests. -/
structure IdleOfLogin (c : Client) : Prop where
  fits : LastCmdFits c
  login : ∀ l, c.login = some l →
    l.uid = c.selfId ∧ ∃ name pass, l.request = .userLogin name pass
  idle : ∀ r ∈ c.httpIdle.outstanding, OfLogin c r

section

variable {parseJson : Bytes → Option Json} {user password : Bytes} {c c' : Client} {a : Action}

theorem userLogin_of_cmd {r : Request} (h : r.cmd = .userLogin) :
    ∃ name pass, r = .userLogin name pass := by
  cases r with
  | userLogin name pass => exact ⟨name, pass, rfl⟩
  | _ => cases h

theorem idle_effect (hi : IdleOfLogin c) (hcall : OneCall c) (hfirst : RepliesFirst c a)
    (hstays : IdleUserStays parseJson c a) (h : Effect parseJson c a c') : IdleOfLogin c' := by
  have hfits := fits_effect hi.fits hfirst h
  cases h with
  | stray hstray => exact absurd hstray (not_stray hcall hfirst)
  | strayLogin hstray => exact absurd hstray (not_stray hcall hfirst)
  | quiet => exact hi
  | typed | typedLogin | autoLogin | written | unwritten | answered | reconnected | idleOpened =>
    exact ⟨hfits, hi.login, hi.idle⟩
  | @loggedIn reply r rest resp ha hlast hreply =>
    obtain ⟨hcmd, hapi⟩ := hi.fits r (List.mem_append_left _ (ha ▸ List.mem_cons_self))
    have hlogin : r.cmd = .login := hcmd.trans hlast
    rw [hlogin] at hapi
    obtain ⟨name, pass, hreq⟩ := userLogin_of_cmd (Option.some.inj hapi).symm
    refine ⟨hfits, ?_, ?_⟩
    · intro l hl
      obtain rfl := Option.some.inj hl
      exact ⟨rfl, name, pass, hreq⟩
    · intro idle hidle
      obtain ⟨name', pass', uid, heartbit, hl, rfl⟩ := hi.idle idle hidle
      obtain ⟨l, hmem, huid, hpass⟩ := hstays r (by simp [ha]) resp hreply hlogin
        (List.ne_nil_of_mem hidle)
      obtain rfl := Option.some.inj (hl.symm.trans hmem)
      rw [hreq] at hpass
      have hsame : pass = pass' := Option.some.inj hpass
      refine ⟨name, pass, resp.uid, heartbit, ?_, ?_⟩
      · exact congrArg (fun request => some ({ request, uid := resp.uid } : Login)) hreq
      · rw [hsame, huid]
  | idleSent =>
    refine ⟨hfits, hi.login, ?_⟩
    intro idle hidle
    have hidle' : idle ∈ c.httpIdle.awaiting ++
        (c.httpIdle.writing ++ [.idle c.selfId c.heartBit c.password]) := hidle
    rw [← List.append_assoc] at hidle'
    rcases List.mem_append.mp hidle' with hold | hnew
    · exact hi.idle idle hold
    · obtain rfl := List.mem_singleton.mp hnew
      obtain ⟨⟨request, uid⟩, hl, hpass⟩ := hstays
      obtain ⟨huid, name, pass, hreq⟩ := hi.login _ hl
      dsimp only at huid hreq hpass
      subst huid hreq
      obtain rfl := Option.some.inj hpass
      exact ⟨name, c.password, c.selfId, c.heartBit, hl, rfl⟩
  | idleWritten hw =>
    refine ⟨hfits, hi.login, ?_⟩
    intro idle hidle
    exact hi.idle idle (HttpConn.outstanding_written hw ▸ hidle)
  | idleUnwritten hw =>
    refine ⟨hfits, hi.login, ?_⟩
    intro idle hidle
    exact hi.idle idle (HttpConn.mem_of_unwritten hw hidle)
  | idleBroken =>
    refine ⟨hfits, hi.login, ?_⟩
    intro idle hidle
    exact absurd hidle List.not_mem_nil

/-- In a run that sends every request when nothing is outstanding, and in which no reply comes on
a replaced connection, the IDLE requests that are out on the idle connection are those of the
last successful LOGIN, when a LOGIN for another user or with another password succeeds only
while none is out, and no other LOGIN is typed between a successful one and the idle
connection. -/
theorem idle_requests_of_login (h : Run (step parseJson)
    (fun c a => RepliesFirst c a ∧ IdleUserStays parseJson c a) (init user password) c)
    {r : Request} (hr : r ∈ c.httpIdle.outstanding) : OfLogin c r := by
  have hi : IdleOfLogin c := by
    apply run_invariant (run_oneCall h fun _ _ hok => hok.1).1
    · refine ⟨fun _ hr => absurd hr List.not_mem_nil, ?_, fun _ hr => absurd hr List.not_mem_nil⟩
      intro l hl
      cases hl
    · exact fun c x hi => ⟨hi.fits, hi.login, hi.idle⟩
    · exact fun c a c' hi hok he => idle_effect hi hok.2 hok.1.1 hok.1.2 he
  exact hi.idle r hr

end

namespace Sample

/-- The idle connection is made and its IDLE request is written. -/
def idleIsOut : List Action :=
  [.idleOpen, .idleConnect .current false, .idleWrite .current false]

def amyTwice : List Action := amyIsIn ++ idleIsOut ++ exchange "login amy password" (ok amy)

def amyThenBob : List Action := amyIsIn ++ idleIsOut ++ exchange "login bob letmein1" (ok bob)

end Sample

theorem idle_requests_of_login_amy : ∃ c : Client, c.selfId = 1 ∧ c.sent.length = 2 ∧
    c.idleIsOpen = true ∧ OfLogin c (.idle 1 0 (bytes "password")) := by
  have hlist : (runList (step (Sample.parseJson [Sample.amy]))
      (fun c a => RepliesFirst c a ∧ IdleUserStays (Sample.parseJson [Sample.amy]) c a)
      (init [] []) Sample.amyTwice).any (fun c => c.selfId = 1 ∧ c.sent.length = 2 ∧
        c.idleIsOpen = true ∧ .idle 1 0 (bytes "password") ∈ c.httpIdle.outstanding) = true := by
    decide +kernel
  obtain ⟨c, hrun, hc⟩ := exists_run hlist
  obtain ⟨hid, hsent, hopen, hr⟩ := of_decide_eq_true hc
  exact ⟨c, hid, hsent, hopen, idle_requests_of_login hrun hr⟩

/-- After a second user has logged in, the IDLE request that is out is the first one's. -/
theorem idle_request_of_first_user : ¬ ∀ c,
    Run (step (Sample.parseJson [Sample.amy, Sample.bob])) RepliesFirst (init [] []) c →
    c.idleIsOpen = true → ∀ r ∈ c.httpIdle.outstanding, OfLogin c r := by
  intro hclaim
  have hlist : (runList (step (Sample.parseJson [Sample.amy, Sample.bob])) RepliesFirst
      (init [] []) Sample.amyThenBob).any (fun c => c.idleIsOpen = true ∧
        .idle 1 0 (bytes "password") ∈ c.httpIdle.outstanding ∧ c.login = some
          { request := .userLogin (bytes "bob") (bytes "letmein1"), uid := 2 }) = true := by
    decide +kernel
  obtain ⟨c, hrun, hc⟩ := exists_run hlist
  obtain ⟨hopen, hr, hlogin⟩ := of_decide_eq_true hc
  obtain ⟨name, pass, uid, heartbit, hother, hidle⟩ := hclaim c hrun hopen _ hr
  rw [hlogin] at hother
  have huid : 2 = uid := congrArg Login.uid (Option.some.inj hother)
  have hone : 1 = uid := (Request.idle.inj hidle).1
  omega

end O2Chat.Client
