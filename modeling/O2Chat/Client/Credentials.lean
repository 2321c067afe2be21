import O2Chat.Client.Idle

/-!
# Credentials of automatic logins

`onHttpConnect` logs in as `m_User`, which only the command line sets, with `m_Password`,
which every typed LOGIN replaces: with the first user that was entered and the last password.
-/
namespace O2Chat.Client

open O2Chat.Common O2Chat.Lib.Runs

/-- Every LOGIN sent has a user and a password that were entered together. -/
def PairsEntered (c : Client) : Prop :=
  ∀ name pass, .userLogin name pass ∈ c.sent → (name, pass) ∈ c.entered

/-- When a connection has been made, the user of the command line and the password entered last
are a pair that was entered, if there are both. -/
def AutoLoginPaired (c : Client) : Action → Prop
  | .httpConnect _ false => ∀ first ∈ c.entered.head?, ∀ last ∈ c.entered.getLast?,
      first.1 ≠ [] → last.2 ≠ [] → (first.1, last.2) ∈ c.entered
  | _ => True

instance (c : Client) (a : Action) : Decidable (AutoLoginPaired c a) :=
  match a with
  | .httpConnect _ false =>
    inferInstanceAs (Decidable (∀ first ∈ c.entered.head?, ∀ last ∈ c.entered.getLast?,
      first.1 ≠ [] → last.2 ≠ [] → (first.1, last.2) ∈ c.entered))
  | .httpConnect _ true | .input _ | .httpWrite _ _ | .httpRead _ _ | .idleOpen | .idleConnect _ _
  | .idleWrite _ _ | .idleRead _ _ => inferInstanceAs (Decidable True)

/-- Where `m_User` and `m_Password` come from. -/
structure FromEntered (c : Client) : Prop where
  user : ∃ first, c.entered.head? = some first ∧ first.1 = c.user
  password : ∃ last, c.entered.getLast? = some last ∧ last.2 = c.password

section

variable {parseJson : Bytes → Option Json} {user password : Bytes} {c c' : Client} {a : Action}

/-- One more request is a pair, if it is a LOGIN, and no pair is forgotten. -/
theorem pairs_append {request : Request} (hi : PairsEntered c)
    (hsent : c'.sent = c.sent ++ [request]) (hold : c.entered ⊆ c'.entered)
    (hnew : ∀ name pass, request = .userLogin name pass → (name, pass) ∈ c'.entered) :
    PairsEntered c' := by
  intro name pass hmem
  rw [hsent] at hmem
  rcases List.mem_append.mp hmem with h | h
  · exact hold (hi name pass h)
  · exact hnew name pass (List.mem_singleton.mp h).symm

theorem fromEntered_init (user password : Bytes) : FromEntered (init user password) :=
  ⟨⟨(user, password), rfl, rfl⟩, ⟨(user, password), rfl, rfl⟩⟩

/-- Only a typed LOGIN changes `m_Password`, and it is the one entered last. -/
theorem fromEntered_effect (hf : FromEntered c) (h : Effect parseJson c a c') : FromEntered c' := by
  cases h with
  | @typedLogin _ name pass hcmd =>
    obtain ⟨first, hfirst, huser⟩ := hf.user
    refine ⟨⟨first, ?_, huser⟩, ⟨(name, pass), List.getLast?_concat, rfl⟩⟩
    show (c.entered ++ [(name, pass)]).head? = some first
    rw [List.head?_append, hfirst]
    rfl
  | _ => exact ⟨hf.user, hf.password⟩

/-- What is asked of the credentials is what is asked of the two fields. -/
theorem autoLoginPaired_iff (hf : FromEntered c) (conn : Conn) :
    AutoLoginPaired c (.httpConnect conn false) ↔
      (c.user ≠ [] → c.password ≠ [] → (c.user, c.password) ∈ c.entered) := by
  obtain ⟨⟨first, hfirst, huser⟩, ⟨last, hlast, hpass⟩⟩ := hf
  rw [← huser, ← hpass]
  constructor
  · exact fun h => h first hfirst last hlast
  · intro h first' hfirst' last' hlast'
    obtain rfl := Option.some.inj (hfirst.symm.trans hfirst')
    obtain rfl := Option.some.inj (hlast.symm.trans hlast')
    exact h

theorem pairs_effect (hi : PairsEntered c) (hf : FromEntered c) (hok : AutoLoginPaired c a)
    (h : Effect parseJson c a c') : PairsEntered c' := by
  cases h with
  | quiet | stray | strayLogin | written | unwritten | answered | loggedIn | reconnected | idleOpened
  | idleSent | idleWritten | idleUnwritten | idleBroken => exact hi
  | @typed _ cmd request hcmd hne hapi =>
    refine pairs_append hi rfl (List.Subset.refl _) ?_
    intro name pass hreq
    rw [hreq] at hapi
    cases cmd with
    | login => exact absurd rfl hne
    | _ => cases hapi
  | @typedLogin _ name pass hcmd =>
    refine pairs_append hi rfl (List.subset_append_left _ _) ?_
    intro name' pass' hreq
    obtain ⟨rfl, rfl⟩ := Request.userLogin.inj hreq
    exact List.mem_append_right _ List.mem_cons_self
  | @autoLogin conn huser hpass =>
    refine pairs_append hi rfl (List.Subset.refl _) ?_
    intro name pass hreq
    obtain ⟨rfl, rfl⟩ := Request.userLogin.inj hreq
    exact (autoLoginPaired_iff hf conn).mp hok huser hpass

/-- The automatic LOGIN has whatever the two fields have. -/
theorem paired_of_pairs {conn : Conn} (h : c.step parseJson (.httpConnect conn false) = some c')
    (hf : FromEntered c) (hi : PairsEntered c') : AutoLoginPaired c (.httpConnect conn false) := by
  refine (autoLoginPaired_iff hf conn).mpr ?_
  intro huser hpass
  obtain ⟨c₁, he, x, rfl⟩ := step_effect h
  cases he with
  | quiet hsends => exact absurd hsends (by simp [sends, huser, hpass])
  | autoLogin => exact hi c.user c.password (List.mem_append_right _ List.mem_cons_self)

/-- In a run in which, whenever a connection is made, the user of the command line and the password
entered last are a pair, every LOGIN has a pair, and the next step keeps this exactly when they
are one there too. -/
theorem logins_are_pairs
    (h : Run (step parseJson) AutoLoginPaired (init user password) c) :
    PairsEntered c ∧ ∀ (a : Action) (c' : Client), c.step parseJson a = some c' →
      (PairsEntered c' ↔ AutoLoginPaired c a) := by
  have hboth : PairsEntered c ∧ FromEntered c := by
    apply run_invariant h
    · exact ⟨fun name pass hmem => absurd hmem List.not_mem_nil, fromEntered_init user password⟩
    · exact fun c x hc => ⟨hc.1, hc.2.user, hc.2.password⟩
    · exact fun c a c' hc hok he => ⟨pairs_effect hc.1 hc.2 hok he, fromEntered_effect hc.2 he⟩
  obtain ⟨hi, hf⟩ := hboth
  refine ⟨hi, ?_⟩
  intro a c' hs
  constructor
  · intro hi'
    cases a with
    | httpConnect conn error =>
      cases error with
      | true => trivial
      | false => exact paired_of_pairs hs hf hi'
    | _ => trivial
  · intro hok
    obtain ⟨c₁, he, x, rfl⟩ := step_effect hs
    have hi' : PairsEntered c₁ := pairs_effect hi hf hok he
    exact hi'

end

namespace Sample

/-- The automatic LOGIN of the command line. -/
def autoLogin : List Action :=
  [.httpConnect .current false, .httpWrite .current false, .httpRead .current (some (ok amy))]

/-- The connection breaks under a request and is made again. -/
def breaks : List Action :=
  line "status bob" ++ [.httpRead .current none, .httpConnect .current false]

end Sample

theorem logins_are_pairs_reconnect : ∃ c : Client,
    .userLogin (bytes "amy") (bytes "password") ∈ c.sent ∧ c.sent.length = 3 ∧ PairsEntered c := by
  have hlist : (runList (step (Sample.parseJson [Sample.amy])) AutoLoginPaired
      (init (bytes "amy") (bytes "password")) (Sample.autoLogin ++ Sample.breaks)).any
        (fun c => .userLogin (bytes "amy") (bytes "password") ∈ c.sent ∧ c.sent.length = 3) =
          true := by decide +kernel
  obtain ⟨c, hrun, hc⟩ := exists_run hlist
  obtain ⟨hmem, hlength⟩ := of_decide_eq_true hc
  exact ⟨c, hmem, hlength, (logins_are_pairs hrun).1⟩

/-- After a typed LOGIN for another user the automatic one mixes the two. -/
theorem reconnect_mixes_credentials : ¬ ∀ c,
    Run (step (Sample.parseJson [Sample.amy, Sample.bob])) anyStep
      (init (bytes "amy") (bytes "password")) c → PairsEntered c := by
  intro hclaim
  have hlist : (runList (step (Sample.parseJson [Sample.amy, Sample.bob])) anyStep
      (init (bytes "amy") (bytes "password"))
      (Sample.autoLogin ++ Sample.exchange "login bob letmein1" (Sample.ok Sample.bob) ++
        Sample.breaks)).any
        (fun c => .userLogin (bytes "amy") (bytes "letmein1") ∈ c.sent ∧
          (bytes "amy", bytes "letmein1") ∉ c.entered) = true := by decide +kernel
  obtain ⟨c, hrun, hc⟩ := exists_run hlist
  obtain ⟨hsent, hnot⟩ := of_decide_eq_true hc
  exact hnot (hclaim c hrun _ _ hsent)

end O2Chat.Client
