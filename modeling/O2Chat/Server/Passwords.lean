import O2Chat.Server.WorkerRuns

/-!
# Passwords

The store keeps the CRC-32 checksum of the registered password, and every command
compares the checksum of the password it is given. A command is answered with
`wrong password` exactly when the two checksums differ.
-/
namespace O2Chat.Server

open O2Chat.Common O2Chat.Db O2Chat.Lib.Interleaving O2Chat.Lib.Runs

def wrongPassword : Reply := .sendErrorResponse 403 .errConstraint (bytes "wrong password")

/-- The user that the operation has stored. -/
def createdUser (e : Event) : Option User :=
  match e with
  | ⟨_, .db (.createUser _ _ _), user, _⟩ => if user.id = 0 then none else some user
  | _ => none

/-- The task is a `USER_CREATE` that has stored the user. -/
def Created (t : Thread) (user : User) : Prop :=
  t.tag.cmd = .userCreate ∧ ∃ e ∈ t.hist, createdUser e = some user

/-- The task has to authenticate as the user, by name or by uid. -/
def AuthenticatesAs (task : Task) (user : User) : Prop :=
  match task.cmd with
  | .userLogin => task.request.user = user.name
  | .idle | .userStatus | .userHistory | .messageSend | .chatCreate | .chatAdduser
  | .messageSendChat => task.request.uid = user.id
  | _ => False

/-- The user was already stored at the first operation of the thread. -/
def FindsStored (t : Thread) (user : User) : Prop :=
  ∃ s ∈ firstStore t.hist, user.id ∈ s.userIds

instance (t : Thread) (user : User) : Decidable (Created t user) :=
  inferInstanceAs (Decidable (_ ∧ ∃ e ∈ t.hist, createdUser e = some user))

instance (t : Thread) (user : User) : Decidable (FindsStored t user) :=
  inferInstanceAs (Decidable (∃ s ∈ firstStore t.hist, user.id ∈ s.userIds))

/-! ## Checksums -/

theorem encryptedPass_eq_iff (env : Extern) (p q : Bytes) :
    encryptedPass env p = encryptedPass env q ↔ env.crc32Type p = env.crc32Type q := by
  constructor
  · intro h
    have hint : crc32 env p = crc32 env q := decimalInt_injective h
    exact UInt32.toBitVec_inj.mp (BitVec.toInt_inj.mp hint)
  · intro h
    unfold encryptedPass crc32
    rw [h]

/-! ## The creation of a user -/

def NoCreate (o : Op) : Prop := ∀ name pass st, o ≠ .db (.createUser name pass st)

theorem createdUser_eq_none {e : Event} (h : NoCreate e.op) : createdUser e = none := by
  obtain ⟨pre, op, res, post⟩ := e
  cases op with
  | db c =>
    cases c with
    | createUser name pass st => exact absurd rfl (h name pass st)
    | _ => rfl
  | _ => rfl

theorem noCreate_send (r : Reply) : (send r).All NoCreate := by
  refine ⟨?_, fun _ => trivial⟩
  intro name pass st heq
  cases heq

theorem noCreate_time : time.All NoCreate := by
  refine ⟨?_, fun _ => trivial⟩
  intro name pass st heq
  cases heq

section

variable {env : Extern} {p : Workers}

/-- A created user has the requested name and the checksum of the requested password. -/
theorem Created.stored (htrack : p.Tracked Op.exec (processTask env)) {t : Thread}
    (ht : t ∈ p.threads) {user : User} (hc : Created t user) : ∃ e ∈ t.hist,
    user ∈ e.post.storage.users ∧ user.name = t.tag.request.user ∧
      user.password = encryptedPass env t.tag.request.password := by
  obtain ⟨hcmd, e, he, hcreated⟩ := hc
  have hfollows := htrack t ht
  unfold processTask at hfollows
  rw [hcmd] at hfollows
  rcases hfollows.of_op with ⟨hnil, -⟩ | ⟨pre, v, post, later, hexec, hhist, hrest⟩
  · rw [hnil] at he
    cases he
  have hothers : ∀ e ∈ later, NoCreate e.op := by
    refine (Prog.All.follows ?_ hrest).1
    rw [Prog.pure_bind]
    split
    · exact noCreate_send _
    · exact noCreate_time.bind fun now => noCreate_send _
  rw [hhist] at he ⊢
  rcases List.mem_append.mp he with hlater | hfirst
  · rw [createdUser_eq_none (hothers e hlater)] at hcreated
    cases hcreated
  obtain rfl := List.mem_singleton.mp hfirst
  refine ⟨_, he, ?_⟩
  obtain ⟨hnonzero, rfl⟩ : v.id ≠ 0 ∧ v = user := by simpa [createdUser] using hcreated
  obtain ⟨⟨s, v'⟩, hcall, heq⟩ := Option.map_eq_some_iff.mp hexec
  obtain ⟨rfl, rfl⟩ := Prod.mk.inj heq
  rcases Storage.createUser_cases hcall with ⟨-, -, hv⟩ | ⟨-, -, -, hv, hs⟩
  · exact absurd (by rw [hv]) hnonzero
  · refine ⟨?_, by rw [hv], by rw [hv]⟩
    rw [hs]
    simp

/-- Rows with one id agree in their name and password, whenever they were stored. -/
theorem row_unique {s₁ s₂ s : Storage} (hs : s.Integrity) (h₁ : s₁.Extends s) (h₂ : s₂.Extends s)
    {u v : User} (hu : u ∈ s₁.users) (hv : v ∈ s₂.users) (hid : u.id = v.id) :
    u.name = v.name ∧ u.password = v.password := by
  obtain ⟨u', hu', hukey⟩ := h₁.user hu
  obtain ⟨v', hv', hvkey⟩ := h₂.user hv
  obtain ⟨huid, -, huname, hupass⟩ := User.of_key_eq hukey
  obtain ⟨hvid, -, hvname, hvpass⟩ := User.of_key_eq hvkey
  obtain rfl := hs.user_eq hu' hv' (by omega)
  exact ⟨huname.symm.trans hvname, hupass.symm.trans hvpass⟩

/-! ## The check of a password -/

def NotRefused (o : Op) : Prop := ∀ rows, o ≠ .reply wrongPassword rows

theorem notRefused_call (c : Call) : (call c).All NotRefused := by
  refine ⟨?_, fun _ => trivial⟩
  intro rows heq
  cases heq

theorem notRefused_time : time.All NotRefused := by
  refine ⟨?_, fun _ => trivial⟩
  intro rows heq
  cases heq

theorem notRefused_sendRows {r : Reply} (hr : r ≠ wrongPassword) (rows : List Message) :
    (sendRows r rows).All NotRefused := by
  refine ⟨?_, fun _ => trivial⟩
  intro rows' heq
  exact hr (Op.reply.inj heq).1

theorem notRefused_send {r : Reply} (hr : r ≠ wrongPassword) : (send r).All NotRefused :=
  notRefused_sendRows hr []

theorem notRefused_lookupCheckPassByName (env : Extern) (name : Bytes) (task : Task) :
    (lookupCheckPassByName env name task false).All NotRefused := by
  refine (notRefused_call _).bind fun users => ?_
  split
  · exact (notRefused_send (by decide)).bind fun _ => trivial
  · rw [if_neg (by simp)]
    trivial
  · exact (notRefused_send (by decide)).bind fun _ => trivial

theorem notRefused_toApiFormat (msgs : List Message) : (toApiFormat msgs).All NotRefused := by
  refine Prog.All.traverse (fun msg => ?_) msgs
  exact (notRefused_call _).bind fun _ => (notRefused_call _).bind fun _ => trivial

theorem notRefused_withChat {task : Task} {k : Chat → Work Unit}
    (hk : ∀ chat, (k chat).All NotRefused) : (withChat task k).All NotRefused := by
  refine (notRefused_call _).bind fun chats => ?_
  split
  · exact hk _
  · exact notRefused_send (by decide)

theorem sendOkResponse_ne (body : Bytes) : Reply.sendOkResponse body ≠ wrongPassword := by
  intro heq
  cases heq

/-- The program checks credentials first; the rest does nothing without a user and
never refuses the password. -/
def StartsWith (check : Work User) (program : Work Unit) : Prop :=
  ∃ rest : User → Work Unit, program = check.bind rest ∧ rest {} = .pure () ∧
    ∀ user, (rest user).All NotRefused

theorem startsWith_processIdle (env : Extern) (task : Task) :
    StartsWith (lookupCheckPass env task) (processIdle env task) := by
  refine ⟨_, rfl, rfl, fun user => ?_⟩
  split
  · trivial
  refine notRefused_time.bind fun now => (notRefused_call _).bind fun _ => ?_
  refine Prog.All.bind ?_ fun chats => ?_
  · exact (notRefused_call _).bind fun chatids =>
      Prog.All.traverse (fun chatid => notRefused_call (.lookupChatById chatid)) chatids
  refine (Prog.All.traverse (fun chat => notRefused_call (.getMessages chat.id _)) chats).bind
    fun batch => ?_
  dsimp only
  split
  · refine (notRefused_toApiFormat _).bind fun msgs => notRefused_sendRows ?_ _
    intro heq
    cases heq
  split
  · refine notRefused_send ?_
    intro heq
    cases heq
  · trivial

theorem startsWith_processUserStatus (env : Extern) (task : Task) :
    StartsWith (lookupCheckPass env task) (processUserStatus env task) := by
  refine ⟨_, rfl, rfl, fun user => ?_⟩
  split
  · trivial
  refine (notRefused_lookupCheckPassByName env _ task).bind fun userTo => ?_
  split
  · trivial
  · exact notRefused_time.bind fun now => notRefused_send (sendOkResponse_ne _)

theorem startsWith_processUserHistory (env : Extern) (task : Task) :
    StartsWith (lookupCheckPass env task) (processUserHistory env task) := by
  refine ⟨_, rfl, rfl, fun user => ?_⟩
  split
  · trivial
  refine (notRefused_lookupCheckPassByName env _ task).bind fun userTo => ?_
  split
  · trivial
  refine (notRefused_call _).bind fun msgsTo => (notRefused_call _).bind fun msgsFrom => ?_
  refine (notRefused_toApiFormat _).bind fun msgs => notRefused_sendRows ?_ _
  intro heq
  cases heq

theorem startsWith_processMessageSend (env : Extern) (task : Task) :
    StartsWith (lookupCheckPass env task) (processMessageSend env task) := by
  refine ⟨_, rfl, rfl, fun user => ?_⟩
  split
  · trivial
  refine (notRefused_call _).bind fun usersTo => ?_
  split
  · exact notRefused_send (by decide)
  · refine notRefused_time.bind fun now => (notRefused_call _).bind fun _ => ?_
    exact notRefused_send (sendOkResponse_ne _)
  · exact notRefused_send (by decide)

theorem startsWith_processChatCreate (env : Extern) (task : Task) :
    StartsWith (lookupCheckPass env task) (processChatCreate env task) := by
  refine ⟨_, rfl, rfl, fun user => ?_⟩
  split
  · trivial
  refine (notRefused_call _).bind fun chat => ?_
  split
  · exact notRefused_send (by decide)
  · exact notRefused_time.bind fun now => notRefused_send (sendOkResponse_ne _)

theorem startsWith_processChatAdduser (env : Extern) (task : Task) :
    StartsWith (lookupCheckPass env task) (processChatAdduser env task) := by
  refine ⟨_, rfl, rfl, fun user => ?_⟩
  split
  · trivial
  refine (notRefused_lookupCheckPassByName env _ task).bind fun toAdd => ?_
  split
  · trivial
  · refine notRefused_withChat fun chat => (notRefused_call _).bind fun _ => ?_
    exact notRefused_send (sendOkResponse_ne _)

theorem startsWith_processMessageSendChat (env : Extern) (task : Task) :
    StartsWith (lookupCheckPass env task) (processMessageSendChat env task) := by
  refine ⟨_, rfl, rfl, fun user => ?_⟩
  split
  · trivial
  refine notRefused_withChat fun chat => notRefused_time.bind fun now => ?_
  exact (notRefused_call _).bind fun _ => notRefused_send (sendOkResponse_ne _)

theorem startsWith_processUserLogin (env : Extern) (task : Task) :
    StartsWith (lookupCheckPassByName env task.request.user task true)
      (processUserLogin env task) := by
  refine ⟨_, rfl, rfl, fun user => ?_⟩
  split
  · trivial
  · exact notRefused_time.bind fun now => notRefused_send (sendOkResponse_ne _)

/-! ## The answer to a password -/

/-- The answer with the history `h` and the rest `q` is `wrong password`: it has been sent
and nothing else, or is sent next. -/
def AnsweredWrong (h : List Event) (q : Work Unit) : Prop :=
  replies h = [wrongPassword] ∨ ∃ k, q = .op (.reply wrongPassword []) k

theorem answeredWrong_first_call {c : Call} {pre post : Shared} {r : c.Result} (later : List Event)
    (q : Work Unit) : AnsweredWrong (later ++ [⟨pre, .db c, r, post⟩]) q ↔ AnsweredWrong later q := by
  unfold AnsweredWrong replies
  rw [List.filterMap_append]
  simp

theorem answeredWrong_iff {c : Prop} [Decidable c] {row : User} {rest : User → Work Unit}
    {h : List Event} {q : Work Unit} (hstop : rest {} = .pure ())
    (hrest : (rest row).All NotRefused)
    (hf : Follows Op.exec (Prog.bind (if c then (send wrongPassword).bind fun _ => .pure {}
      else .pure row) rest) h q) : AnsweredWrong h q ↔ c := by
  by_cases hc : c
  · rw [if_pos hc] at hf
    refine iff_of_true ?_ hc
    rcases hf.of_op with ⟨-, hq⟩ | ⟨pre, r, post, later, -, rfl, hlater⟩
    · exact Or.inr ⟨_, hq⟩
    simp only [Prog.pure_bind, hstop] at hlater
    obtain ⟨rfl, -⟩ := hlater.of_pure
    exact Or.inl rfl
  · rw [if_neg hc] at hf
    refine iff_of_false ?_ hc
    obtain ⟨hquiet, hnext⟩ := Prog.All.follows hrest hf
    intro hrefused
    rcases hrefused with hreplies | ⟨k, hq⟩
    · have hmem : wrongPassword ∈ replies h := by simp [hreplies]
      obtain ⟨e, he, hop⟩ := List.mem_filterMap.mp hmem
      split at hop
      · rename_i rows heq
        obtain rfl := Option.some.inj hop
        exact hquiet e he rows heq
      · cases hop
    · rw [hq] at hnext
      exact hnext.1 [] rfl

variable {task : Task} {program q : Work Unit} {h : List Event} {s : Storage} {row : User}

/-- The first operation looks the user up by its uid. -/
theorem lookupCheckPass_refuses (hstart : StartsWith (lookupCheckPass env task) program)
    (hf : Follows Op.exec program h q) (hs : firstStore h = some s)
    (hrow : s.lookupUserById task.request.uid = row) (hid : row.id ≠ 0) :
    AnsweredWrong h q ↔ encryptedPass env task.request.password ≠ row.password := by
  obtain ⟨rest, rfl, hstop, hrest⟩ := hstart
  rcases hf.of_op with ⟨rfl, -⟩ | ⟨pre, user, post, later, hexec, rfl, hlater⟩
  · cases hs
  have hpre : pre.storage = s := by simpa [firstStore] using hs
  obtain ⟨-, hfound⟩ := Prod.mk.inj (Option.some.inj hexec)
  obtain rfl : row = user := by rw [← hrow, ← hpre, ← hfound]
  simp only [Prog.pure_bind, if_neg hid] at hlater
  rw [answeredWrong_first_call]
  exact answeredWrong_iff hstop (hrest row) hlater

/-- The first operation looks the user up by its name. -/
theorem lookupCheckPassByName_refuses {name : Bytes}
    (hstart : StartsWith (lookupCheckPassByName env name task true) program)
    (hf : Follows Op.exec program h q) (hs : firstStore h = some s)
    (hrow : s.lookupUserByName name = [row]) :
    AnsweredWrong h q ↔ encryptedPass env task.request.password ≠ row.password := by
  obtain ⟨rest, rfl, hstop, hrest⟩ := hstart
  rcases hf.of_op with ⟨rfl, -⟩ | ⟨pre, users, post, later, hexec, rfl, hlater⟩
  · cases hs
  have hpre : pre.storage = s := by simpa [firstStore] using hs
  obtain ⟨-, hfound⟩ := Prod.mk.inj (Option.some.inj hexec)
  obtain rfl : [row] = users := by rw [← hrow, ← hpre, ← hfound]
  simp only [Prog.pure_bind, true_and] at hlater
  rw [answeredWrong_first_call]
  exact answeredWrong_iff hstop (hrest row) hlater

/-! ## Runs -/

/-- The store had integrity before every operation of the past. -/
theorem workers_recorded {ok : Workers → WorkerAction → Prop}
    (h : Run (Workers.step env) ok Workers.init p) : p.Recorded Inv Ext := by
  induction h with
  | refl =>
    exact ⟨Storage.integrity_empty, by simp [Workers.init], by simp [Workers.init]⟩
  | @tail p p' a hrun hok hs ih =>
    have hext := workers_step_extends hs
    have hinv := (workers_safe (.tail hrun hok hs)).inv
    cases a with
    | take task =>
      obtain rfl := Option.some.inj hs
      exact ih.spawn task _
    | work i =>
      obtain ⟨⟨q, t, e⟩, hw, rfl⟩ := Option.map_eq_some_iff.mp hs
      exact ih.work @ext_trans hw hext hinv
    | clock now =>
      obtain rfl := Option.some.inj hs
      exact ih.extend @ext_trans hext hinv

/-- The store of the first operation. -/
theorem firstStore_recorded (hp : p.Recorded Inv Ext) {t : Thread} (ht : t ∈ p.threads)
    (hs : firstStore t.hist = some s) : s.Integrity ∧ s.Extends p.state.storage := by
  obtain ⟨e, he, rfl⟩ := Option.map_eq_some_iff.mp hs
  exact hp.past t ht e (List.mem_of_getLast? he)

theorem authenticates_cases (env : Extern) {task : Task} {user : User} (h : AuthenticatesAs task user) :
    task.cmd = .userLogin ∧ task.request.user = user.name ∨
      task.request.uid = user.id ∧ StartsWith (lookupCheckPass env task) (processTask env task) := by
  unfold AuthenticatesAs at h
  unfold processTask
  split at h <;> rename_i hcmd
  · exact Or.inl ⟨hcmd, h⟩
  · rw [hcmd]
    exact Or.inr ⟨h, startsWith_processIdle env task⟩
  · rw [hcmd]
    exact Or.inr ⟨h, startsWith_processUserStatus env task⟩
  · rw [hcmd]
    exact Or.inr ⟨h, startsWith_processUserHistory env task⟩
  · rw [hcmd]
    exact Or.inr ⟨h, startsWith_processMessageSend env task⟩
  · rw [hcmd]
    exact Or.inr ⟨h, startsWith_processChatCreate env task⟩
  · rw [hcmd]
    exact Or.inr ⟨h, startsWith_processChatAdduser env task⟩
  · rw [hcmd]
    exact Or.inr ⟨h, startsWith_processMessageSendChat env task⟩
  · exact h.elim

end

/-- A command that authenticates as a user created before is answered with
`wrong password` exactly when its password and the registered one have different
checksums. -/
theorem wrong_password_iff (env : Extern) (p : Workers)
    (h : Run (Workers.step env) anyStep Workers.init p) (t₀ t : Thread) (ht₀ : t₀ ∈ p.threads)
    (ht : t ∈ p.threads) (user : User) (hcreated : Created t₀ user)
    (hstored : FindsStored t user) (hauth : AuthenticatesAs t.tag user) : AnsweredWrong t.hist t.prog ↔
      env.crc32Type t.tag.request.password ≠ env.crc32Type t₀.tag.request.password := by
  have hrecorded := workers_recorded h
  have hinv := hrecorded.now
  have htrack := workers_tracked h
  obtain ⟨e, he, huser, -, hpass⟩ := hcreated.stored htrack ht₀
  have hpost := (workers_hist_extends h t₀ ht₀ e he).2
  obtain ⟨s, hs, hid⟩ := hstored
  obtain ⟨row, hrow, hrowid⟩ := List.mem_map.mp hid
  obtain ⟨hsinv, hsext⟩ := firstStore_recorded hrecorded ht hs
  obtain ⟨hrowname, hrowpass⟩ := row_unique hinv hsext hpost hrow huser hrowid
  have hfollows := htrack t ht
  have hiff : AnsweredWrong t.hist t.prog ↔
      encryptedPass env t.tag.request.password ≠ row.password := by
    rcases authenticates_cases env hauth with ⟨hcmd, hname⟩ | ⟨huid, hstart⟩
    · unfold processTask at hfollows
      rw [hcmd] at hfollows
      refine lookupCheckPassByName_refuses (startsWith_processUserLogin env t.tag) hfollows hs ?_
      rw [hname, ← hrowname]
      exact hsinv.lookupUserByName_eq hrow
    · refine lookupCheckPass_refuses hstart hfollows hs ?_ (by have := hsinv.userId_pos hrow; omega)
      rw [huid, ← hrowid]
      exact hsinv.lookupUserById_eq hrow
  rw [hiff, hrowpass, hpass, Ne, encryptedPass_eq_iff]

namespace Sample

/-- One bit of `boost::crc_32_type`, with its polynomial `0x04C11DB7` reflected. -/
def crcBit (crc : UInt32) : UInt32 :=
  if crc &&& 1 = 1 then (crc >>> 1) ^^^ 0xEDB88320 else crc >>> 1

def crcBits : Nat → UInt32 → UInt32
  | 0, crc => crc
  | n + 1, crc => crcBits n (crcBit crc)

/-- The checksum that `boost::crc_32_type` computes. -/
def crc32Type (data : Bytes) : UInt32 :=
  data.foldl (fun crc b => crcBits 8 (crc ^^^ b.toUInt32)) 0xFFFFFFFF ^^^ 0xFFFFFFFF

def crcEnv : Extern := { env with crc32Type }

example : crc32Type (bytes "123456789") = 0xCBF43926 := by decide +kernel

def amyRow : User :=
  { id := 1, selfChatId := 1, name := bytes "amy", stpath := bytes "localhost:3306",
    password := encryptedPass crcEnv (bytes "plumless") }

/-- Amy registers with the password `plumless` and logs in with another one, which takes
`n` operations. -/
def logins (password : String) (n : Nat) : List WorkerAction :=
  .take { create "amy" with request := { user := bytes "amy", password := bytes "plumless" } } ::
    List.replicate 3 (.work 0) ++ alone 1 (login "amy" password) n

/-- Amy is stored, and the login has ended with a reply that satisfies `answer`. -/
def loggedIn (password : String) (answer : Reply → Bool) (p : Workers) : Bool :=
  p.threads[0]?.any (fun t₀ => Created t₀ amyRow ∧ t₀.tag.request.password = bytes "plumless") ∧
    p.threads[1]?.any fun t => t.tag = login "amy" password ∧ FindsStored t amyRow ∧
      t.prog.finished ∧ (replies t.hist).all answer ∧ (replies t.hist).length = 1

theorem of_loggedIn {password : String} {answer : Reply → Bool} {p : Workers}
    (h : loggedIn password answer p = true) : ∃ t₀ ∈ p.threads, ∃ t ∈ p.threads,
    Created t₀ amyRow ∧ t₀.tag.request.password = bytes "plumless" ∧ t.tag = login "amy" password ∧
      FindsStored t amyRow ∧ t.prog.finished = true ∧ ∃ r, replies t.hist = [r] ∧ answer r = true := by
  simp only [loggedIn, Bool.decide_and, Bool.and_eq_true, Option.any_eq_true,
    decide_eq_true_eq] at h
  obtain ⟨⟨t₀, ht₀, hcreated, hpass⟩, t, ht, htag, hstored, hf, hall, hone⟩ := h
  obtain ⟨r, hr⟩ := List.length_eq_one_iff.mp hone
  have hanswer : answer r = true := by simpa [hr] using hall
  exact ⟨t₀, List.mem_of_getElem? ht₀, t, List.mem_of_getElem? ht, hcreated, hpass, htag, hstored,
    hf, r, hr, hanswer⟩

end Sample

theorem wrong_password_iff_other_checksum : ∃ p t, Run (Workers.step Sample.crcEnv) anyStep
    Workers.init p ∧ t ∈ p.threads ∧ t.tag = Sample.login "amy" "12345678" ∧
      AnsweredWrong t.hist t.prog := by
  have hlist : (runList (Workers.step Sample.crcEnv) anyStep Workers.init
      (Sample.logins "12345678" 2)).any (Sample.loggedIn "12345678" fun _ => true) = true := by
    decide +kernel
  obtain ⟨p, hrun, hp⟩ := exists_run hlist
  obtain ⟨t₀, ht₀, t, ht, hcreated, hpass, htag, hstored, -⟩ := Sample.of_loggedIn hp
  have hauth : AuthenticatesAs t.tag Sample.amyRow := by
    rw [htag]
    rfl
  refine ⟨p, t, hrun, ht, htag, ?_⟩
  refine (wrong_password_iff Sample.crcEnv p hrun t₀ t ht₀ ht _ hcreated hstored hauth).mpr ?_
  rw [htag, hpass]
  decide +kernel

/-- `plumless` and `buckeroo` have one checksum, so the second opens the account that was
registered with the first. -/
theorem other_password_accepted : ∃ p t₀ t, Run (Workers.step Sample.crcEnv) anyStep
    Workers.init p ∧ t₀ ∈ p.threads ∧ t ∈ p.threads ∧ Created t₀ Sample.amyRow ∧
      FindsStored t Sample.amyRow ∧ AuthenticatesAs t.tag Sample.amyRow ∧ t.prog.finished = true ∧
      t₀.tag.request.password = bytes "plumless" ∧ t.tag.request.password = bytes "buckeroo" ∧
      passwordCheck (bytes "plumless") 8 = true ∧ bytes "buckeroo" ≠ bytes "plumless" ∧
      ¬ AnsweredWrong t.hist t.prog := by
  have hlist : (runList (Workers.step Sample.crcEnv) anyStep Workers.init
      (Sample.logins "buckeroo" 3)).any
      (Sample.loggedIn "buckeroo" fun r => r ≠ wrongPassword) = true := by decide +kernel
  obtain ⟨p, hrun, hp⟩ := exists_run hlist
  obtain ⟨t₀, ht₀, t, ht, hcreated, hpass, htag, hstored, hf, r, hr, hother⟩ :=
    Sample.of_loggedIn hp
  have hauth : AuthenticatesAs t.tag Sample.amyRow := by
    rw [htag]
    rfl
  have hq : t.tag.request.password = bytes "buckeroo" := by
    rw [htag]
    rfl
  refine ⟨p, t₀, t, hrun, ht₀, ht, hcreated, hstored, hauth, hf, hpass, hq, by decide, by decide, ?_⟩
  intro hrefused
  rcases hrefused with heq | ⟨k, hq⟩
  · obtain rfl : r = wrongPassword := by simpa using hr.symm.trans heq
    simp at hother
  · simp [hq, Prog.finished] at hf

end O2Chat.Server
