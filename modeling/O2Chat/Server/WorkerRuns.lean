import O2Chat.Lib.Histories
import O2Chat.Server.WorkerSpec

/-!
# Runs of the workers

Any number of workers take any tasks and interleave their operations in any order,
starting from the empty store. `workers_safe` turns what each task owes into
invariants of all these runs; the integrity of the store and the atomicity of
errors follow.
-/
namespace O2Chat.Server

open O2Chat.Common O2Chat.Db O2Chat.Lib.Interleaving O2Chat.Lib.Runs

/-- The workers are safe: the store has integrity, every history is good, and every
task in progress will go on so. -/
abbrev Workers.Safe (env : Extern) (p : Workers) : Prop :=
  Pool.Safe Op.exec Inv Ext (Good env) Answered p

/-- The message the thread saves next. -/
def savesNext (t : Thread) : Option Message :=
  match t.prog with
  | .op (.db (.saveMessage msg)) _ => some msg
  | _ => none

/-- The chat the thread scans next, and the options. -/
def scansNext (t : Thread) : Option (Nat × GetMsgOpt) :=
  match t.prog with
  | .op (.db (.getMessages chatid opt)) _ => some (chatid, opt)
  | _ => none

section

variable {env : Extern} {p p' : Workers}

theorem workers_safe_init (env : Extern) : Workers.init.Safe env :=
  ⟨Storage.integrity_empty, by simp [Workers.init], by simp [Workers.init]⟩

theorem workers_safe_step (hp : p.Safe env) {a : WorkerAction}
    (hs : p.step env a = some p') : p'.Safe env := by
  cases a with
  | take task =>
    obtain rfl := Option.some.inj hs
    exact hp.spawn (Pending.nil task).good fun s _ => processTask_owes env task s
  | work i =>
    obtain ⟨⟨q, t, e⟩, hw, rfl⟩ := Option.map_eq_some_iff.mp hs
    exact (hp.work (fun _ => .refl _) @ext_trans hw).1
  | clock now =>
    obtain rfl := Option.some.inj hs
    exact hp.extend @ext_trans (.refl _) hp.inv

theorem workers_safe {ok : Workers → WorkerAction → Prop}
    (h : Run (Workers.step env) ok Workers.init p) : p.Safe env :=
  h.invariant (workers_safe_init env) fun _ _ _ hp _ hs => workers_safe_step hp hs

theorem Op.exec_extends {o : Op} {s s' : Shared} {r : o.Res} (h : o.exec s = some (s', r)) :
    Ext s s' := by
  cases o with
  | db c =>
    obtain ⟨done, hc, heq⟩ := Option.map_eq_some_iff.mp h
    obtain ⟨rfl, -⟩ := Prod.mk.inj heq
    exact Call.exec_extends hc
  | time =>
    obtain ⟨rfl, -⟩ := Prod.mk.inj (Option.some.inj h)
    exact .refl _
  | reply reply rows =>
    obtain ⟨rfl, -⟩ := Prod.mk.inj (Option.some.inj h)
    exact .refl _

/-- An operation is at most one locked section of the store. -/
theorem Op.exec_storage {o : Op} {s s' : Shared} {r : o.Res} (h : o.exec s = some (s', r)) :
    s'.storage = s.storage ∨ ∃ c, o = .db c ∧ s.storage.step c = some s'.storage := by
  cases o with
  | db c =>
    obtain ⟨done, hc, heq⟩ := Option.map_eq_some_iff.mp h
    obtain ⟨rfl, -⟩ := Prod.mk.inj heq
    exact Or.inr ⟨c, rfl, by simp [Storage.step, hc]⟩
  | time =>
    obtain ⟨rfl, -⟩ := Prod.mk.inj (Option.some.inj h)
    exact Or.inl rfl
  | reply reply rows =>
    obtain ⟨rfl, -⟩ := Prod.mk.inj (Option.some.inj h)
    exact Or.inl rfl

/-- The store call that the worker which steps is about to make satisfies `P`. -/
def CallsOnly (P : Storage → Call → Prop) (p : Workers) (a : WorkerAction) : Prop :=
  ∀ c ∈ p.nextCall a, P p.state.storage c

instance (P : Storage → Call → Prop) [∀ s c, Decidable (P s c)] (p : Workers) (a : WorkerAction) :
    Decidable (CallsOnly P p a) :=
  inferInstanceAs (Decidable (∀ c ∈ p.nextCall a, P p.state.storage c))

theorem CallsOnly.work {P : Storage → Call → Prop} {i : Nat} {t : Thread} {e : Event} {c : Call}
    (hok : CallsOnly P p (.work i)) (hw : p.work Op.exec i = some (p', t, e)) (hop : e.op = .db c) :
    P p.state.storage c := by
  obtain ⟨hi, k, hprog, -⟩ := Pool.work_cases hw
  refine hok c ?_
  cases e
  cases hop
  simp [Workers.nextCall, hi, hprog]

/-- What a step of the workers does to the store. -/
theorem workers_step_storage {a : WorkerAction} (hs : p.step env a = some p') :
    p'.state.storage = p.state.storage ∨ ∃ c, p.state.storage.step c = some p'.state.storage ∧
      ∀ P, CallsOnly P p a → P p.state.storage c := by
  cases a with
  | take task =>
    obtain rfl := Option.some.inj hs
    exact Or.inl rfl
  | work i =>
    obtain ⟨⟨q, t, e⟩, hw, rfl⟩ := Option.map_eq_some_iff.mp hs
    obtain ⟨-, k, -, -, hexec, hq⟩ := Pool.work_cases hw
    rcases Op.exec_storage hexec with hsame | ⟨c, hop, hstep⟩
    · exact Or.inl (hq ▸ hsame)
    · exact Or.inr ⟨c, hq ▸ hstep, fun P hok => hok.work hw hop⟩
  | clock now =>
    obtain rfl := Option.some.inj hs
    exact Or.inl rfl

/-- A step of the workers extends the store. -/
theorem workers_step_extends {a : WorkerAction} (hs : p.step env a = some p') :
    Ext p.state p'.state := by
  cases a with
  | take task =>
    obtain rfl := Option.some.inj hs
    exact .refl _
  | work i =>
    obtain ⟨⟨q, t, e⟩, hw, rfl⟩ := Option.map_eq_some_iff.mp hs
    obtain ⟨-, k, -, -, hexec, rfl⟩ := Pool.work_cases hw
    exact Op.exec_extends hexec
  | clock now =>
    obtain rfl := Option.some.inj hs
    exact .refl _

/-- The store a task has seen is extended by the present one. -/
theorem workers_hist_extends {ok : Workers → WorkerAction → Prop}
    (h : Run (Workers.step env) ok Workers.init p) :
    ∀ t ∈ p.threads, ∀ e ∈ t.hist, Ext e.pre p.state ∧ Ext e.post p.state := by
  refine h.invariant (I := fun p => ∀ t ∈ p.threads, ∀ e ∈ t.hist,
    Ext e.pre p.state ∧ Ext e.post p.state) (by simp [Workers.init]) ?_
  intro p a p' hp _ hs
  have hext := workers_step_extends hs
  cases a with
  | take task =>
    obtain rfl := Option.some.inj hs
    intro t ht e he
    rcases List.mem_append.mp ht with hold | hnew
    · exact hp t hold e he
    · obtain rfl := List.mem_singleton.mp hnew
      cases he
  | work i =>
    obtain ⟨⟨q, t, e⟩, hw, rfl⟩ := Option.map_eq_some_iff.mp hs
    refine Pool.work_hist (P := fun _ e => Ext e.pre q.state ∧ Ext e.post q.state) hw ?_ ?_
    · intro u hu e' he'
      exact ⟨(hp u hu e' he').1.trans hext, (hp u hu e' he').2.trans hext⟩
    · obtain ⟨-, k, -, hpre, hexec, rfl⟩ := Pool.work_cases hw
      exact ⟨hpre ▸ hext, .refl _⟩
  | clock now =>
    obtain rfl := Option.some.inj hs
    exact hp

/-- Every thread has followed the program of its task. -/
theorem workers_tracked {ok : Workers → WorkerAction → Prop}
    (h : Run (Workers.step env) ok Workers.init p) : p.Tracked Op.exec (processTask env) := by
  refine h.invariant (I := fun p => p.Tracked Op.exec (processTask env)) ?_ ?_
  · intro t ht
    cases ht
  · rintro p a p' hp - hs
    cases a with
    | take task =>
      obtain rfl := Option.some.inj hs
      exact hp.spawn task
    | work i =>
      obtain ⟨⟨q, t, e⟩, hw, rfl⟩ := Option.map_eq_some_iff.mp hs
      exact hp.work hw
    | clock now =>
      obtain rfl := Option.some.inj hs
      exact hp

end

/-! ## What the lookups ask for -/

section

variable {P : Op → Prop}

theorem all_call {c : Call} (h : P (.db c)) : (call c).All P := ⟨h, fun _ => trivial⟩

theorem all_sendRows {r : Reply} {rows : List Message} (h : P (.reply r rows)) :
    (sendRows r rows).All P := ⟨h, fun _ => trivial⟩

variable (hlookup : ∀ c : Call, c.readOnly = true → P (.db c))
  (herror : ∀ code api desc, P (.reply (.sendErrorResponse code api desc) []))

include hlookup herror

theorem all_lookupCheckPass (env : Extern) (task : Task) : (lookupCheckPass env task).All P := by
  refine (all_call (hlookup _ rfl)).bind fun user => ?_
  split
  · exact (all_sendRows (herror _ _ _)).bind fun _ => trivial
  split
  · exact (all_sendRows (herror _ _ _)).bind fun _ => trivial
  · trivial

theorem all_lookupCheckPassByName (env : Extern) (name : Bytes) (task : Task) (checkPass : Bool) :
    (lookupCheckPassByName env name task checkPass).All P := by
  refine (all_call (hlookup _ rfl)).bind fun users => ?_
  split
  · exact (all_sendRows (herror _ _ _)).bind fun _ => trivial
  · split
    · exact (all_sendRows (herror _ _ _)).bind fun _ => trivial
    · trivial
  · exact (all_sendRows (herror _ _ _)).bind fun _ => trivial

end

/-! ## Tasks to run -/

namespace Sample

def env : Extern := .sample fun _ => none

def create (user : String) : Task :=
  { cmd := .userCreate, client := 0, storage := bytes "localhost:3306",
    request := { user := bytes user, password := bytes "password" } }

def login (user password : String) : Task :=
  { cmd := .userLogin, client := 0, request := { user := bytes user, password := bytes password } }

/-- A worker takes the task and performs `n` operations of it. -/
def alone (thread : Nat) (task : Task) (n : Nat) : List WorkerAction :=
  .take task :: List.replicate n (.work thread)

end Sample

/-! ## Integrity and errors -/

/-- In every reachable state: user and chat ids are exactly `1..#users` and
`1..#chats`, below their counters; user names are unique; every user has a self
chat with the user's own name and is a member of it; no membership row occurs
twice; every membership row and every message refers to stored users and chats. -/
theorem store_integrity (env : Extern) (p : Workers)
    (h : Run (Workers.step env) anyStep Workers.init p) : p.state.storage.Integrity :=
  (workers_safe h).inv

theorem store_integrity_two_users : ∃ p,
    Run (Workers.step Sample.env) anyStep Workers.init p ∧
      p.state.storage.userIds = [1, 2] ∧ p.state.storage.Integrity := by
  have hlist : (runList (Workers.step Sample.env) anyStep Workers.init
      (Sample.alone 0 (Sample.create "bob") 3 ++ Sample.alone 1 (Sample.create "amy") 3)).any
      (fun p => p.state.storage.userIds = [1, 2]) = true := by decide +kernel
  obtain ⟨p, hrun, hids⟩ := exists_run hlist
  exact ⟨p, hrun, by simpa using hids, store_integrity Sample.env p hrun⟩

/-- A task fails its authentication when its credentials match no user stored at the
time of its first lookup. Such a task only reports errors, which are fixed texts; a
task that reports an error changed nothing; and three commands never change anything. -/
theorem errors_are_atomic (env : Extern) (p : Workers)
    (h : Run (Workers.step env) anyStep Workers.init p) (t : Thread) (ht : t ∈ p.threads) :
    (t.tag.cmd ≠ .userCreate → (∀ s, firstStore t.hist = some s → ¬ Matches env t.tag s) →
      ∀ r ∈ replies t.hist, r ∈ errorReplies) ∧
    ((∃ r ∈ replies t.hist, r.isError = true) → Unchanged t.hist) ∧
    (readsOnly t.tag.cmd = true → Unchanged t.hist) := by
  have hgood := (workers_safe h).hist t ht
  refine ⟨?_, hgood.errorQuiet, hgood.quiet⟩
  intro hcmd hnone r hr
  cases herr : r.isError with
  | true => exact hgood.errors r hr herr
  | false =>
    obtain ⟨s, hs, hm⟩ := hgood.authentic hcmd ⟨r, hr, herr⟩
    exact absurd hm (hnone s hs)

/-- A login with the wrong password, while the user exists. -/
theorem errors_are_atomic_wrong_password : ∃ p t,
    Run (Workers.step Sample.env) anyStep Workers.init p ∧ t ∈ p.threads ∧
      t.tag = Sample.login "bob" "12345678" ∧ (replies t.hist).length = 1 ∧
      (∀ r ∈ replies t.hist, r ∈ errorReplies) ∧ Unchanged t.hist := by
  have hlist : (runList (Workers.step Sample.env) anyStep Workers.init
      (Sample.alone 0 (Sample.create "bob") 3 ++
        Sample.alone 1 (Sample.login "bob" "12345678") 2)).any
      (fun p => p.threads[1]?.any fun t => t.tag = Sample.login "bob" "12345678" ∧
        (replies t.hist).length = 1 ∧
        (firstStore t.hist).all fun s => ¬ Matches Sample.env t.tag s) = true := by decide +kernel
  obtain ⟨p, hrun, hp⟩ := exists_run hlist
  obtain ⟨t, ht, hfacts⟩ := (Option.any_eq_true _ _).mp hp
  have hmem := List.mem_of_getElem? ht
  simp only [decide_eq_true_eq, Option.all_eq_true] at hfacts
  obtain ⟨htag, hone, hnone⟩ := hfacts
  have hthree := errors_are_atomic Sample.env p hrun t hmem
  exact ⟨p, t, hrun, hmem, htag, hone, hthree.1 (by simp [htag, Sample.login]) hnone,
    hthree.2.2 (by simp [htag, Sample.login, readsOnly])⟩

end O2Chat.Server
