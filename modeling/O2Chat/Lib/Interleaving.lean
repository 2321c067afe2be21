import Mathlib.Data.List.Basic
import Mathlib.Order.WellFounded

/-!
# Interleaved programs over a shared state

A program is a tree of operations: it asks for one operation at a time and goes
on with its answer. A pool holds a shared state and any number of threads, each
a program with the history of the operations it has performed. A step picks one
thread and performs its next operation atomically, so the operations of
different threads interleave in every possible way.

The second half is a rely and guarantee logic for such programs. `wp` says what
a program does when, before each of its operations, the other threads may move
the state along `Ext` while keeping `Inv`. `Pool.Safe` lifts one `wp` proof for
each program to every pool that can be reached.
-/
namespace O2Chat.Lib.Interleaving

/-- Programs that ask for operations `o : Op` answered in `Res o`. -/
inductive Prog (Op : Type) (Res : Op → Type) (α : Type) where
  | pure (a : α)
  | op (o : Op) (k : Res o → Prog Op Res α)

variable {Op : Type} {Res : Op → Type} {σ τ α β : Type}

namespace Prog

def bind : Prog Op Res α → (α → Prog Op Res β) → Prog Op Res β
  | .pure a, f => f a
  | .op o k, f => .op o fun r => (k r).bind f

instance : Monad (Prog Op Res) where
  pure := Prog.pure
  bind := Prog.bind

/-- Ask for one operation and return its answer. -/
def perform (o : Op) : Prog Op Res (Res o) := .op o .pure

/-- Run `f` on every element, in order. -/
def traverse (f : α → Prog Op Res β) : List α → Prog Op Res (List β)
  | [] => .pure []
  | a :: as => (f a).bind fun b => (traverse f as).bind fun bs => .pure (b :: bs)

@[simp] theorem bind_eq (p : Prog Op Res α) (f : α → Prog Op Res β) : p >>= f = p.bind f := rfl

@[simp] theorem pure_eq (a : α) : (Pure.pure a : Prog Op Res α) = .pure a := rfl

@[simp] theorem pure_bind (a : α) (f : α → Prog Op Res β) : (Prog.pure a).bind f = f a := rfl

@[simp] theorem op_bind (o : Op) (k : Res o → Prog Op Res α) (f : α → Prog Op Res β) :
    (Prog.op o k).bind f = .op o fun r => (k r).bind f := rfl

theorem bind_assoc {γ : Type} (p : Prog Op Res α) (f : α → Prog Op Res β) (g : β → Prog Op Res γ) :
    (p.bind f).bind g = p.bind fun a => (f a).bind g := by
  induction p with
  | pure a => rfl
  | op o k ih => exact congrArg (Prog.op o) (funext ih)

/-- The program has no operation left. -/
def finished : Prog Op Res α → Bool
  | .pure _ => true
  | .op _ _ => false

/-- `Next q p`: `q` is what is left of `p` after one operation. -/
def Next (q p : Prog Op Res α) : Prop := ∃ o k, p = .op o k ∧ ∃ r, q = k r

theorem next_wellFounded : WellFounded (@Next Op Res α) := by
  constructor
  intro p
  induction p with
  | pure a =>
    constructor
    rintro q ⟨o, k, h, -⟩
    cases h
  | op o k ih =>
    constructor
    rintro q ⟨o', k', h, r, rfl⟩
    cases h
    exact ih r

end Prog

/-- One performed operation, with the shared state before and after it. -/
structure Event (σ Op : Type) (Res : Op → Type) where
  pre : σ
  op : Op
  res : Res op
  post : σ

/-- A program in progress. `hist` is a history variable, newest event first. -/
structure Thread (σ τ Op : Type) (Res : Op → Type) where
  tag : τ
  prog : Prog Op Res Unit
  hist : List (Event σ Op Res)

structure Pool (σ τ Op : Type) (Res : Op → Type) where
  state : σ
  threads : List (Thread σ τ Op Res)

namespace Pool

/-- A new thread starts `prog`. -/
def spawn (p : Pool σ τ Op Res) (tag : τ) (prog : Prog Op Res Unit) : Pool σ τ Op Res :=
  { p with threads := p.threads ++ [⟨tag, prog, []⟩] }

/-- Thread `i` performs its next operation. There is no such step when the
thread is finished or the operation cannot be performed in this state. -/
def work (exec : (o : Op) → σ → Option (σ × Res o)) (p : Pool σ τ Op Res) (i : Nat) :
    Option (Pool σ τ Op Res × Thread σ τ Op Res × Event σ Op Res) :=
  match p.threads[i]? with
  | none => none
  | some t =>
    match t.prog with
    | .pure _ => none
    | .op o k =>
      match exec o p.state with
      | none => none
      | some (s, r) =>
        let e : Event σ Op Res := ⟨p.state, o, r, s⟩
        some (⟨s, p.threads.set i ⟨t.tag, k r, e :: t.hist⟩⟩, t, e)

variable {exec : (o : Op) → σ → Option (σ × Res o)}

/-- Everything one step of a thread does. -/
theorem work_cases {p p' : Pool σ τ Op Res} {i : Nat} {t : Thread σ τ Op Res}
    {e : Event σ Op Res} (h : p.work exec i = some (p', t, e)) :
    p.threads[i]? = some t ∧ ∃ k, t.prog = .op e.op k ∧ e.pre = p.state ∧
      exec e.op p.state = some (e.post, e.res) ∧
      p' = ⟨e.post, p.threads.set i ⟨t.tag, k e.res, e :: t.hist⟩⟩ := by
  unfold work at h
  split at h
  · cases h
  rename_i t' ht
  split at h
  · cases h
  rename_i o k hprog
  split at h
  · cases h
  rename_i s r hexec
  simp only [Option.some.injEq, Prod.mk.injEq] at h
  obtain ⟨rfl, rfl, rfl⟩ := h
  exact ⟨ht, k, hprog, rfl, hexec, rfl⟩

/-- A property of all events performed so far is kept when the new event has it. -/
theorem work_hist {P : τ → Event σ Op Res → Prop} {p p' : Pool σ τ Op Res} {i : Nat}
    {t : Thread σ τ Op Res} {e : Event σ Op Res} (h : p.work exec i = some (p', t, e))
    (hold : ∀ u ∈ p.threads, ∀ e ∈ u.hist, P u.tag e) (hnew : P t.tag e) :
    ∀ u ∈ p'.threads, ∀ e ∈ u.hist, P u.tag e := by
  obtain ⟨hi, k, -, -, -, rfl⟩ := work_cases h
  intro u hu e' he'
  rcases List.mem_or_eq_of_mem_set hu with hin | rfl
  · exact hold u hin e' he'
  · rcases List.mem_cons.mp he' with rfl | he'
    · exact hnew
    · exact hold t (List.mem_of_getElem? hi) e' he'

end Pool

/-! ## Rely and guarantee -/

section Logic

variable (exec : (o : Op) → σ → Option (σ × Res o)) (Inv : σ → Prop) (Ext : σ → σ → Prop)
  (Φ : List (Event σ Op Res) → Prop)

/-- From state `s` and history `h`, the program keeps `Inv`, only moves the state
along `Ext`, keeps its history within `Φ` and ends in `Q`, although other threads
may move the state along `Ext` before each of its operations. -/
def wp : Prog Op Res α → (α → List (Event σ Op Res) → σ → Prop) →
    List (Event σ Op Res) → σ → Prop
  | .pure a, Q, h, s => Q a h s
  | .op o k, Q, h, s => ∀ s₁, Ext s s₁ → Inv s₁ → ∀ s₂ r, exec o s₁ = some (s₂, r) →
      Inv s₂ ∧ Ext s₁ s₂ ∧ Φ (⟨s₁, o, r, s₂⟩ :: h) ∧ wp (k r) Q (⟨s₁, o, r, s₂⟩ :: h) s₂

variable {exec Inv Ext Φ}
variable {Q Q' : α → List (Event σ Op Res) → σ → Prop} {h : List (Event σ Op Res)} {s s' : σ}

theorem wp_mono {p : Prog Op Res α} (hq : ∀ a h s, Q a h s → Q' a h s)
    (hp : wp exec Inv Ext Φ p Q h s) : wp exec Inv Ext Φ p Q' h s := by
  induction p generalizing h s with
  | pure a => exact hq _ _ _ hp
  | op o k ih =>
    intro s₁ hext hinv s₂ r hexec
    obtain ⟨hi, he, hΦ, hk⟩ := hp s₁ hext hinv s₂ r hexec
    exact ⟨hi, he, hΦ, ih r hk⟩

/-- A smaller step relation that every operation follows, and weaker conditions on
histories and results. -/
theorem wp_conseq {Ext' : σ → σ → Prop} {Φ' : List (Event σ Op Res) → Prop} {p : Prog Op Res α}
    (hle : ∀ s s', Ext' s s' → Ext s s')
    (hexec : ∀ o s s' r, exec o s = some (s', r) → Ext' s s') (hΦ : ∀ h, Φ h → Φ' h)
    (hq : ∀ a h s, Q a h s → Q' a h s) (hp : wp exec Inv Ext Φ p Q h s) :
    wp exec Inv Ext' Φ' p Q' h s := by
  induction p generalizing h s with
  | pure a => exact hq _ _ _ hp
  | op o k ih =>
    intro s₁ hext hinv s₂ r he
    obtain ⟨hi, -, hφ, hk⟩ := hp s₁ (hle _ _ hext) hinv s₂ r he
    exact ⟨hi, hexec o s₁ s₂ r he, hΦ _ hφ, ih r hk⟩

theorem wp_bind {p : Prog Op Res α} {f : α → Prog Op Res β}
    {R : β → List (Event σ Op Res) → σ → Prop}
    (hp : wp exec Inv Ext Φ p (fun a h s => wp exec Inv Ext Φ (f a) R h s) h s) :
    wp exec Inv Ext Φ (p.bind f) R h s := by
  induction p generalizing h s with
  | pure a => exact hp
  | op o k ih =>
    intro s₁ hext hinv s₂ r hexec
    obtain ⟨hi, he, hΦ, hk⟩ := hp s₁ hext hinv s₂ r hexec
    exact ⟨hi, he, hΦ, ih r hk⟩

/-- A postcondition that other threads cannot invalidate. -/
def Stable (Inv : σ → Prop) (Ext : σ → σ → Prop)
    (Q : α → List (Event σ Op Res) → σ → Prop) : Prop :=
  ∀ a h s s', Ext s s' → Inv s' → Q a h s → Q a h s'

theorem wp_stable {p : Prog Op Res α} (htrans : ∀ {a b c}, Ext a b → Ext b c → Ext a c)
    (hQ : Stable Inv Ext Q) (hext : Ext s s') (hinv : Inv s')
    (hp : wp exec Inv Ext Φ p Q h s) : wp exec Inv Ext Φ p Q h s' := by
  cases p with
  | pure a => exact hQ _ _ _ _ hext hinv hp
  | op o k => exact fun s₁ hext' hinv' => hp s₁ (htrans hext hext') hinv'

/-- A loop over a list: `J` relates the elements done and their results to history
and state, and every round extends it by one element. -/
theorem wp_traverse {f : α → Prog Op Res β} {J : List α → List β → List (Event σ Op Res) → σ → Prop}
    {as : List α}
    (hround : ∀ done a rest, as = done ++ a :: rest → ∀ bs h s, J done bs h s →
      wp exec Inv Ext Φ (f a) (fun b h s => J (done ++ [a]) (bs ++ [b]) h s) h s)
    (hJ : J [] [] h s) :
    wp exec Inv Ext Φ (Prog.traverse f as) (fun bs h s => J as bs h s) h s := by
  have key : ∀ (rest done : List α) (bs : List β) (h : List (Event σ Op Res)) (s : σ),
      as = done ++ rest → J done bs h s →
      wp exec Inv Ext Φ (Prog.traverse f rest) (fun cs h s => J as (bs ++ cs) h s) h s := by
    intro rest
    induction rest with
    | nil =>
      intro done bs h s has hJ
      rw [List.append_nil] at has
      subst has
      simpa [Prog.traverse, wp] using hJ
    | cons a rest ih =>
      intro done bs h s has hJ
      apply wp_bind
      refine wp_mono (fun b h s hb => ?_) (hround done a rest has bs h s hJ)
      apply wp_bind
      have has' : as = done ++ [a] ++ rest := by simpa using has
      refine wp_mono (fun cs h s hcs => ?_) (ih (done ++ [a]) (bs ++ [b]) h s has' hb)
      simpa [wp] using hcs
  simpa using key as [] [] h s rfl hJ

end Logic

/-! ## From one program to every pool -/

section PoolLogic

variable (exec : (o : Op) → σ → Option (σ × Res o)) (Inv : σ → Prop) (Ext : σ → σ → Prop)
  (Φ Ψ : τ → List (Event σ Op Res) → Prop)

/-- What a thread with tag `tag` owes: `Φ` for its history at all times and `Ψ`
for its history once it is finished. -/
def Owes (tag : τ) (prog : Prog Op Res Unit) (h : List (Event σ Op Res)) (s : σ) : Prop :=
  wp exec Inv Ext (Φ tag) prog (fun _ h _ => Ψ tag h) h s

/-- The shared state satisfies `Inv` and every thread can pay what it owes. -/
structure Pool.Safe (p : Pool σ τ Op Res) : Prop where
  inv : Inv p.state
  hist : ∀ t ∈ p.threads, Φ t.tag t.hist
  owes : ∀ t ∈ p.threads, Owes exec Inv Ext Φ Ψ t.tag t.prog t.hist p.state

variable {exec Inv Ext Φ Ψ}
variable {p p' : Pool σ τ Op Res}

theorem Pool.Safe.finished (hp : p.Safe exec Inv Ext Φ Ψ) {t : Thread σ τ Op Res}
    (ht : t ∈ p.threads) (hf : t.prog.finished = true) : Ψ t.tag t.hist := by
  have ho := hp.owes t ht
  unfold Owes at ho
  cases hprog : t.prog with
  | pure u => simpa [hprog, wp] using ho
  | op o k => simp [hprog, Prog.finished] at hf

/-- A thread may start when its program can pay from every good state. -/
theorem Pool.Safe.spawn (hp : p.Safe exec Inv Ext Φ Ψ) {tag : τ} {prog : Prog Op Res Unit}
    (hΦ : Φ tag []) (hprog : ∀ s, Inv s → Owes exec Inv Ext Φ Ψ tag prog [] s) :
    (p.spawn tag prog).Safe exec Inv Ext Φ Ψ := by
  refine ⟨hp.inv, ?_, ?_⟩
  · intro t ht
    rcases List.mem_append.mp ht with hold | hnew
    · exact hp.hist t hold
    · obtain rfl := List.mem_singleton.mp hnew
      exact hΦ
  · intro t ht
    rcases List.mem_append.mp ht with hold | hnew
    · exact hp.owes t hold
    · obtain rfl := List.mem_singleton.mp hnew
      exact hprog _ hp.inv

/-- The surroundings may move the shared state like a thread does. -/
theorem Pool.Safe.extend (htrans : ∀ {a b c}, Ext a b → Ext b c → Ext a c)
    (hp : p.Safe exec Inv Ext Φ Ψ) {s : σ} (hext : Ext p.state s) (hinv : Inv s) :
    Pool.Safe exec Inv Ext Φ Ψ { p with state := s } :=
  ⟨hinv, hp.hist, fun t ht =>
    wp_stable htrans (fun _ _ _ _ _ _ hq => hq) hext hinv (hp.owes t ht)⟩

/-- One operation of any thread keeps the pool safe and moves the state along `Ext`. -/
theorem Pool.Safe.work (hrefl : ∀ s, Ext s s) (htrans : ∀ {a b c}, Ext a b → Ext b c → Ext a c)
    (hp : p.Safe exec Inv Ext Φ Ψ) {i : Nat} {t : Thread σ τ Op Res} {e : Event σ Op Res}
    (hw : p.work exec i = some (p', t, e)) :
    p'.Safe exec Inv Ext Φ Ψ ∧ Ext p.state p'.state ∧ Φ t.tag (e :: t.hist) := by
  obtain ⟨hi, k, hprog, hpre, hexec, rfl⟩ := Pool.work_cases hw
  have ht : t ∈ p.threads := List.mem_of_getElem? hi
  have howes := hp.owes t ht
  simp only [Owes, hprog, wp] at howes
  obtain ⟨hinv, hext, hΦ, hk⟩ := howes p.state (hrefl _) hp.inv _ _ hexec
  have he : (⟨p.state, e.op, e.res, e.post⟩ : Event σ Op Res) = e := by rw [← hpre]
  rw [he] at hΦ hk
  refine ⟨⟨hinv, ?_, ?_⟩, hext, hΦ⟩
  · intro u hu
    rcases List.mem_or_eq_of_mem_set hu with hold | rfl
    · exact hp.hist u hold
    · exact hΦ
  · intro u hu
    rcases List.mem_or_eq_of_mem_set hu with hold | rfl
    · exact wp_stable htrans (fun _ _ _ _ _ _ hq => hq) hext hinv (hp.owes u hold)
    · exact hk

/-! ## Histories record past states -/

/-- `I` holds now and held before every event, states only moved along `Ext`, and
histories are in the order of time. -/
structure Pool.Recorded (I : σ → Prop) (Ext : σ → σ → Prop) (p : Pool σ τ Op Res) : Prop where
  now : I p.state
  past : ∀ t ∈ p.threads, ∀ e ∈ t.hist, I e.pre ∧ Ext e.pre p.state
  order : ∀ t ∈ p.threads, t.hist.Pairwise fun new old => Ext old.pre new.pre

variable {I : σ → Prop}

theorem Pool.Recorded.spawn (hp : p.Recorded I Ext) (tag : τ) (prog : Prog Op Res Unit) :
    (p.spawn tag prog).Recorded I Ext := by
  refine ⟨hp.now, ?_, ?_⟩
  · intro t ht
    rcases List.mem_append.mp ht with hold | hnew
    · exact hp.past t hold
    · obtain rfl := List.mem_singleton.mp hnew
      exact fun e he => nomatch he
  · intro t ht
    rcases List.mem_append.mp ht with hold | hnew
    · exact hp.order t hold
    · obtain rfl := List.mem_singleton.mp hnew
      exact List.Pairwise.nil

theorem Pool.Recorded.extend (htrans : ∀ {a b c}, Ext a b → Ext b c → Ext a c)
    (hp : p.Recorded I Ext) {s : σ} (hext : Ext p.state s) (hs : I s) :
    Pool.Recorded I Ext { p with state := s } :=
  ⟨hs, fun t ht e he => ⟨(hp.past t ht e he).1, htrans (hp.past t ht e he).2 hext⟩, hp.order⟩

theorem Pool.Recorded.work (htrans : ∀ {a b c}, Ext a b → Ext b c → Ext a c)
    (hp : p.Recorded I Ext) {i : Nat} {t : Thread σ τ Op Res} {e : Event σ Op Res}
    (hw : p.work exec i = some (p', t, e)) (hext : Ext p.state p'.state) (hs : I p'.state) :
    p'.Recorded I Ext := by
  have hpast := Pool.work_hist (P := fun _ e => I e.pre ∧ Ext e.pre p'.state) hw
    (fun u hu e he => ⟨(hp.past u hu e he).1, htrans (hp.past u hu e he).2 hext⟩)
  obtain ⟨hi, k, -, hpre, -, rfl⟩ := Pool.work_cases hw
  refine ⟨hs, hpast ⟨hpre ▸ hp.now, hpre ▸ hext⟩, ?_⟩
  intro u hu
  rcases List.mem_or_eq_of_mem_set hu with hold | rfl
  · exact hp.order u hold
  · have ht := List.mem_of_getElem? hi
    exact List.Pairwise.cons (fun old hold => hpre ▸ (hp.past t ht old hold).2) (hp.order t ht)

end PoolLogic

/-! ## Termination -/

/-- No infinite run schedules one thread infinitely often: a thread that is
always scheduled again while it is unfinished finishes. -/
theorem eventually_finished (progAt : Nat → Prog Op Res Unit)
    (hstep : ∀ n, progAt (n + 1) = progAt n ∨ Prog.Next (progAt (n + 1)) (progAt n))
    (hfair : ∀ n, (progAt n).finished = false →
      ∃ m, n ≤ m ∧ Prog.Next (progAt (m + 1)) (progAt m)) :
    ∃ n, (progAt n).finished = true := by
  by_contra hnever
  have hun : ∀ n, (progAt n).finished = false := by
    intro n
    cases h : (progAt n).finished with
    | false => rfl
    | true => exact absurd ⟨n, h⟩ hnever
  -- well-founded induction on what is left to do, for all times at once
  have key : ∀ q n, progAt n = q → False := by
    intro q
    induction q using Prog.next_wellFounded.induction with
    | _ q ih =>
      intro n hn
      obtain ⟨m, hnm, hm⟩ := hfair n (hun n)
      have hreach : ∀ d, progAt (n + d) = q ∨ ∃ j, n ≤ j ∧ progAt j = q ∧
          Prog.Next (progAt (j + 1)) q := by
        intro d
        induction d with
        | zero => exact Or.inl hn
        | succ d ihd =>
          rcases ihd with heq | hjump
          · rcases hstep (n + d) with hsame | hnext
            · exact Or.inl ((by rw [← Nat.add_assoc]; exact hsame.trans heq))
            · exact Or.inr ⟨n + d, Nat.le_add_right _ _, heq, heq ▸ hnext⟩
          · exact Or.inr hjump
      rcases hreach (m - n) with heq | ⟨j, -, -, hj⟩
      · rw [Nat.add_sub_cancel' hnm] at heq
        exact ih _ (heq ▸ hm) (m + 1) rfl
      · exact ih _ hj (j + 1) rfl
  exact key _ 0 rfl

end O2Chat.Lib.Interleaving
