import Mathlib.Data.List.Forall2
import O2Chat.Lib.Interleaving

/-!
# Histories of one program

`Follows` relates a program, a history of performed operations and what is left of
the program. A history can be taken apart along the program from its first event
on, whatever other threads did between the events. `Prog.All` says that a program
asks only for operations of one kind; its histories have only such events.
-/
namespace O2Chat.Lib.Interleaving

variable {Op : Type} {Res : Op → Type} {σ τ α β : Type}

section

variable (exec : (o : Op) → σ → Option (σ × Res o))

/-- After the events `h`, newest first, `q` is left of the program `p`. -/
inductive Follows (p : Prog Op Res α) : List (Event σ Op Res) → Prog Op Res α → Prop
  | start : Follows p [] p
  | next {h : List (Event σ Op Res)} {o : Op} {k : Res o → Prog Op Res α} {pre post : σ}
      {r : Res o} : Follows p h (.op o k) → exec o pre = some (post, r) →
      Follows p (⟨pre, o, r, post⟩ :: h) (k r)

end

variable {exec : (o : Op) → σ → Option (σ × Res o)} {h : List (Event σ Op Res)}

theorem Follows.of_pure {a : α} {q : Prog Op Res α} (hf : Follows exec (.pure a) h q) :
    h = [] ∧ q = .pure a := by
  induction hf with
  | start => exact ⟨rfl, rfl⟩
  | next _ _ ih => cases ih.2

/-- The first event is the answer to the first operation. -/
theorem Follows.of_op {o : Op} {k : Res o → Prog Op Res α} {q : Prog Op Res α}
    (hf : Follows exec (.op o k) h q) : (h = [] ∧ q = .op o k) ∨
    ∃ pre r post later, exec o pre = some (post, r) ∧ h = later ++ [⟨pre, o, r, post⟩] ∧
      Follows exec (k r) later q := by
  induction hf with
  | start => exact Or.inl ⟨rfl, rfl⟩
  | next hf he ih =>
    right
    rcases ih with ⟨rfl, hq⟩ | ⟨pre, r, post, later, hexec, rfl, hrest⟩
    · cases hq
      exact ⟨_, _, _, [], he, rfl, .start⟩
    · exact ⟨pre, r, post, _ :: later, hexec, rfl, .next hrest he⟩

/-- A history of `p.bind f` is one of `p`, followed by one of `f a` when `p` has ended
with `a`. -/
theorem Follows.of_bind {p : Prog Op Res α} {f : α → Prog Op Res β} {q : Prog Op Res β}
    (hf : Follows exec (p.bind f) h q) : (∃ p', Follows exec p h p' ∧ q = p'.bind f) ∨
    ∃ a later earlier, h = later ++ earlier ∧ Follows exec p earlier (.pure a) ∧
      Follows exec (f a) later q := by
  induction hf with
  | start => exact Or.inl ⟨p, .start, rfl⟩
  | @next h o k pre post r hf he ih =>
    rcases ih with ⟨p', hp, hq⟩ | ⟨a, later, earlier, rfl, hp, hrest⟩
    · cases p' with
      | pure a =>
        have hfirst : Follows exec (f a) [] (.op o k) := hq ▸ Follows.start
        exact Or.inr ⟨a, [⟨pre, o, r, post⟩], h, rfl, hp, .next hfirst he⟩
      | op o' k' =>
        obtain ⟨rfl, hk⟩ := Prog.op.inj hq
        obtain rfl := eq_of_heq hk
        exact Or.inl ⟨k' r, .next hp he, rfl⟩
    · exact Or.inr ⟨a, _ :: later, earlier, rfl, hp, .next hrest he⟩

/-- A history at the end of `p.bind f` is one at the end of `p`, followed by one at the
end of what comes next. -/
theorem Follows.of_bind_pure {p : Prog Op Res α} {f : α → Prog Op Res β} {b : β}
    (hf : Follows exec (p.bind f) h (.pure b)) : ∃ a later earlier, h = later ++ earlier ∧
      Follows exec p earlier (.pure a) ∧ Follows exec (f a) later (.pure b) := by
  rcases hf.of_bind with ⟨p', hp, hq⟩ | hended
  · cases p' with
    | pure a =>
      have hnow : Follows exec (f a) [] (.pure b) := hq ▸ Follows.start
      exact ⟨a, [], h, rfl, hp, hnow⟩
    | op o k => cases hq
  · exact hended

/-- Every result of a loop comes from an element and a part of its history. -/
theorem Follows.of_traverse {f : α → Prog Op Res β} {as : List α} {bs : List β}
    (hf : Follows exec (Prog.traverse f as) h (.pure bs)) :
    List.Forall₂ (fun a b => a ∈ as ∧ ∃ part ⊆ h, Follows exec (f a) part (.pure b)) as bs := by
  induction as generalizing h bs with
  | nil =>
    obtain ⟨-, hbs⟩ := hf.of_pure
    cases hbs
    exact .nil
  | cons a as ih =>
    obtain ⟨b, later, earlier, rfl, hfirst, hrest⟩ := hf.of_bind_pure
    obtain ⟨cs, last, middle, rfl, hmiddle, hlast⟩ := hrest.of_bind_pure
    obtain ⟨-, hbs⟩ := hlast.of_pure
    cases hbs
    refine .cons ⟨List.mem_cons_self, earlier, List.subset_append_right _ _, hfirst⟩ ?_
    refine (ih hmiddle).imp ?_
    rintro a b ⟨ha, part, hsub, hpart⟩
    exact ⟨List.mem_cons_of_mem _ ha, part,
      fun e he => List.mem_append_left _ (List.mem_append_right _ (hsub he)), hpart⟩

/-! ## Programs of one kind of operations -/

/-- All operations the program may ask for satisfy `P`. -/
def Prog.All (P : Op → Prop) : Prog Op Res α → Prop
  | .pure _ => True
  | .op o k => P o ∧ ∀ r, (k r).All P

variable {P : Op → Prop}

theorem Prog.All.bind {p : Prog Op Res α} {f : α → Prog Op Res β} (hp : p.All P)
    (hf : ∀ a, (f a).All P) : (p.bind f).All P := by
  induction p with
  | pure a => exact hf a
  | op o k ih => exact ⟨hp.1, fun r => ih r (hp.2 r)⟩

theorem Prog.All.traverse {f : α → Prog Op Res β} (hf : ∀ a, (f a).All P) (as : List α) :
    (Prog.traverse f as).All P := by
  induction as with
  | nil => trivial
  | cons a as ih => exact (hf a).bind fun b => ih.bind fun bs => trivial

theorem Prog.All.follows {p q : Prog Op Res α} (hp : p.All P) (hf : Follows exec p h q) :
    (∀ e ∈ h, P e.op) ∧ q.All P := by
  induction hf with
  | start => exact ⟨by simp, hp⟩
  | next _ _ ih =>
    refine ⟨?_, ih.2.2 _⟩
    intro e he
    rcases List.mem_cons.mp he with rfl | hold
    · exact ih.2.1
    · exact ih.1 e hold

/-- An operation that `p` does not ask for is performed after `p` has ended. -/
theorem Follows.of_bind_mem {p : Prog Op Res α} {f : α → Prog Op Res β} {q : Prog Op Res β}
    (hf : Follows exec (p.bind f) h q) (hp : p.All P) {e : Event σ Op Res} (he : e ∈ h)
    (hnot : ¬ P e.op) : ∃ a later earlier, h = later ++ earlier ∧ Follows exec p earlier (.pure a) ∧
      Follows exec (f a) later q ∧ e ∈ later := by
  rcases hf.of_bind with ⟨p', hstill, -⟩ | ⟨a, later, earlier, rfl, hfirst, hrest⟩
  · exact absurd ((hp.follows hstill).1 e he) hnot
  · rcases List.mem_append.mp he with hlater | hearlier
    · exact ⟨a, later, earlier, rfl, hfirst, hrest, hlater⟩
    · exact absurd ((hp.follows hfirst).1 e hearlier) hnot

/-! ## A program that reads beside a system -/

section

variable {S A : Type} (exec) (step : S → A → Option S) (view : S → σ)

/-- A program whose operations leave the state as it is runs beside a system, which may
take any steps before and after each of them. -/
inductive Beside (s : S) (p : Prog Op Res α) : S → List (Event σ Op Res) → Prog Op Res α → Prop
  | start : Beside s p s [] p
  | others {s₁ s₂ : S} {h : List (Event σ Op Res)} {q : Prog Op Res α} {a : A} :
      Beside s p s₁ h q → step s₁ a = some s₂ → Beside s p s₂ h q
  | own {s₁ : S} {h : List (Event σ Op Res)} {o : Op} {k : Res o → Prog Op Res α} {r : Res o} :
      Beside s p s₁ h (.op o k) → exec o (view s₁) = some (view s₁, r) →
      Beside s p s₁ (⟨view s₁, o, r, view s₁⟩ :: h) (k r)

variable {exec step view} {s s' : S} {p q : Prog Op Res α} {h : List (Event σ Op Res)}

theorem Beside.follows (hb : Beside exec step view s p s' h q) : Follows exec p h q := by
  induction hb with
  | start => exact .start
  | others _ _ ih => exact ih
  | own _ hexec ih => exact .next ih hexec

/-- What the program reads are states with the invariant, in the order of time. -/
theorem Beside.recorded {I : S → Prop} {Ext : σ → σ → Prop} (hrefl : ∀ s, Ext s s)
    (htrans : ∀ {a b c}, Ext a b → Ext b c → Ext a c)
    (hstep : ∀ s a s', I s → step s a = some s' → I s' ∧ Ext (view s) (view s'))
    (hI : I s) (hb : Beside exec step view s p s' h q) :
    (I s' ∧ Ext (view s) (view s')) ∧
      (∀ e ∈ h, (∃ s₁, I s₁ ∧ view s₁ = e.pre) ∧ Ext (view s) e.pre ∧ Ext e.pre (view s')) ∧
      h.Pairwise fun new old => Ext old.pre new.pre := by
  induction hb with
  | start =>
    refine ⟨⟨hI, hrefl _⟩, ?_, List.Pairwise.nil⟩
    intro e he
    cases he
  | others _ hs ih =>
    obtain ⟨⟨hI₁, hext₁⟩, hpast, horder⟩ := ih
    obtain ⟨hI₂, hext₂⟩ := hstep _ _ _ hI₁ hs
    refine ⟨⟨hI₂, htrans hext₁ hext₂⟩, ?_, horder⟩
    intro e he
    obtain ⟨hthen, hbefore, hafter⟩ := hpast e he
    exact ⟨hthen, hbefore, htrans hafter hext₂⟩
  | own _ _ ih =>
    obtain ⟨⟨hI₁, hext₁⟩, hpast, horder⟩ := ih
    refine ⟨⟨hI₁, hext₁⟩, ?_, List.Pairwise.cons (fun old hold => (hpast old hold).2.2) horder⟩
    intro e he
    rcases List.mem_cons.mp he with rfl | hold
    · exact ⟨⟨_, hI₁, rfl⟩, hext₁, hrefl _⟩
    · exact hpast e hold

end

/-! ## The histories of a pool -/

/-- Every thread has followed the program of its tag. -/
def Pool.Tracked (exec : (o : Op) → σ → Option (σ × Res o)) (start : τ → Prog Op Res Unit)
    (p : Pool σ τ Op Res) : Prop :=
  ∀ t ∈ p.threads, Follows exec (start t.tag) t.hist t.prog

variable {start : τ → Prog Op Res Unit} {p p' : Pool σ τ Op Res}

theorem Pool.Tracked.spawn (hp : p.Tracked exec start) (tag : τ) :
    (p.spawn tag (start tag)).Tracked exec start := by
  intro t ht
  rcases List.mem_append.mp ht with hold | hnew
  · exact hp t hold
  · obtain rfl := List.mem_singleton.mp hnew
    exact .start

theorem Pool.Tracked.work (hp : p.Tracked exec start) {i : Nat} {t : Thread σ τ Op Res}
    {e : Event σ Op Res} (hw : p.work exec i = some (p', t, e)) : p'.Tracked exec start := by
  obtain ⟨hi, k, hprog, hpre, hexec, rfl⟩ := Pool.work_cases hw
  intro u hu
  rcases List.mem_or_eq_of_mem_set hu with hold | rfl
  · exact hp u hold
  · have hf := hp t (List.mem_of_getElem? hi)
    rw [hprog] at hf
    rw [← hpre] at hexec
    exact .next hf hexec

end O2Chat.Lib.Interleaving
