import Mathlib.Data.List.Basic

/-!
# Runs of a labelled step function

A system is a partial step function on states and labels. `Run` collects the
states reached by steps that all meet a side condition on the state before the
step and its label; with the trivial condition these are the reachable states.
`runList` executes a list of labels, so that a closed run can be evaluated.
-/
namespace O2Chat.Lib.Runs

variable {σ α : Type}

/-- The states reached from `s₀` by steps that all meet `ok`. -/
inductive Run (step : σ → α → Option σ) (ok : σ → α → Prop) (s₀ : σ) : σ → Prop
  | refl : Run step ok s₀ s₀
  | tail {s s' : σ} {a : α} : Run step ok s₀ s → ok s a → step s a = some s' →
      Run step ok s₀ s'

/-- The side condition every step meets. -/
def anyStep : σ → α → Prop := fun _ _ => True

instance (s : σ) (a : α) : Decidable (anyStep s a) := inferInstanceAs (Decidable True)

variable {step : σ → α → Option σ} {ok ok' : σ → α → Prop} {s₀ s s' : σ}

/-- What holds at the start and is kept by every admissible step holds throughout. -/
theorem Run.invariant {I : σ → Prop} (h : Run step ok s₀ s) (h0 : I s₀)
    (hstep : ∀ s a s', I s → ok s a → step s a = some s' → I s') : I s := by
  induction h with
  | refl => exact h0
  | tail _ hok hs ih => exact hstep _ _ _ ih hok hs

/-- What holds throughout may be asked of every step. -/
theorem Run.strengthen {I : σ → Prop} (h : Run step ok s₀ s) (h0 : I s₀)
    (hstep : ∀ s a s', I s → ok s a → step s a = some s' → I s') :
    Run step (fun s a => ok s a ∧ I s) s₀ s := by
  induction h with
  | refl => exact .refl
  | tail hrun hok hs ih => exact .tail ih ⟨hok, hrun.invariant h0 hstep⟩ hs

theorem Run.mono (h : Run step ok s₀ s) (himp : ∀ s a, ok s a → ok' s a) :
    Run step ok' s₀ s := by
  induction h with
  | refl => exact .refl
  | tail _ hok hs ih => exact .tail ih (himp _ _ hok) hs

theorem Run.trans (h : Run step ok s₀ s) (h' : Run step ok s s') : Run step ok s₀ s' := by
  induction h' with
  | refl => exact h
  | tail _ hok hs ih => exact .tail ih hok hs

/-- A run of one system is a run of another that matches it step by step. -/
theorem Run.map {τ β : Type} {step' : τ → β → Option τ} {okT : τ → β → Prop} (f : σ → τ)
    (hsim : ∀ s a s', ok s a → step s a = some s' → Run step' okT (f s) (f s'))
    (h : Run step ok s₀ s) : Run step' okT (f s₀) (f s) := by
  induction h with
  | refl => exact .refl
  | tail _ hok hs ih => exact ih.trans (hsim _ _ _ hok hs)

/-- Execute labels in order, checking the side condition at each step. -/
def runList (step : σ → α → Option σ) (ok : σ → α → Prop) [∀ s a, Decidable (ok s a)] :
    σ → List α → Option σ
  | s, [] => some s
  | s, a :: as =>
    if ok s a then
      match step s a with
      | some s' => runList step ok s' as
      | none => none
    else none

variable [∀ s a, Decidable (ok s a)]

theorem Run.of_runList {as : List α} (h : Run step ok s₀ s)
    (hr : runList step ok s as = some s') : Run step ok s₀ s' := by
  induction as generalizing s with
  | nil =>
    obtain rfl := Option.some.inj hr
    exact h
  | cons a as ih =>
    simp only [runList] at hr
    split at hr
    · rename_i hok
      cases hs : step s a with
      | none => simp [hs] at hr
      | some s₁ => exact ih (.tail h hok hs) (by simpa [hs] using hr)
    · exact absurd hr (by simp)

/-- A closed run that ends in a state with the decidable property `p`. -/
theorem exists_run {as : List α} {p : σ → Bool}
    (h : (runList step ok s₀ as).any p = true) : ∃ s, Run step ok s₀ s ∧ p s = true := by
  obtain ⟨s, hs, hp⟩ := (Option.any_eq_true _ _).mp h
  exact ⟨s, Run.of_runList .refl hs, hp⟩

end O2Chat.Lib.Runs
