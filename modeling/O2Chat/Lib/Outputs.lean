import O2Chat.Lib.Runs

/-!
# What a run puts out

The steps of a run put things out, one after the other. While an invariant holds that makes
the output of a step depend on its label alone, the output of the run is read off the labels.
-/
namespace O2Chat.Lib.Outputs

open O2Chat.Lib.Runs

variable {σ α β : Type} {step : σ → α → Option σ} {out : σ → α → List β} {s s' : σ} {as : List α}

/-- The outputs of the steps, in their order, up to one that cannot be made. -/
def outputs (step : σ → α → Option σ) (out : σ → α → List β) : σ → List α → List β
  | _, [] => []
  | s, a :: as =>
    out s a ++ match step s a with
      | some s' => outputs step out s' as
      | none => []

theorem runList_cons {a : α} (h : runList step anyStep s (a :: as) = some s') :
    ∃ s₁, step s a = some s₁ ∧ runList step anyStep s₁ as = some s' := by
  rw [runList, if_pos (show anyStep s a from trivial)] at h
  split at h
  · exact ⟨_, by assumption, h⟩
  · cases h

theorem outputs_cons {a : α} (h : step s a = some s') :
    outputs step out s (a :: as) = out s a ++ outputs step out s' as := by
  simp only [outputs, h]

/-- Where the labels tell the outputs, they tell that of a run. -/
theorem outputs_eq_flatMap {I : σ → Prop} {ok : α → Prop} {g : α → List β}
    (hkeep : ∀ s a s', I s → ok a → step s a = some s' → I s')
    (hout : ∀ s a, I s → ok a → out s a = g a) (hs : I s) (has : ∀ a ∈ as, ok a)
    (h : runList step anyStep s as = some s') : outputs step out s as = as.flatMap g := by
  induction as generalizing s with
  | nil => rfl
  | cons a as ih =>
    obtain ⟨hok, hrest⟩ := List.forall_mem_cons.mp has
    obtain ⟨s₁, hstep, hrun⟩ := runList_cons h
    rw [outputs_cons hstep, hout s a hs hok, ih (hkeep s a s₁ hs hok hstep) hrest hrun,
      List.flatMap_cons]

end O2Chat.Lib.Outputs
