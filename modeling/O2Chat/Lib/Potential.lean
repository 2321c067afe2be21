import O2Chat.Lib.Runs

/-!
# Runs paid for by a potential

Every step of a run costs something and may bring something in. When the potential of the
state covers the difference, a run costs no more than the potential it starts with and what
it has brought in.
-/
namespace O2Chat.Lib.Potential

open O2Chat.Lib.Runs

variable {σ α : Type} {step : σ → α → Option σ} {s₀ s : σ}

/-- What the steps of a run cost together. -/
def total (cost : α → Nat) : List α → Nat
  | [] => 0
  | a :: as => cost a + total cost as

@[simp] theorem total_nil (cost : α → Nat) : total cost [] = 0 := rfl

@[simp] theorem total_cons (cost : α → Nat) (a : α) (as : List α) :
    total cost (a :: as) = cost a + total cost as := rfl

/-- Steps that all cost the same. -/
theorem total_const (n : Nat) (as : List α) : total (fun _ => n) as = as.length * n := by
  induction as with
  | nil => simp
  | cons a as ih => rw [total_cons, ih, List.length_cons, Nat.succ_mul, Nat.add_comm]

/-- A run that starts where `I` holds and meets `ok` costs at most the potential it uses up and
what its steps bring in. -/
theorem runList_total_le (step : σ → α → Option σ) {ok : σ → α → Prop}
    [∀ s a, Decidable (ok s a)] {I : σ → Prop} {potential : σ → Nat} {cost gain : α → Nat}
    (hkeep : ∀ s a s', I s → ok s a → step s a = some s' → I s')
    (hpay : ∀ s a s', I s → ok s a → step s a = some s' →
      potential s' + cost a ≤ potential s + gain a)
    {as : List α} (h0 : I s₀) (h : runList step ok s₀ as = some s) :
    total cost as + potential s ≤ potential s₀ + total gain as := by
  induction as generalizing s₀ with
  | nil =>
    obtain rfl := Option.some.inj h
    simp
  | cons a as ih =>
    rw [runList] at h
    split at h
    · rename_i hok
      split at h
      · rename_i s₁ hs
        have hlater := ih (hkeep _ _ _ h0 hok hs) h
        have hnow := hpay _ _ _ h0 hok hs
        rw [total_cons, total_cons]
        omega
      · cases h
    · cases h

end O2Chat.Lib.Potential
