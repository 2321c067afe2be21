import Mathlib.Data.List.Perm.Basic
import Mathlib.Order.Lattice

/-!
# The greatest elements of a list

The `k` elements with the greatest keys, in descending order. When a list is put
together from descending parts, `k` elements of each part are enough to find its top:
what is cut off a part is below `k` elements that are kept.
-/
namespace O2Chat.Lib.Greatest

variable {α β : Type*} [LinearOrder β]

def Descending (key : α → β) (l : List α) : Prop := l.Pairwise fun a b => key b ≤ key a

/-- `top` are `k` elements of `l`, or all of them, and no other has a greater key. -/
structure Top (key : α → β) (k : Nat) (l top : List α) : Prop where
  descending : Descending key top
  length : top.length = min k l.length
  omitted : ∃ omitted, l.Perm (top ++ omitted) ∧ ∀ x ∈ omitted, ∀ y ∈ top, key x ≤ key y

variable {key : α → β} {k : Nat} {l l' top : List α}

theorem Descending.take_top (h : Descending key l) (k : Nat) : Top key k l (l.take k) := by
  have hparts : Descending key (l.take k ++ l.drop k) := by
    rw [List.take_append_drop]
    exact h
  obtain ⟨htake, -, hbelow⟩ := List.pairwise_append.mp hparts
  refine ⟨htake, List.length_take, l.drop k, ?_, fun x hx y hy => hbelow y hy x hx⟩
  rw [List.take_append_drop]

theorem Top.of_perm (h : Top key k l top) (hl : l'.Perm l) : Top key k l' top := by
  obtain ⟨omitted, hperm, hbelow⟩ := h.omitted
  exact ⟨h.descending, hl.length_eq ▸ h.length, omitted, hl.trans hperm, hbelow⟩

/-- The top of the elements kept is that of all elements when each one that was cut off is
below `k` elements kept. -/
theorem Top.of_cut {kept cut : List α} (h : Top key k kept top)
    (hcut : ∀ x ∈ cut, k ≤ kept.countP fun y => key x ≤ key y) :
    Top key k (kept ++ cut) top := by
  obtain ⟨omitted, hperm, hbelow⟩ := h.omitted
  have hlen : top.length = min k (kept ++ cut).length := by
    rw [h.length, List.length_append]
    cases cut with
    | nil => rfl
    | cons x cut =>
      have hk := hcut x List.mem_cons_self
      have hle := List.countP_le_length (p := fun y => decide (key x ≤ key y)) (l := kept)
      omega
  refine ⟨h.descending, hlen, omitted ++ cut, ?_, ?_⟩
  · rw [← List.append_assoc]
    exact hperm.append_right cut
  · intro x hx y hy
    rcases List.mem_append.mp hx with hom | hc
    · exact hbelow x hom y hy
    · -- otherwise fewer than `k` elements kept would be at or above `x`
      by_contra hlt
      have hk := hcut x hc
      have hnone : omitted.countP (fun z => key x ≤ key z) = 0 := by
        rw [List.countP_eq_zero]
        intro z hz hge
        exact hlt (le_trans (of_decide_eq_true hge) (hbelow z hz y hy))
      have hsome : top.countP (fun z => key x ≤ key z) < top.length := by
        refine Nat.lt_of_le_of_ne List.countP_le_length fun heq => hlt ?_
        exact of_decide_eq_true (List.countP_eq_length.mp heq y hy)
      rw [hperm.countP_eq, List.countP_append, hnone] at hk
      have hmin := h.length
      omega

/-- What is cut off a descending list is below all that is kept of it. -/
theorem Descending.below_take (h : Descending key l) {j : Nat} {x : α} (hx : x ∈ l.drop j) :
    j ≤ (l.take j).countP fun y => key x ≤ key y := by
  have hparts : Descending key (l.take j ++ l.drop j) := by
    rw [List.take_append_drop]
    exact h
  have hall : (l.take j).countP (fun y => key x ≤ key y) = (l.take j).length := by
    rw [List.countP_eq_length]
    intro y hy
    exact decide_eq_true ((List.pairwise_append.mp hparts).2.2 y hy x hx)
  have hpos := List.length_pos_of_mem hx
  rw [List.length_drop] at hpos
  rw [hall, List.length_take]
  omega

/-- The top of two descending lists is the top of their first `j` elements, merged. -/
theorem merge_top {a b merged : List α} {j : Nat} (ha : Descending key a) (hb : Descending key b)
    (hperm : merged.Perm (a.take j ++ b.take j)) (hmerged : Descending key merged) (hkj : k ≤ j) :
    Top key k (a ++ b) (merged.take k) := by
  have hkept := (hmerged.take_top k).of_perm hperm.symm
  have hcut : ∀ x ∈ a.drop j ++ b.drop j,
      k ≤ (a.take j ++ b.take j).countP fun y => key x ≤ key y := by
    intro x hx
    rw [List.countP_append]
    rcases List.mem_append.mp hx with hx | hx
    · have hge := ha.below_take hx
      omega
    · have hge := hb.below_take hx
      omega
  refine (hkept.of_cut hcut).of_perm ?_
  have hparts : (a ++ b).Perm ((a.take j ++ a.drop j) ++ (b.take j ++ b.drop j)) := by
    rw [List.take_append_drop, List.take_append_drop]
  refine hparts.trans ?_
  rw [List.append_assoc, List.append_assoc, ← List.append_assoc (a.drop j)]
  refine List.Perm.append_left _ ?_
  rw [← List.append_assoc]
  exact List.perm_append_comm.append_right _

end O2Chat.Lib.Greatest
