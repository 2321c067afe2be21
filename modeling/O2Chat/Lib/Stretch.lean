import Mathlib.Data.List.TakeWhile

/-!
# Stretches at the front of a list

The longest stretch of elements with a property is followed by an element without it, or
by nothing; and every such division of a list is that into `takeWhile` and `dropWhile`.
-/
namespace O2Chat.Lib.Stretch

variable {α : Type*} {p : α → Bool} {run rest : List α}

/-- The list does not begin with an element that has the property. -/
def Stops (p : α → Bool) (l : List α) : Prop := ∀ a t, l = a :: t → p a = false

theorem Stops.cons {a : α} (h : p a = false) (l : List α) : Stops p (a :: l) := by
  rintro b t heq
  obtain ⟨rfl, -⟩ := List.cons.inj heq
  exact h

theorem Stops.append (h : Stops p run) (hrest : Stops p rest) : Stops p (run ++ rest) := by
  cases run with
  | nil => exact hrest
  | cons a t => exact Stops.cons (h a t rfl) _

theorem stops_of_forall (hne : run ≠ []) (h : ∀ a ∈ run, p a = false) : Stops p (run ++ rest) := by
  obtain ⟨a, t, rfl⟩ := List.exists_cons_of_ne_nil hne
  exact Stops.cons (h a List.mem_cons_self) _

theorem Stops.takeWhile (h : Stops p rest) : rest.takeWhile p = [] := by
  cases rest with
  | nil => rfl
  | cons a t => rw [List.takeWhile_cons, h a t rfl, if_neg Bool.false_ne_true]

theorem Stops.dropWhile (h : Stops p rest) : rest.dropWhile p = rest := by
  cases rest with
  | nil => rfl
  | cons a t => rw [List.dropWhile_cons, h a t rfl, if_neg Bool.false_ne_true]

theorem takeWhile_stretch (hrun : ∀ a ∈ run, p a = true) (h : Stops p rest) :
    (run ++ rest).takeWhile p = run := by
  rw [List.takeWhile_append_of_pos hrun, h.takeWhile, List.append_nil]

theorem dropWhile_stretch (hrun : ∀ a ∈ run, p a = true) (h : Stops p rest) :
    (run ++ rest).dropWhile p = rest := by
  rw [List.dropWhile_append_of_pos hrun, h.dropWhile]

/-- Every list begins with such a stretch. -/
theorem exists_stretch (p : α → Bool) (l : List α) :
    ∃ run rest, l = run ++ rest ∧ (∀ a ∈ run, p a = true) ∧ Stops p rest := by
  refine ⟨l.takeWhile p, l.dropWhile p, List.takeWhile_append_dropWhile.symm, ?_, ?_⟩
  · exact fun a ha => List.mem_takeWhile_imp ha
  · intro a t h
    have hhead := List.head?_dropWhile_not p l
    rw [h] at hhead
    simpa using hhead

end O2Chat.Lib.Stretch
