import Mathlib.Data.List.Basic

/-!
# First occurrence of a pattern in a list

`search pat l` is the position of the leftmost occurrence of `pat` in `l`. The
position of an occurrence does not change when more elements are appended, and a
stretch without the pattern's first element is skipped.
-/
namespace O2Chat.Lib.Search

variable {α : Type} [DecidableEq α]

def search (pat : List α) : List α → Option Nat
  | [] => if pat = [] then some 0 else none
  | a :: l => if pat <+: a :: l then some 0 else (search pat l).map (· + 1)

theorem search_length_le {pat l : List α} {n : Nat} (h : search pat l = some n) :
    n + pat.length ≤ l.length := by
  induction l generalizing n with
  | nil =>
    simp only [search] at h
    split at h
    · rename_i hpat
      obtain rfl := Option.some.inj h
      simp [hpat]
    · cases h
  | cons a l ih =>
    simp only [search] at h
    split at h
    · rename_i hpre
      obtain rfl := Option.some.inj h
      simpa using hpre.length_le
    · obtain ⟨k, hk, rfl⟩ := Option.map_eq_some_iff.mp h
      have := ih hk
      simp only [List.length_cons]
      omega

/-- An occurrence that is there already is found again when more arrives. -/
theorem search_append_right {pat l : List α} {n : Nat} (h : search pat l = some n)
    (m : List α) : search pat (l ++ m) = some n := by
  induction l generalizing n with
  | nil =>
    simp only [search] at h
    split at h
    · rename_i hpat
      obtain rfl := Option.some.inj h
      cases m <;> simp [search, hpat]
    · cases h
  | cons a l ih =>
    simp only [search] at h
    simp only [List.cons_append, search]
    split at h
    · rename_i hpre
      rw [if_pos (show pat <+: a :: (l ++ m) from hpre.trans (List.prefix_append (a :: l) m))]
      exact h
    · rename_i hpre
      obtain ⟨k, hk, rfl⟩ := Option.map_eq_some_iff.mp h
      have hlen := search_length_le hk
      -- an occurrence at the front would fit in `a :: l`, since one fits in `l`
      have hnot : ¬ pat <+: a :: (l ++ m) := fun hlong =>
        hpre (List.prefix_of_prefix_length_le hlong (List.prefix_append (a :: l) m)
          (by rw [List.length_cons]; omega))
      rw [if_neg hnot, ih hk]
      rfl

/-- A pattern at the front is found at the front. -/
theorem search_front (pat l : List α) : search pat (pat ++ l) = some 0 := by
  cases hpl : pat ++ l with
  | nil => simp [search, (List.append_eq_nil_iff.mp hpl).1]
  | cons a r =>
    have hpre : pat <+: a :: r := hpl ▸ List.prefix_append pat l
    simp [search, hpre]

/-- A pattern at the end is found. -/
theorem search_isSome_append (l pat : List α) : search pat (l ++ pat) ≠ none := by
  induction l with
  | nil =>
    have hfront := search_front pat []
    rw [List.append_nil] at hfront
    rw [List.nil_append, hfront]
    exact Option.some_ne_none 0
  | cons a l ih =>
    rw [List.cons_append, search]
    split
    · exact Option.some_ne_none 0
    · rwa [ne_eq, Option.map_eq_none_iff]

/-- The list is what is before the first occurrence, the pattern and what is after it. -/
theorem search_cut {pat l : List α} {n : Nat} (h : search pat l = some n) :
    l = l.take n ++ (pat ++ l.drop (n + pat.length)) := by
  induction l generalizing n with
  | nil =>
    have hlen := search_length_le h
    rw [List.length_nil] at hlen
    obtain rfl := List.length_eq_zero_iff.mp (show pat.length = 0 by omega)
    simp
  | cons a l ih =>
    simp only [search] at h
    split at h
    · rename_i hpre
      obtain rfl := Option.some.inj h
      rw [List.take_zero, List.nil_append, Nat.zero_add]
      exact List.prefix_iff_eq_append.mp hpre |>.symm
    · obtain ⟨k, hk, rfl⟩ := Option.map_eq_some_iff.mp h
      rw [List.take_succ_cons, List.cons_append, Nat.add_right_comm, List.drop_succ_cons, ← ih hk]

/-- An occurrence that ends where the list is cut is the first one there too. -/
theorem search_take {pat l : List α} {n : Nat} (h : search pat l = some n) :
    search pat (l.take n ++ pat) = some n := by
  have hcut := search_cut h
  cases hfound : search pat (l.take n ++ pat) with
  | none =>
    exact absurd hfound (search_isSome_append (l.take n) pat)
  | some m =>
    have hsame := search_append_right hfound (l.drop (n + pat.length))
    rw [List.append_assoc, ← hcut, h] at hsame
    exact hsame.symm

/-- Nothing is found exactly when there is no occurrence. -/
theorem search_eq_none_iff {pat l : List α} : search pat l = none ↔ ¬ pat <:+: l := by
  constructor
  · rintro h ⟨before, after, rfl⟩
    obtain ⟨n, hn⟩ := Option.ne_none_iff_exists'.mp (search_isSome_append before pat)
    rw [search_append_right hn after] at h
    cases h
  · intro h
    cases hfound : search pat l with
    | none => rfl
    | some n =>
      refine absurd ?_ h
      rw [search_cut hfound, ← List.append_assoc]
      exact ⟨_, _, rfl⟩

/-- Before the first occurrence there is none. -/
theorem not_infix_take {pat l : List α} {n : Nat} (hpat : pat ≠ []) (h : search pat l = some n) :
    ¬ pat <:+: l.take n := by
  intro hinfix
  obtain ⟨m, hm⟩ := Option.ne_none_iff_exists'.mp (mt search_eq_none_iff.mp (not_not.mpr hinfix))
  have hsame := search_append_right hm (l.drop n)
  rw [List.take_append_drop, h] at hsame
  obtain rfl := Option.some.inj hsame
  have hle := search_length_le hm
  have hpos := List.length_pos_iff.mpr hpat
  rw [List.length_take] at hle
  omega

theorem search_cons_ne {p a : α} (ps l : List α) (h : a ≠ p) :
    search (p :: ps) (a :: l) = (search (p :: ps) l).map (· + 1) := by
  have hnot : ¬ p :: ps <+: a :: l := fun hpre => h (List.cons_prefix_cons.mp hpre).1.symm
  rw [search, if_neg hnot]

/-- A stretch without the first element of the pattern is skipped. -/
theorem search_skip {p : α} (ps : List α) {run : List α} (l : List α) (h : p ∉ run) :
    search (p :: ps) (run ++ l) = (search (p :: ps) l).map (· + run.length) := by
  induction run with
  | nil => simp
  | cons a run ih =>
    have ha : a ≠ p := fun he => h (by simp [he])
    have hrun : p ∉ run := fun hm => h (List.mem_cons_of_mem _ hm)
    rw [List.cons_append, search_cons_ne ps _ ha, ih hrun, Option.map_map]
    rfl

theorem search_eq_none_of_notMem {p : α} (ps : List α) {l : List α} (h : p ∉ l) :
    search (p :: ps) l = none := by
  have hskip := search_skip ps [] h
  rw [List.append_nil] at hskip
  rw [hskip]
  simp [search]

/-- The first occurrence after a stretch without the pattern's first element. -/
theorem search_after {p : α} (ps : List α) {run : List α} (l : List α) (h : p ∉ run) :
    search (p :: ps) (run ++ (p :: ps ++ l)) = some run.length := by
  rw [search_skip ps _ h, search_front]
  simp

end O2Chat.Lib.Search
