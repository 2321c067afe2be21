import Mathlib.Order.RelClasses

/-!
# Maps ordered by a comparison of keys

A map is the list of its entries in the order of `lt`, a strict weak order on the keys.
Two keys are the same to the map when neither is before the other; a map has at most one
entry for a key, and setting a key changes what is found for the keys that are the same.
-/
namespace O2Chat.Lib.OrderedMap

variable {κ ν : Type*}

/-- Neither key is before the other. -/
def Same (lt : κ → κ → Prop) (a b : κ) : Prop := ¬ lt a b ∧ ¬ lt b a

section

variable {lt : κ → κ → Prop} [IsStrictWeakOrder κ lt] {a b c : κ}

omit [IsStrictWeakOrder κ lt] in
theorem Same.symm (h : Same lt a b) : Same lt b a := ⟨h.2, h.1⟩

theorem Same.trans (h : Same lt a b) (h' : Same lt b c) : Same lt a c :=
  IsStrictWeakOrder.incomp_trans a b c h h'

/-- The order does not tell keys apart that are the same. -/
theorem Same.lt_right (h : Same lt a b) (hlt : lt c b) : lt c a := by
  by_contra hnot
  have hac : ¬ lt a c := fun hac => h.1 (trans_of lt hac hlt)
  exact (Same.trans ⟨hnot, hac⟩ h).1 hlt

end

/-! ## Lists of entries -/

section

variable (lt : κ → κ → Prop) [DecidableRel lt]

/-- What the first entry holds that is not before the key, if the key is not before it. -/
def find (k : κ) : List (κ × ν) → Option ν
  | [] => none
  | e :: rest => if lt e.1 k then find k rest else if lt k e.1 then none else some e.2

/-- An entry for the key keeps its own spelling of it; a new one goes before the first entry
that is not before the key. -/
def set (k : κ) (v : ν) : List (κ × ν) → List (κ × ν)
  | [] => [(k, v)]
  | e :: rest =>
    if lt e.1 k then e :: set k v rest
    else if lt k e.1 then (k, v) :: e :: rest
    else (e.1, v) :: rest

/-- Every entry comes before those after it. -/
def Ordered (entries : List (κ × ν)) : Prop := entries.Pairwise fun e e' => lt e.1 e'.1

variable {lt} [IsStrictWeakOrder κ lt] {entries : List (κ × ν)}

omit [IsStrictWeakOrder κ lt] in
theorem find_same {e : κ × ν} {k : κ} (h : Same lt e.1 k) (rest : List (κ × ν)) :
    find lt k (e :: rest) = some e.2 := by
  rw [find, if_neg h.1, if_neg h.2]

/-- A key before the first entry is not found. -/
theorem find_before {e : κ × ν} {k : κ} (h : lt k e.1) (rest : List (κ × ν)) :
    find lt k (e :: rest) = none := by
  rw [find, if_neg (asymm_of lt h), if_pos h]

/-- For another key a new entry in front is not there. -/
theorem find_new {k k' : κ} (hother : ¬ Same lt k k') (v : ν)
    (hrest : lt k' k → find lt k' entries = none) :
    find lt k' ((k, v) :: entries) = find lt k' entries := by
  by_cases hlt : lt k k'
  · rw [find, if_pos hlt]
  · have hgt : lt k' k := not_not.mp fun hnot => hother ⟨hlt, hnot⟩
    rw [find_before hgt, hrest hgt]

omit [IsStrictWeakOrder κ lt] in
/-- For another key the value of an entry does not matter. -/
theorem find_changed {e : κ × ν} {k : κ} (hother : ¬ Same lt e.1 k) (v : ν) (rest : List (κ × ν)) :
    find lt k ((e.1, v) :: rest) = find lt k (e :: rest) := by
  by_cases hlt : lt e.1 k
  · rw [find, find, if_pos hlt, if_pos hlt]
  · have hgt : lt k e.1 := not_not.mp fun hnot => hother ⟨hlt, hnot⟩
    rw [find, find, if_neg hlt, if_neg hlt, if_pos hgt, if_pos hgt]

/-- Setting a key changes what is found for that key, in every spelling, and no other. -/
theorem find_set (k k' : κ) (v : ν) (entries : List (κ × ν)) :
    (Same lt k k' → find lt k' (set lt k v entries) = some v) ∧
      (¬ Same lt k k' → find lt k' (set lt k v entries) = find lt k' entries) := by
  induction entries with
  | nil => exact ⟨fun hsame => find_same hsame [], fun hother => find_new hother v fun _ => rfl⟩
  | cons e rest ih =>
    unfold set
    by_cases hbefore : lt e.1 k
    · rw [if_pos hbefore]
      constructor
      · intro hsame
        rw [find, if_pos (hsame.symm.lt_right hbefore)]
        exact ih.1 hsame
      · intro hother
        rw [find, find, ih.2 hother]
    · rw [if_neg hbefore]
      by_cases hafter : lt k e.1
      · -- a new entry in front of `e`
        rw [if_pos hafter]
        exact ⟨fun hsame => find_same hsame _,
          fun hother => find_new hother v fun hgt => find_before (trans_of lt hgt hafter) rest⟩
      · -- `e` is the entry for the key
        rw [if_neg hafter]
        have hkey : Same lt k e.1 := ⟨hafter, hbefore⟩
        exact ⟨fun hsame => find_same (e := (e.1, v)) (hkey.symm.trans hsame) rest,
          fun hother => find_changed (fun h => hother (hkey.trans h)) v rest⟩

omit [IsStrictWeakOrder κ lt] in
/-- What comes before all entries comes before a new one with a later key too. -/
theorem lt_of_mem_set {k a : κ} {v : ν} (hk : lt a k) (h : ∀ e ∈ entries, lt a e.1) :
    ∀ e ∈ set lt k v entries, lt a e.1 := by
  induction entries with
  | nil =>
    intro e he
    rwa [List.mem_singleton.mp he]
  | cons e rest ih =>
    have hhead := h e List.mem_cons_self
    have htail := ih fun e he => h e (List.mem_cons_of_mem _ he)
    unfold set
    intro e' he'
    split at he'
    · rcases List.mem_cons.mp he' with rfl | he'
      · exact hhead
      · exact htail e' he'
    · split at he'
      · rcases List.mem_cons.mp he' with rfl | he'
        · exact hk
        · exact h e' he'
      · rcases List.mem_cons.mp he' with rfl | he'
        · exact hhead
        · exact h e' (List.mem_cons_of_mem _ he')

theorem Ordered.set {k : κ} {v : ν} (h : Ordered lt entries) : Ordered lt (set lt k v entries) := by
  induction entries with
  | nil => exact List.pairwise_singleton _ _
  | cons e rest ih =>
    obtain ⟨hhead, htail⟩ := List.pairwise_cons.mp h
    unfold OrderedMap.set
    by_cases hbefore : lt e.1 k
    · rw [if_pos hbefore]
      exact List.pairwise_cons.mpr ⟨lt_of_mem_set hbefore hhead, ih htail⟩
    · rw [if_neg hbefore]
      by_cases hafter : lt k e.1
      · rw [if_pos hafter]
        refine List.pairwise_cons.mpr ⟨fun e' he' => ?_, h⟩
        rcases List.mem_cons.mp he' with rfl | he'
        · exact hafter
        · exact trans_of lt hafter (hhead e' he')
      · rw [if_neg hafter]
        exact List.pairwise_cons.mpr ⟨hhead, htail⟩

end

/-! ## Maps -/

/-- The entries of a map are in order. -/
structure Map (κ ν : Type*) (lt : κ → κ → Prop) where
  entries : List (κ × ν)
  ordered : Ordered lt entries

namespace Map

variable {lt : κ → κ → Prop}

def empty : Map κ ν lt := ⟨[], .nil⟩

variable [DecidableRel lt]

def find (m : Map κ ν lt) (k : κ) : Option ν := OrderedMap.find lt k m.entries

variable [IsStrictWeakOrder κ lt]

def set (m : Map κ ν lt) (k : κ) (v : ν) : Map κ ν lt :=
  ⟨OrderedMap.set lt k v m.entries, m.ordered.set⟩

theorem find_set_same (m : Map κ ν lt) {k k' : κ} (v : ν) (h : Same lt k k') :
    (m.set k v).find k' = some v :=
  (OrderedMap.find_set k k' v m.entries).1 h

theorem find_set_other (m : Map κ ν lt) {k k' : κ} (v : ν) (h : ¬ Same lt k k') :
    (m.set k v).find k' = m.find k' :=
  (OrderedMap.find_set k k' v m.entries).2 h

end Map

end O2Chat.Lib.OrderedMap
