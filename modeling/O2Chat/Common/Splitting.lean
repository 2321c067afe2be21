import O2Chat.Common.Utils

/-!
# What `utils::split` and `utils::join` guarantee

`SplitRun` is the loop of `split` as it is written, with positions in the line; a run of
it is one that comes to an end. The rest of the development uses `splitMax` instead,
which is what every such run gives.
-/
namespace O2Chat.Common

open O2Chat.Lib.Search

variable {delimiter : Bytes} {maxParts : Int}

/-! ## The loop with positions -/

/-- `line.find(delimiter, pos)`. -/
def find (line delimiter : Bytes) (pos : Nat) : Option Nat :=
  if pos ≤ line.length then (search delimiter (line.drop pos)).map (pos + ·) else none

/-- `std::string(line.begin() + first, line.begin() + last)`. -/
def slice (line : Bytes) (first last : Nat) : Bytes := (line.drop first).take (last - first)

/-- The `while` loop from these values of `parts`, `prev_pos` and `strs`, and the values
of `prev_pos` and `strs` after it. -/
inductive SplitRun (line delimiter : Bytes) (maxParts : Int) :
    Nat → Nat → List Bytes → Nat → List Bytes → Prop
  | npos {parts prevPos : Nat} {strs : List Bytes} (h : find line delimiter prevPos = none) :
    SplitRun line delimiter maxParts parts prevPos strs prevPos strs
  | full {parts prevPos pos : Nat} {strs : List Bytes} (h : find line delimiter prevPos = some pos)
    (hfull : ((parts + 1 : Nat) : Int) = maxParts - 1) :
    SplitRun line delimiter maxParts parts prevPos strs (pos + delimiter.length)
      (strs ++ [slice line prevPos pos])
  | next {parts prevPos pos last : Nat} {strs parted : List Bytes}
    (h : find line delimiter prevPos = some pos) (hgoes : ((parts + 1 : Nat) : Int) ≠ maxParts - 1)
    (hrun : SplitRun line delimiter maxParts (parts + 1) (pos + delimiter.length)
      (strs ++ [slice line prevPos pos]) last parted) :
    SplitRun line delimiter maxParts parts prevPos strs last parted

/-- What follows the loop. -/
def lastPart (line : Bytes) (prevPos : Nat) (strs : List Bytes) : List Bytes :=
  if prevPos ≤ line.length then strs ++ [line.drop prevPos] else strs

theorem find_eq_none {line : Bytes} {pos : Nat} (h : search delimiter (line.drop pos) = none) :
    find line delimiter pos = none := by
  unfold find
  rw [h]
  exact ite_self _

theorem find_eq_some {line : Bytes} {pos n : Nat} (hpos : pos ≤ line.length)
    (h : search delimiter (line.drop pos) = some n) : find line delimiter pos = some (pos + n) := by
  unfold find
  rw [if_pos hpos, h]
  rfl

/-- The loop comes to an end, with the parts that `splitLoop` cuts off what is left. -/
theorem splitRun_splitLoop (line : Bytes) (hd : delimiter ≠ []) (fuel : Nat) :
    ∀ parts prevPos strs, prevPos ≤ line.length → line.length - prevPos ≤ fuel →
      ∃ last parted, SplitRun line delimiter maxParts parts prevPos strs last parted ∧
        lastPart line last parted =
          strs ++ splitLoop delimiter maxParts fuel parts (line.drop prevPos) := by
  have hlen := List.length_pos_iff.mpr hd
  induction fuel with
  | zero =>
    intro parts prevPos strs hpos hfuel
    have hend : line.drop prevPos = [] := List.drop_eq_nil_of_le (by omega)
    refine ⟨prevPos, strs, .npos (find_eq_none ?_), ?_⟩
    · rw [hend, search, if_neg hd]
    · rw [lastPart, if_pos hpos, splitLoop]
  | succ fuel ih =>
    intro parts prevPos strs hpos hfuel
    rw [splitLoop]
    cases hsearch : search delimiter (line.drop prevPos) with
    | none => exact ⟨prevPos, strs, .npos (find_eq_none hsearch), by rw [lastPart, if_pos hpos]⟩
    | some n =>
      have hfind := find_eq_some hpos hsearch
      have hle := search_length_le hsearch
      rw [List.length_drop] at hle
      have hslice : slice line prevPos (prevPos + n) = (line.drop prevPos).take n := by
        rw [slice, Nat.add_sub_cancel_left]
      have hafter : (line.drop prevPos).drop (n + delimiter.length) =
          line.drop (prevPos + n + delimiter.length) := by
        rw [List.drop_drop, Nat.add_assoc]
      dsimp only
      rw [hafter]
      by_cases hfull : ((parts + 1 : Nat) : Int) = maxParts - 1
      · refine ⟨_, _, .full hfind hfull, ?_⟩
        rw [lastPart, if_pos (by omega), if_pos hfull, hslice, List.append_assoc]
        rfl
      · obtain ⟨last, parted, hrun, hparts⟩ := ih (parts + 1) (prevPos + n + delimiter.length)
          (strs ++ [slice line prevPos (prevPos + n)]) (by omega) (by omega)
        refine ⟨last, parted, .next hfind hfull hrun, ?_⟩
        rw [hparts, if_neg hfull, hslice, List.append_assoc]
        rfl

/-- Every line is split, into the parts that `splitMax` gives. -/
theorem exists_splitRun (line : Bytes) (hd : delimiter ≠ []) :
    ∃ last parted, SplitRun line delimiter maxParts 0 0 [] last parted ∧
      lastPart line last parted = splitMax line delimiter maxParts := by
  have hrun := @splitRun_splitLoop delimiter maxParts line hd line.length 0 0 [] (by omega) (by omega)
  rwa [List.drop_zero, List.nil_append] at hrun

/-! ## The parts -/

theorem splitLoop_ne_nil (fuel parts : Nat) (rest : Bytes) :
    splitLoop delimiter maxParts fuel parts rest ≠ [] := by
  cases fuel with
  | zero => exact List.cons_ne_nil _ _
  | succ fuel =>
    rw [splitLoop]
    split
    · exact List.cons_ne_nil _ _
    · dsimp only
      split <;> exact List.cons_ne_nil _ _

/-- Joining the parts puts the delimiters back where they were found. -/
theorem join_splitLoop (fuel parts : Nat) (rest : Bytes) :
    join (splitLoop delimiter maxParts fuel parts rest) delimiter = rest := by
  unfold join
  induction fuel generalizing parts rest with
  | zero => exact List.intercalate_singleton
  | succ fuel ih =>
    rw [splitLoop]
    cases hsearch : search delimiter rest with
    | none => exact List.intercalate_singleton
    | some pos =>
      have hcut := search_cut hsearch
      dsimp only
      split
      · rw [List.intercalate_cons_cons, List.intercalate_singleton, List.append_assoc]
        exact hcut.symm
      · rw [List.intercalate_cons_of_ne_nil (splitLoop_ne_nil fuel _ _), ih, List.append_assoc]
        exact hcut.symm

theorem mem_join {parts : List Bytes} {part : Bytes} {b : UInt8} (connector : Bytes)
    (h : part ∈ parts) (hb : b ∈ part) : b ∈ join parts connector := by
  unfold join
  induction parts with
  | nil => cases h
  | cons first rest ih =>
    cases rest with
    | nil =>
      rw [List.intercalate_singleton, ← List.mem_singleton.mp h]
      exact hb
    | cons next rest =>
      rw [List.intercalate_cons_cons]
      rcases List.mem_cons.mp h with rfl | h
      · exact List.mem_append_left _ (List.mem_append_left _ hb)
      · exact List.mem_append_right _ (ih h)

/-- All parts but the last have been searched to their ends. -/
theorem notIn_dropLast_splitLoop (hd : delimiter ≠ []) (fuel parts : Nat) (rest : Bytes) :
    ∀ part ∈ (splitLoop delimiter maxParts fuel parts rest).dropLast, ¬ delimiter <:+: part := by
  induction fuel generalizing parts rest with
  | zero => exact fun part h => absurd h List.not_mem_nil
  | succ fuel ih =>
    rw [splitLoop]
    cases hsearch : search delimiter rest with
    | none => exact fun part h => absurd h List.not_mem_nil
    | some pos =>
      have hfirst := not_infix_take hd hsearch
      dsimp only
      split
      · intro part h
        rwa [List.mem_singleton.mp h]
      · rw [List.dropLast_cons_of_ne_nil (splitLoop_ne_nil fuel _ _)]
        intro part h
        rcases List.mem_cons.mp h with rfl | h
        · exact hfirst
        · exact ih _ _ part h

/-- Without a limit the last part has been searched too. -/
theorem notIn_splitLoop (hd : delimiter ≠ []) (fuel parts : Nat) (rest : Bytes)
    (hfuel : rest.length ≤ fuel) :
    ∀ part ∈ splitLoop delimiter (-1) fuel parts rest, ¬ delimiter <:+: part := by
  have hlen := List.length_pos_iff.mpr hd
  induction fuel generalizing parts rest with
  | zero =>
    intro part h hinfix
    obtain rfl := List.mem_singleton.mp h
    have hle := hinfix.length_le
    omega
  | succ fuel ih =>
    rw [splitLoop]
    cases hsearch : search delimiter rest with
    | none =>
      intro part h
      obtain rfl := List.mem_singleton.mp h
      exact search_eq_none_iff.mp hsearch
    | some pos =>
      have hle := search_length_le hsearch
      dsimp only
      rw [if_neg (by omega)]
      intro part h
      rcases List.mem_cons.mp h with rfl | h
      · exact not_infix_take hd hsearch
      · refine ih _ _ ?_ part h
        rw [List.length_drop]
        omega

/-- The loop of `split` comes to an end, and the parts are all of the line but the
delimiters. -/
theorem split_complete (line delimiter : Bytes) (hd : delimiter ≠ []) :
    (∃ last parted, SplitRun line delimiter (-1) 0 0 [] last parted ∧
      lastPart line last parted = split line delimiter) ∧
    1 ≤ (split line delimiter).length ∧ join (split line delimiter) delimiter = line ∧
    ∀ part ∈ split line delimiter, ¬ delimiter <:+: part :=
  ⟨exists_splitRun line hd, List.length_pos_iff.mpr (splitLoop_ne_nil _ _ _),
    join_splitLoop _ _ _, notIn_splitLoop hd _ _ _ (Nat.le_refl _)⟩

/-- The delimiter overlaps itself and ends the line. -/
theorem split_complete_overlap :
    join (split (bytes "xaaayaa") (bytes "aa")) (bytes "aa") = bytes "xaaayaa" ∧
      split (bytes "xaaayaa") (bytes "aa") = [bytes "x", bytes "ay", []] :=
  ⟨(split_complete (bytes "xaaayaa") (bytes "aa") (by decide)).2.2.1, by decide⟩

/-! ## The limit -/

/-- From two parts on, the limit is met before it is passed. -/
theorem length_splitLoop_le (fuel parts : Nat) (rest : Bytes) (h : (parts : Int) + 2 ≤ maxParts) :
    ((splitLoop delimiter maxParts fuel parts rest).length + parts : Int) ≤ maxParts := by
  induction fuel generalizing parts rest with
  | zero =>
    rw [splitLoop, List.length_singleton]
    omega
  | succ fuel ih =>
    rw [splitLoop]
    cases search delimiter rest with
    | none =>
      rw [List.length_singleton]
      omega
    | some pos =>
      dsimp only
      split
      · rw [List.length_cons, List.length_singleton]
        omega
      · have hnext := ih (parts + 1) (rest.drop (pos + delimiter.length)) (by omega)
        rw [List.length_cons]
        omega

/-- A limit of one part is not met at all. -/
theorem two_le_length_splitMax {line : Bytes} (hd : delimiter ≠ []) (h : delimiter <:+: line) :
    2 ≤ (splitMax line delimiter 1).length := by
  have hle := h.length_le
  have hlen := List.length_pos_iff.mpr hd
  obtain ⟨fuel, hfuel⟩ := Nat.exists_eq_add_one_of_ne_zero (show line.length ≠ 0 by omega)
  obtain ⟨pos, hpos⟩ := Option.ne_none_iff_exists'.mp (mt search_eq_none_iff.mp (not_not.mpr h))
  unfold splitMax
  rw [hfuel, splitLoop, hpos]
  dsimp only
  rw [if_neg (by omega), List.length_cons]
  have hrest := List.length_pos_iff.mpr
    (@splitLoop_ne_nil delimiter 1 fuel (0 + 1)
      (line.drop (pos + delimiter.length)))
  omega

/-- Joining gives back the line for every limit, of at least two parts or for a line that
is one part. In all others the limit is passed. -/
theorem splitMax_limited_iff (line delimiter : Bytes) (maxParts : Int) (hd : delimiter ≠ [])
    (hmax : 1 ≤ maxParts) :
    (((splitMax line delimiter maxParts).length : Int) ≤ maxParts ∧
      join (splitMax line delimiter maxParts) delimiter = line ∧
      ∀ part ∈ (splitMax line delimiter maxParts).dropLast, ¬ delimiter <:+: part) ↔
    2 ≤ maxParts ∨ ¬ delimiter <:+: line := by
  have hjoin : join (splitMax line delimiter maxParts) delimiter = line := join_splitLoop _ _ _
  have hparts : ∀ part ∈ (splitMax line delimiter maxParts).dropLast, ¬ delimiter <:+: part :=
    notIn_dropLast_splitLoop hd _ _ _
  constructor
  · rintro ⟨hlen, -, -⟩
    by_cases htwo : 2 ≤ maxParts
    · exact Or.inl htwo
    · obtain rfl : maxParts = 1 := by omega
      refine Or.inr fun hinfix => ?_
      have hmore := two_le_length_splitMax hd hinfix
      omega
  · intro h
    refine ⟨?_, hjoin, hparts⟩
    rcases h with htwo | hnot
    · have hlen := @length_splitLoop_le delimiter maxParts line.length 0 line
        (show ((0 : Nat) : Int) + 2 ≤ maxParts by omega)
      unfold splitMax
      omega
    · have hnone := search_eq_none_iff.mpr hnot
      have hone : splitMax line delimiter maxParts = [line] := splitLoop_none _ _ hnone
      rw [hone, List.length_singleton]
      omega

theorem splitMax_limited_two : (splitMax (bytes "a:b:c") (bytes ":") 2).length ≤ (2 : Int) ∧
    join (splitMax (bytes "a:b:c") (bytes ":") 2) (bytes ":") = bytes "a:b:c" := by
  obtain ⟨hlen, hjoin, -⟩ := (splitMax_limited_iff (bytes "a:b:c") (bytes ":") 2 (by decide)
    (by decide)).mpr (Or.inl (by decide))
  exact ⟨hlen, hjoin⟩

/-- One part is asked for, and three are given. -/
theorem one_part_exceeded : ¬ ((splitMax (bytes "a:b:c") (bytes ":") 1).length : Int) ≤ 1 := by
  decide

end O2Chat.Common
