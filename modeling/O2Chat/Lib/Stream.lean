import O2Chat.Lib.Search

/-!
# Reading from a stream that arrives in segments

A source holds what has been read into its buffer and the segments that later reads
will deliver. A reader `Yields` a result on a list of elements when it gives this
result, and leaves the same elements unread, on every source with these elements,
however they are divided. Readers made of such readers are such readers again.
-/
namespace O2Chat.Lib.Stream

open O2Chat.Lib.Search

variable {α β γ : Type}

structure Source (α : Type) where
  buffered : List α
  incoming : List (List α)
  deriving DecidableEq, Repr

/-- All elements that have not been consumed. -/
def Source.unread (src : Source α) : List α := src.buffered ++ src.incoming.flatten

/-- A computation on a source; `none` is an exception. -/
abbrev Reader (α β : Type) : Type := StateT (Source α) Option β

/-- Where to search next in the given elements, and whether they match. -/
abbrev MatchCondition (α : Type) : Type := List α → Nat × Bool

/-- Read segments until the condition, applied from the search position on, matches.
The position up to which it matched, if it did, and what has been read and not. -/
def readLoop (condition : MatchCondition α) :
    List (List α) → Nat → List α → Option Nat × Source α
  | incoming, searchPosition, buffered =>
    let result := condition (buffered.drop searchPosition)
    if result.2 then (some (searchPosition + result.1), ⟨buffered, incoming⟩)
    else
      match incoming with
      | [] => (none, ⟨buffered, []⟩)
      | segment :: rest => readLoop condition rest (searchPosition + result.1) (buffered ++ segment)

/-- Whether the condition matched before the stream ended. -/
def readUntilMatch (condition : MatchCondition α) : Reader α Bool := fun src =>
  let result := readLoop condition src.incoming 0 src.buffered
  some (result.1.isSome, result.2)

/-- Take exactly `n` elements out of the segments. -/
def takeSegments : Nat → List (List α) → Option (List α × List (List α))
  | 0, incoming => some ([], incoming)
  | _ + 1, [] => none
  | n + 1, segment :: rest =>
    if segment.length ≤ n + 1 then
      (takeSegments (n + 1 - segment.length) rest).map fun taken => (segment ++ taken.1, taken.2)
    else some (segment.take (n + 1), segment.drop (n + 1) :: rest)

/-- A condition that searches from the start again after each read, and does not
change its result when more elements arrive. -/
structure MatchCondition.Settled (condition : MatchCondition α) : Prop where
  restart : ∀ l, (condition l).2 = false → (condition l).1 = 0
  stable : ∀ l m, (condition l).2 = true → condition (l ++ m) = condition l

/-- The pattern occurs; the match ends where it begins. -/
def contains [DecidableEq α] (pat : List α) : MatchCondition α := fun l =>
  match search pat l with
  | some pos => (pos, true)
  | none => (0, false)

/-- At least `n` elements are there. -/
def atLeast (n : Nat) : MatchCondition α := fun l =>
  if n ≤ l.length then (n, true) else (0, false)

theorem contains_snd [DecidableEq α] (pat l : List α) :
    (contains pat l).2 = (search pat l).isSome := by
  unfold contains
  cases search pat l <;> rfl

theorem atLeast_snd (n : Nat) (l : List α) : (atLeast n l).2 = decide (n ≤ l.length) := by
  unfold atLeast
  by_cases h : n ≤ l.length <;> simp [h]

theorem contains_settled [DecidableEq α] (pat : List α) :
    (contains pat).Settled := by
  constructor
  · intro l h
    unfold contains at h ⊢
    cases hs : search pat l with
    | none => rfl
    | some pos => simp [hs] at h
  · intro l m h
    rw [contains_snd] at h
    obtain ⟨pos, hpos⟩ := Option.isSome_iff_exists.mp h
    simp only [contains, hpos, search_append_right hpos m]

theorem atLeast_settled (n : Nat) : (atLeast (α := α) n).Settled := by
  constructor
  · intro l h
    rw [atLeast_snd, decide_eq_false_iff_not] at h
    rw [atLeast, if_neg h]
  · intro l m h
    rw [atLeast_snd, decide_eq_true_iff] at h
    have hlong : n ≤ (l ++ m).length := by
      rw [List.length_append]
      omega
    rw [atLeast, atLeast, if_pos h, if_pos hlong]

/-! ## Results that do not depend on the segments -/

/-- On every source with the unread elements `s` the reader returns `b` and leaves `rest`. -/
def Yields (f : Reader α β) (s : List α) (b : β) (rest : List α) : Prop :=
  ∀ src, src.unread = s → ∃ src', f src = some (b, src') ∧ src'.unread = rest

theorem Yields.pure (s : List α) (b : β) : Yields (pure b) s b s :=
  fun src h => ⟨src, rfl, h⟩

theorem Yields.bind {f : Reader α β} {k : β → Reader α γ} {s t u : List α} {b : β} {c : γ}
    (hf : Yields f s b t) (hk : Yields (k b) t c u) : Yields (f >>= k) s c u := by
  intro src h
  obtain ⟨mid, hmid, hunread⟩ := hf src h
  obtain ⟨last, hlast, hrest⟩ := hk mid hunread
  refine ⟨last, ?_, hrest⟩
  show (f src).bind (fun r => k r.1 r.2) = some (c, last)
  rw [hmid]
  exact hlast

/-- A loop that starts from position 0 with the elements `s` still to come matches if
and only if the condition holds of all of `s`, and consumes nothing. -/
theorem readLoop_spec {condition : MatchCondition α} (hc : condition.Settled) :
    ∀ (incoming : List (List α)) (buffered : List α),
      (readLoop condition incoming 0 buffered).1.isSome =
          (condition (buffered ++ incoming.flatten)).2 ∧
        (readLoop condition incoming 0 buffered).2.unread = buffered ++ incoming.flatten := by
  intro incoming
  induction incoming with
  | nil =>
    intro buffered
    unfold readLoop
    cases hb : (condition buffered).2 <;> simp [hb, Source.unread]
  | cons segment rest ih =>
    intro buffered
    unfold readLoop
    rw [List.drop_zero]
    cases hb : (condition buffered).2 with
    | true =>
      rw [hc.stable buffered _ hb]
      simp [hb, Source.unread]
    | false =>
      obtain ⟨hmatch, hunread⟩ := ih (buffered ++ segment)
      rw [List.append_assoc] at hmatch hunread
      simp only [hb, hc.restart buffered hb, Bool.false_eq_true, if_false, Nat.add_zero]
      exact ⟨hmatch, hunread⟩

theorem readUntilMatch_yields {condition : MatchCondition α} (hc : condition.Settled)
    (s : List α) : Yields (readUntilMatch condition) s (condition s).2 s := by
  rintro ⟨buffered, incoming⟩ h
  obtain ⟨hmatch, hunread⟩ := readLoop_spec hc incoming buffered
  have hs : buffered ++ incoming.flatten = s := h
  rw [hs] at hmatch hunread
  refine ⟨_, ?_, hunread⟩
  rw [← hmatch]
  rfl

/-- A loop with a search condition stops at the first occurrence, with all of it in the
buffer. -/
theorem readLoop_contains [DecidableEq α] {pat s : List α} {pos : Nat} :
    ∀ (incoming : List (List α)) (buffered : List α), buffered ++ incoming.flatten = s →
      search pat s = some pos →
      (readLoop (contains pat) incoming 0 buffered).1 = some pos ∧
        search pat (readLoop (contains pat) incoming 0 buffered).2.buffered = some pos := by
  intro incoming
  induction incoming with
  | nil =>
    intro buffered hs hpos
    rw [List.flatten_nil, List.append_nil] at hs
    unfold readLoop
    simp [contains, hs, hpos]
  | cons segment rest ih =>
    intro buffered hs hpos
    unfold readLoop
    rw [List.drop_zero]
    cases hb : search pat buffered with
    | some n =>
      have hn := search_append_right hb (segment :: rest).flatten
      rw [hs, hpos] at hn
      simp [contains, hb, hn]
    | none =>
      have hnext := ih (buffered ++ segment) (by rw [List.append_assoc]; exact hs) hpos
      simpa [contains, hb] using hnext

theorem takeSegments_spec : ∀ (n : Nat) (incoming : List (List α)),
    n ≤ incoming.flatten.length → ∃ rest, takeSegments n incoming =
      some (incoming.flatten.take n, rest) ∧ rest.flatten = incoming.flatten.drop n := by
  intro n incoming
  induction incoming generalizing n with
  | nil =>
    intro h
    obtain rfl : n = 0 := by simpa using h
    exact ⟨[], rfl, rfl⟩
  | cons segment later ih =>
    intro h
    cases n with
    | zero => exact ⟨segment :: later, rfl, rfl⟩
    | succ n =>
      rw [takeSegments, List.flatten_cons]
      rw [List.flatten_cons, List.length_append] at h
      by_cases hle : segment.length ≤ n + 1
      · obtain ⟨rest, htake, hrest⟩ := ih (n + 1 - segment.length) (by omega)
        refine ⟨rest, ?_, ?_⟩
        · rw [if_pos hle, htake, List.take_append, List.take_of_length_le hle]
          rfl
        · rw [hrest, List.drop_append, List.drop_eq_nil_of_le hle, List.nil_append]
      · have hlt : n + 1 ≤ segment.length := by omega
        refine ⟨segment.drop (n + 1) :: later, ?_, ?_⟩
        · rw [if_neg hle, List.take_append_of_le_length hlt]
        · rw [List.flatten_cons, List.drop_append_of_le_length hlt]

/-! ## Repeated calls -/

/-- Call the reader up to `n` times, as long as its results let it go on. -/
def callTimes (f : Reader α β) (goesOn : β → Bool) : Nat → Reader α (List β)
  | 0 => pure []
  | n + 1 => do
    let b ← f
    if goesOn b then
      let bs ← callTimes f goesOn n
      pure (b :: bs)
    else pure [b]

/-- What this many applications of a parser give. -/
def parseTimes (g : List α → β × List α) (goesOn : β → Bool) : Nat → List α → List β × List α
  | 0, s => ([], s)
  | n + 1, s =>
    if goesOn (g s).1 then
      let parsed := parseTimes g goesOn n (g s).2
      ((g s).1 :: parsed.1, parsed.2)
    else ([(g s).1], (g s).2)

theorem callTimes_yields {f : Reader α β} {g : List α → β × List α} {goesOn : β → Bool}
    (h : ∀ s, Yields f s (g s).1 (g s).2) (n : Nat) (s : List α) :
    Yields (callTimes f goesOn n) s (parseTimes g goesOn n s).1 (parseTimes g goesOn n s).2 := by
  induction n generalizing s with
  | zero => exact Yields.pure s []
  | succ n ih =>
    rw [callTimes, parseTimes]
    apply (h s).bind
    cases goesOn (g s).1 with
    | true => exact (ih (g s).2).bind (Yields.pure _ _)
    | false => exact Yields.pure _ _

/-- A parser that undoes an encoding in front of any list undoes it along a list. -/
theorem parseTimes_flatMap {g : List α → β × List α} {goesOn : β → Bool} {encode : γ → List α}
    {decoded : γ → β} {P : γ → Prop}
    (hg : ∀ x, P x → ∀ rest, g (encode x ++ rest) = (decoded x, rest))
    (hgoes : ∀ x, goesOn (decoded x) = true) {xs : List γ} (hxs : ∀ x ∈ xs, P x) :
    parseTimes g goesOn xs.length (xs.flatMap encode) = (xs.map decoded, []) := by
  induction xs with
  | nil => rfl
  | cons x xs ih =>
    have hx := hg x (hxs x List.mem_cons_self) (xs.flatMap encode)
    have htail := ih fun y hy => hxs y (List.mem_cons_of_mem _ hy)
    rw [List.length_cons, List.flatMap_cons, parseTimes, hx]
    dsimp only
    rw [if_pos (hgoes x), htail]
    rfl

/-- Two sources with the same unread elements give the same results and leave the same
elements unread. -/
theorem Yields.same {f : Reader α β} {s rest : List α} {b : β} (h : Yields f s b rest)
    {src₁ src₂ : Source α} (h₁ : src₁.unread = s) (h₂ : src₂.unread = s) :
    ∃ src₁' src₂', f src₁ = some (b, src₁') ∧ f src₂ = some (b, src₂') ∧
      src₁'.unread = src₂'.unread := by
  obtain ⟨src₁', hf₁, hr₁⟩ := h src₁ h₁
  obtain ⟨src₂', hf₂, hr₂⟩ := h src₂ h₂
  exact ⟨src₁', src₂', hf₁, hf₂, hr₁.trans hr₂.symm⟩

end O2Chat.Lib.Stream
