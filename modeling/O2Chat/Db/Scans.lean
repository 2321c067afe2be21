import O2Chat.Db.Calls

/-!
# What the backward scans find and mark

A scan goes from the newest message to the oldest. `foundAt` are the positions in the log
at which it takes a message; `getMessages` marks these positions, and no others, as read.
-/
namespace O2Chat.Db.Storage

open O2Chat.Common

/-- The positions of the messages that satisfy the predicate, newest first. -/
def hits (pred : Message → Bool) (table : List Message) : List Nat :=
  (List.range table.length).reverse.filter fun i => table[i]?.any pred

/-- The positions that a scan takes: all of them without a limit, the newest otherwise. -/
def foundAt (pred : Message → Bool) (opt : GetMsgOpt) (table : List Message) : List Nat :=
  if opt.maxCount = 0 then hits pred table else (hits pred table).take opt.maxCount

/-- The log with the messages at these positions marked as read. -/
def markRead (positions : List Nat) (table : List Message) : List Message :=
  table.mapIdx fun i m => if i ∈ positions then { m with flags := .read } else m

/-! ## Positions and messages -/

/-- The positions below `i`. -/
def hitsBelow (pred : Message → Bool) (table : List Message) (i : Nat) : List Nat :=
  (List.range i).reverse.filter fun j => table[j]?.any pred

theorem hitsBelow_succ (pred : Message → Bool) {table : List Message} {i : Nat} {m : Message}
    (h : table[i]? = some m) : hitsBelow pred table (i + 1) =
      if pred m then i :: hitsBelow pred table i else hitsBelow pred table i := by
  unfold hitsBelow
  rw [List.range_succ, List.reverse_append, List.reverse_singleton, List.singleton_append,
    List.filter_cons, h]
  rfl

/-- The messages at the hits are the messages that satisfy the predicate. -/
theorem hitsBelow_rows (pred : Message → Bool) (table : List Message) (i : Nat)
    (hi : i ≤ table.length) : (hitsBelow pred table i).map (table[·]?) =
      ((table.take i).reverse.filter pred).map some := by
  induction i with
  | zero => rfl
  | succ i ih =>
    have hm : table[i]? = some table[i] := List.getElem?_eq_getElem hi
    have hrest := ih (Nat.le_of_succ_le hi)
    rw [hitsBelow_succ pred hm, take_succ_reverse hm, List.filter_cons]
    split
    · rw [List.map_cons, List.map_cons, hm, hrest]
    · exact hrest

theorem mem_hits {pred : Message → Bool} {table : List Message} {i : Nat} :
    i ∈ hits pred table ↔ ∃ m, table[i]? = some m ∧ pred m = true := by
  unfold hits
  rw [List.mem_filter, List.mem_reverse, List.mem_range, Option.any_eq_true]
  constructor
  · rintro ⟨-, m, hm, hp⟩
    exact ⟨m, hm, hp⟩
  · rintro ⟨m, hm, hp⟩
    obtain ⟨hi, -⟩ := List.getElem?_eq_some_iff.mp hm
    exact ⟨hi, m, hm, hp⟩

theorem hits_nodup (pred : Message → Bool) (table : List Message) : (hits pred table).Nodup := by
  have hrange : (List.range table.length).reverse.Nodup :=
    (List.reverse_perm _).nodup_iff.mpr List.nodup_range
  exact hrange.filter _

theorem foundAt_sublist (pred : Message → Bool) (opt : GetMsgOpt) (table : List Message) :
    List.Sublist (foundAt pred opt table) (hits pred table) := by
  unfold foundAt
  split
  · exact List.Sublist.refl _
  · exact List.take_sublist _ _

/-- The messages at the positions that a scan takes. -/
theorem foundAt_rows (pred : Message → Bool) (opt : GetMsgOpt) (table : List Message) :
    (foundAt pred opt table).map (table[·]?) =
      (limited opt (table.reverse.filter pred)).map some := by
  have hall : (hits pred table).map (table[·]?) = (table.reverse.filter pred).map some := by
    have hrows := hitsBelow_rows pred table table.length (Nat.le_refl _)
    rwa [List.take_length] at hrows
  unfold foundAt limited
  split
  · exact hall
  · rw [List.map_take, hall, List.map_take]

/-! ## Marks -/

theorem markRead_nil (table : List Message) : markRead [] table = table := by
  apply List.ext_getElem?
  intro j
  unfold markRead
  rw [List.getElem?_mapIdx]
  simp

theorem markRead_cons {table : List Message} {i : Nat} {m : Message} (h : table[i]? = some m)
    (positions : List Nat) : markRead (i :: positions) table =
      markRead positions (table.set i { m with flags := .read }) := by
  apply List.ext_getElem?
  intro j
  unfold markRead
  rw [List.getElem?_mapIdx, List.getElem?_mapIdx]
  by_cases hj : i = j
  · subst hj
    obtain ⟨hi, -⟩ := List.getElem?_eq_some_iff.mp h
    rw [List.getElem?_set_self hi, h]
    simp
  · have hne : j ≠ i := fun heq => hj heq.symm
    rw [List.getElem?_set_ne hj]
    simp [hne]

/-- The positions that a scan with `n` messages already takes out of these. -/
def remaining (opt : GetMsgOpt) (n : Nat) (positions : List Nat) : List Nat :=
  if opt.maxCount = 0 then positions else positions.take (opt.maxCount - n)

theorem remaining_cons {opt : GetMsgOpt} {n : Nat} (h : opt.maxCount = 0 ∨ n < opt.maxCount)
    (i : Nat) (positions : List Nat) :
    remaining opt n (i :: positions) = i :: remaining opt (n + 1) positions := by
  unfold remaining
  split
  · rfl
  · obtain ⟨d, hd⟩ : ∃ d, opt.maxCount - n = d + 1 := ⟨opt.maxCount - n - 1, by omega⟩
    have hd' : opt.maxCount - (n + 1) = d := by omega
    rw [hd, hd', List.take_succ_cons]

theorem remaining_full {opt : GetMsgOpt} {ret : List Message} (h : full opt ret = true)
    (positions : List Nat) : remaining opt ret.length positions = [] := by
  have hlim : opt.maxCount ≠ 0 ∧ opt.maxCount ≤ ret.length := by simpa [full] using h
  unfold remaining
  rw [if_neg hlim.1, Nat.sub_eq_zero_of_le hlim.2, List.take_zero]

/-- The loop of `getMessages` after the message at its index. -/
def getMessagesTail (chatid : Nat) (opt : GetMsgOpt) (i : Nat) (current ret : List Message) :
    Option (List Message × List Message) :=
  if full opt ret then some (current, ret)
  else match i with
    | 0 => some (current, ret)
    | i + 1 => getMessagesLoop chatid opt i current ret

theorem getMessagesLoop_hit {chatid : Nat} {opt : GetMsgOpt} {i : Nat} {current : List Message}
    {m : Message} (ret : List Message) (hm : current[i]? = some m)
    (hit : newer chatid opt.ts m = true) : getMessagesLoop chatid opt i current ret =
      getMessagesTail chatid opt i (current.set i { m with flags := .read }) (ret ++ [m]) := by
  rw [newer_iff] at hit
  cases i with
  | zero =>
    unfold getMessagesLoop getMessagesTail
    simp only [hm, if_pos hit]
  | succ i =>
    unfold getMessagesLoop getMessagesTail
    simp only [hm, if_pos hit]

theorem getMessagesLoop_miss {chatid : Nat} {opt : GetMsgOpt} {i : Nat} {current : List Message}
    {m : Message} (ret : List Message) (hm : current[i]? = some m)
    (miss : ¬ newer chatid opt.ts m = true) : getMessagesLoop chatid opt i current ret =
      getMessagesTail chatid opt i current ret := by
  rw [newer_iff] at miss
  cases i with
  | zero =>
    unfold getMessagesLoop getMessagesTail
    simp only [hm, if_neg miss]
  | succ i =>
    unfold getMessagesLoop getMessagesTail
    simp only [hm, if_neg miss]

/-- From an index on, the loop of `getMessages` marks what it still takes. The tail of the
loop does so for the positions below its index. -/
theorem getMessagesTail_marks (chatid : Nat) (opt : GetMsgOpt) (table : List Message) (i : Nat)
    (current ret : List Message) (hi : i ≤ table.length)
    (htake : current.take i = table.take i) :
    (getMessagesTail chatid opt i current ret).map (·.1) = some (markRead
      (remaining opt ret.length (hitsBelow (newer chatid opt.ts) table i)) current) := by
  induction i generalizing current ret with
  | zero =>
    have hnone : remaining opt ret.length (hitsBelow (newer chatid opt.ts) table 0) = [] := by
      simp [remaining, hitsBelow]
    rw [hnone, markRead_nil]
    unfold getMessagesTail
    split <;> rfl
  | succ i ih =>
    unfold getMessagesTail
    by_cases hfull : full opt ret = true
    · rw [if_pos hfull, remaining_full hfull, markRead_nil]
      rfl
    rw [if_neg hfull]
    have hroom : opt.maxCount = 0 ∨ ret.length < opt.maxCount :=
      full_eq_false.mp (by simpa using hfull)
    have hm : table[i]? = some table[i] := List.getElem?_eq_getElem hi
    have hcur : current[i]? = some table[i] := by
      have hsame := congrArg (·[i]?) htake
      simpa [List.getElem?_take, hm] using hsame
    have hbelow : current.take i = table.take i := by
      have hsame := congrArg (List.take i) htake
      simpa [List.take_take] using hsame
    rw [hitsBelow_succ _ hm]
    by_cases hit : newer chatid opt.ts table[i] = true
    · rw [if_pos hit, remaining_cons hroom, markRead_cons hcur]
      show (getMessagesLoop chatid opt i current ret).map _ = _
      rw [getMessagesLoop_hit ret hcur hit]
      have hkeep : (current.set i { table[i] with flags := .read }).take i = table.take i := by
        rw [List.take_set_of_le (Nat.le_refl _)]
        exact hbelow
      have hnext := ih _ (ret ++ [table[i]]) (Nat.le_of_succ_le hi) hkeep
      rwa [List.length_append] at hnext
    · rw [if_neg hit]
      show (getMessagesLoop chatid opt i current ret).map _ = _
      rw [getMessagesLoop_miss ret hcur hit]
      exact ih current ret (Nat.le_of_succ_le hi) hbelow

/-- `getMessages` returns what it finds and marks it. -/
theorem getMessages_marks (s : Storage) (chatid : Nat) (opt : GetMsgOpt) :
    s.getMessages chatid opt =
      some ({ s with messages := markRead (foundAt (newer chatid opt.ts) opt s.messages) s.messages },
        limited opt (s.messages.reverse.filter (newer chatid opt.ts))) := by
  obtain ⟨marked, -, heq⟩ := getMessages_eq s chatid opt
  rw [heq]
  suffices hmarks : marked = markRead (foundAt (newer chatid opt.ts) opt s.messages) s.messages by
    rw [hmarks]
  by_cases hempty : s.messages = []
  · simp only [getMessages, if_pos hempty, Option.some.injEq, Prod.mk.injEq] at heq
    have hmarked := congrArg Storage.messages heq.1
    rw [hempty] at hmarked ⊢
    exact hmarked.symm
  · have hpos : 0 < s.messages.length := List.length_pos_of_ne_nil hempty
    have hsucc : s.messages.length - 1 + 1 = s.messages.length := by omega
    have hloop : getMessagesTail chatid opt s.messages.length s.messages [] =
        getMessagesLoop chatid opt (s.messages.length - 1) s.messages [] := by
      have hnot : full opt [] = false := by
        rw [full_eq_false, List.length_nil]
        omega
      conv_lhs => rw [← hsucc]
      simp [getMessagesTail, hnot]
    have htail : (getMessagesTail chatid opt s.messages.length s.messages []).map (·.1) =
        some (markRead (foundAt (newer chatid opt.ts) opt s.messages) s.messages) :=
      getMessagesTail_marks chatid opt s.messages s.messages.length s.messages [] (Nat.le_refl _) rfl
    rw [hloop] at htail
    obtain ⟨⟨table, ret⟩, hres, rfl⟩ := Option.map_eq_some_iff.mp htail
    simp only [getMessages, if_neg hempty, hres, Option.bind_eq_bind, Option.bind_some,
      Option.pure_def, Option.some.injEq, Prod.mk.injEq] at heq
    exact (congrArg Storage.messages heq.1).symm

/-- Both scans return, newest first, the messages they look for: all of them when the
limit is 0, otherwise the first of them up to the limit. Neither leaves the log.
`selectMessages` changes nothing; `getMessages` marks the messages at the positions of
those it returns and changes nothing else. -/
theorem scans_exact (s : Storage) (chatid : Nat) (pred : Message → Bool) (opt : GetMsgOpt) :
    (Call.selectMessages pred opt).exec s =
        some (s, limited opt (s.messages.filter pred).reverse) ∧
    (Call.getMessages chatid opt).exec s =
        some ({ s with
            messages := markRead (foundAt (newer chatid opt.ts) opt s.messages) s.messages },
          limited opt (s.messages.filter (newer chatid opt.ts)).reverse) ∧
    (foundAt (newer chatid opt.ts) opt s.messages).map (s.messages[·]?) =
        (limited opt (s.messages.filter (newer chatid opt.ts)).reverse).map some := by
  rw [← List.filter_reverse, ← List.filter_reverse]
  refine ⟨?_, getMessages_marks s chatid opt, foundAt_rows _ opt s.messages⟩
  show (s.selectMessages pred opt).map _ = _
  rw [selectMessages_eq]
  rfl

end O2Chat.Db.Storage
