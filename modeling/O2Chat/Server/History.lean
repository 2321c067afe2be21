import O2Chat.Db.Scans
import O2Chat.Lib.Greatest
import O2Chat.Server.Privacy

/-!
# What a history returns

`USER_HISTORY` scans the log once for each direction of a conversation, each scan limited
to twice the requested count, sorts what it has found by time and cuts it to the count.
The result is the newest part of the conversation, as long as the limit fits its 32 bits
and the two users are not the same.
-/
namespace O2Chat.Server

open O2Chat.Common O2Chat.Db O2Chat.Db.Storage O2Chat.Lib.Interleaving O2Chat.Lib.Runs
open O2Chat.Lib.Greatest

/-- The options of both scans. -/
def historyOpt (count : Nat) : GetMsgOpt := { maxCount := count * 2 % 2 ^ 32 }

/-- The messages that `USER_HISTORY` finds in a log for the first user. -/
def userHistory (env : Extern) (s : Storage) (userFrom userTo : User) (count : Nat) :
    Option (List Message) := do
  let msgsTo ← s.selectMessages (sentTo userFrom userTo) (historyOpt count)
  let msgsFrom ← s.selectMessages (sentTo userTo userFrom) (historyOpt count)
  return mixFromAndToMessages env msgsFrom msgsTo count

/-- The messages sent by one of the users to the self chat of the other one. -/
def conversation (s : Storage) (u v : User) : List Message :=
  s.messages.filter fun m => sentTo u v m || sentTo v u m

/-- The messages of one direction of the conversation. -/
def direction (s : Storage) (u v : User) : List Message := s.messages.filter (sentTo u v)

/-! ## Logs and tasks to run -/

namespace Sample

def askHistory (uid : Nat) (user : String) (count : Nat) : Task :=
  { cmd := .userHistory, client := 0,
    request := { uid, password := bytes "password", user := bytes user, count } }

def amyUser : User := { id := 1, selfChatId := 1, name := bytes "amy" }

def bobUser : User := { id := 2, selfChatId := 2, name := bytes "bob" }

/-- Amy has written to Bob, and Bob to Amy. -/
def letters : Storage :=
  { messages := [{ userFrom := 1, chatTo := 2, ts := 5 }, { userFrom := 2, chatTo := 1, ts := 6 },
      { userFrom := 1, chatTo := 2, ts := 6 }] }

/-- Amy writes to herself and asks for `count` messages to herself. -/
def monologue (count : Nat) : List WorkerAction :=
  alone 0 (create "amy") 3 ++ alone 1 (sendTo 0 1 "amy" "note") 5 ++
    alone 2 (askHistory 1 "amy" count) (5 + 2 * count)

/-- Amy writes to Bob three times and asks for the messages between them. -/
def threeLetters (count : Nat) : List WorkerAction :=
  alone 0 (create "amy") 3 ++ alone 1 (create "bob") 3 ++ alone 2 (sendTo 0 1 "bob" "one") 5 ++
    alone 3 (sendTo 0 1 "bob" "two") 5 ++ alone 4 (sendTo 0 1 "bob" "three") 5 ++
    alone 5 (askHistory 1 "bob" count) 9

end Sample

section

variable {env : Extern} {s : Storage} {u v : User} {count : Nat}

/-! ## The mix of two scans -/

theorem mixFromAndToMessages_eq (env : Extern) (from_ to_ : List Message) (max : Nat) :
    mixFromAndToMessages env from_ to_ max = (env.sortByTs (from_ ++ to_)).take max := by
  unfold mixFromAndToMessages
  dsimp only
  split
  · rename_i hshort
    rw [List.take_of_length_le hshort]
  · rfl

theorem userHistory_eq (env : Extern) (s : Storage) (u v : User) (count : Nat) :
    userHistory env s u v count = some ((env.sortByTs
      (limited (historyOpt count) (direction s v u).reverse ++
        limited (historyOpt count) (direction s u v).reverse)).take count) := by
  unfold userHistory direction
  rw [selectMessages_eq, selectMessages_eq, List.filter_reverse, List.filter_reverse]
  show some (mixFromAndToMessages env _ _ count) = _
  rw [mixFromAndToMessages_eq]

theorem sentTo_iff {m : Message} :
    sentTo u v m = true ↔ m.userFrom = u.id ∧ m.chatTo = v.selfChatId := decide_eq_true_iff

theorem sentTo_disjoint (huv : u.id ≠ v.id) {m : Message} (h : sentTo u v m = true) :
    sentTo v u m = false := by
  rw [sentTo_iff] at h
  rw [← Bool.not_eq_true, sentTo_iff]
  rintro ⟨hfrom, -⟩
  exact huv (h.1.symm.trans hfrom)

/-- The conversation of two users has two directions. -/
theorem conversation_perm (huv : u.id ≠ v.id) :
    (conversation s u v).Perm (direction s v u ++ direction s u v) := by
  have hto : (conversation s u v).filter (sentTo v u) = direction s v u := by
    unfold conversation direction
    rw [List.filter_filter]
    refine List.filter_congr fun m _ => ?_
    cases sentTo v u m <;> simp
  have hfrom : (conversation s u v).filter (fun m => !sentTo v u m) = direction s u v := by
    unfold conversation direction
    rw [List.filter_filter]
    refine List.filter_congr fun m _ => ?_
    cases hu : sentTo u v m with
    | true => simp [sentTo_disjoint huv hu]
    | false => cases sentTo v u m <;> simp
  rw [← hto, ← hfrom]
  exact (List.filter_append_perm _ _).symm

/-! ## The newest part of the conversation -/

theorem direction_descending (h : s.messages.Pairwise fun a b => a.ts ≤ b.ts) (u v : User) :
    Descending Message.ts (direction s u v).reverse :=
  List.pairwise_reverse.mpr (h.filter _)

theorem limited_historyOpt (hpos : 1 ≤ count) (hcount : count < 2 ^ 31) (l : List Message) :
    limited (historyOpt count) l = l.take (count * 2) := by
  have hfits : (historyOpt count).maxCount = count * 2 := by
    show count * 2 % 2 ^ 32 = count * 2
    omega
  unfold limited
  rw [hfits, if_neg (by omega)]

/-- In a log in the order of time, for two users and a count that can be doubled in 32
bits, the history is the newest part of the conversation, newest first: as many messages
as were requested, or all of them, and none of those left out is newer. -/
theorem history_newest (env : Extern) (s : Storage) (u v : User) (count : Nat)
    (hlog : s.messages.Pairwise fun a b => a.ts ≤ b.ts) (huv : u.id ≠ v.id) (hpos : 1 ≤ count)
    (hcount : count < 2 ^ 31) : ∃ rows, userHistory env s u v count = some rows ∧
      rows.Pairwise (fun a b => b.ts ≤ a.ts) ∧
      rows.length = min count (conversation s u v).length ∧ ∃ omitted,
        (conversation s u v).Perm (rows ++ omitted) ∧ ∀ m ∈ omitted, ∀ r ∈ rows, m.ts ≤ r.ts := by
  refine ⟨_, userHistory_eq env s u v count, ?_⟩
  rw [limited_historyOpt hpos hcount, limited_historyOpt hpos hcount]
  have htop := merge_top (k := count) (direction_descending hlog v u)
    (direction_descending hlog u v) (env.sortByTs_perm _) (env.sortByTs_sorted _)
    (by omega : count ≤ count * 2)
  have hboth : (conversation s u v).Perm ((direction s v u).reverse ++ (direction s u v).reverse) :=
    (conversation_perm huv).trans
      (((List.reverse_perm _).append (List.reverse_perm _)).symm)
  obtain ⟨hsorted, hlen, homitted⟩ := htop.of_perm hboth
  exact ⟨hsorted, hlen, homitted⟩

theorem history_newest_letters : ∃ rows,
    userHistory Sample.env Sample.letters Sample.amyUser Sample.bobUser 2 = some rows ∧ rows.length = 2 := by
  obtain ⟨rows, hrows, -, hlen, -⟩ := history_newest Sample.env Sample.letters Sample.amyUser Sample.bobUser 2
    (by decide) (by decide) (by decide) (by decide)
  exact ⟨rows, hrows, hlen⟩

/-! ## The number of messages -/

theorem length_limited (opt : GetMsgOpt) (l : List Message) : (limited opt l).length =
    if opt.maxCount = 0 then l.length else min opt.maxCount l.length := by
  unfold limited
  split
  · rfl
  · exact List.length_take

theorem length_userHistory {rows : List Message} (h : userHistory env s u v count = some rows) :
    rows.length = min count ((limited (historyOpt count) (direction s v u).reverse).length +
      (limited (historyOpt count) (direction s u v).reverse).length) := by
  rw [userHistory_eq] at h
  obtain rfl := Option.some.inj h
  rw [List.length_take, (env.sortByTs_perm _).length_eq, List.length_append]

/-- What is left of a doubled count, when a limit is below `2 * half`. -/
theorem doubled_cases {half : Nat} (h : count < 2 * half) :
    (count < half ∧ count * 2 % (2 * half) = count * 2) ∨
    (count = half ∧ count * 2 % (2 * half) = 0) ∨
    (half < count ∧ count * 2 % (2 * half) = count * 2 - 2 * half) := by
  rcases Nat.lt_trichotomy count half with hlt | rfl | hgt
  · exact Or.inl ⟨hlt, Nat.mod_eq_of_lt (by omega)⟩
  · exact Or.inr (Or.inl ⟨rfl, by rw [Nat.mul_comm, Nat.mod_self]⟩)
  · refine Or.inr (Or.inr ⟨hgt, ?_⟩)
    rw [Nat.mod_eq_sub_mod (by omega), Nat.mod_eq_of_lt (by omega)]

/-- When two scans with the doubled count as their limit, 0 standing for none, find enough
of `a` and `b` messages. -/
theorem enough_iff {half a b : Nat} (h : count < 2 * half) :
    min count ((if count * 2 % (2 * half) = 0 then a else min (count * 2 % (2 * half)) a) +
        (if count * 2 % (2 * half) = 0 then b else min (count * 2 % (2 * half)) b)) =
      min count (a + b) ↔
    count ≤ half ∨ (a ≤ count * 2 - 2 * half ∧ b ≤ count * 2 - 2 * half) ∨
      count ≤ min (count * 2 - 2 * half) a + min (count * 2 - 2 * half) b := by
  rcases doubled_cases h with ⟨hlt, hleft⟩ | ⟨rfl, hleft⟩ | ⟨hgt, hleft⟩
  · rw [hleft]
    split <;> omega
  · rw [hleft]
    simp
  · rw [hleft, if_neg (by omega), if_neg (by omega)]
    omega

/-- For two users the history has the requested number of messages, or all, exactly when
the count is at most `2^31`, or the limit that is left of the doubled count cuts neither
direction, or it leaves enough of both. -/
theorem history_complete_iff (env : Extern) (s : Storage) (u v : User) (count : Nat)
    (huv : u.id ≠ v.id) (hcount : count < 2 ^ 32) :
    (∃ rows, userHistory env s u v count = some rows ∧
      rows.length = min count (conversation s u v).length) ↔
    count ≤ 2 ^ 31 ∨
      ((direction s v u).length ≤ count * 2 - 2 ^ 32 ∧
        (direction s u v).length ≤ count * 2 - 2 ^ 32) ∨
      count ≤ min (count * 2 - 2 ^ 32) (direction s v u).length +
        min (count * 2 - 2 ^ 32) (direction s u v).length := by
  have hlen := length_userHistory (userHistory_eq env s u v count)
  have hall := (conversation_perm (s := s) huv).length_eq
  have hwidth : (2 : Nat) ^ 32 = 2 * 2 ^ 31 := rfl
  have hlimit : (historyOpt count).maxCount = count * 2 % (2 * 2 ^ 31) := rfl
  rw [List.length_append] at hall
  rw [length_limited, length_limited, List.length_reverse, List.length_reverse, hlimit] at hlen
  rw [hwidth] at hcount ⊢
  rw [← enough_iff hcount, ← hall, ← hlen, userHistory_eq]
  constructor
  · rintro ⟨rows, hrows, hfull⟩
    rw [Option.some.inj hrows]
    exact hfull
  · intro hfull
    exact ⟨_, rfl, hfull⟩

theorem history_complete_letters : ∃ rows,
    userHistory Sample.env Sample.letters Sample.amyUser Sample.bobUser (2 ^ 31) = some rows ∧
      rows.length = min (2 ^ 31) (conversation Sample.letters Sample.amyUser Sample.bobUser).length :=
  (history_complete_iff Sample.env Sample.letters Sample.amyUser Sample.bobUser (2 ^ 31) (by decide)
    (by decide)).mpr (Or.inl (Nat.le_refl _))

/-- Twice `2^31 + 1` is 2 in 32 bits: of three messages Amy gets two. -/
theorem wide_count_shortens : ∃ p t rows,
    Run (Workers.step Sample.env) anyStep Workers.init p ∧ t ∈ p.threads ∧
      t.tag = Sample.askHistory 1 "bob" (2 ^ 31 + 1) ∧ responses t.hist = [rows] ∧
      rows.length ≠ min (2 ^ 31 + 1) (conversation p.state.storage
        (p.state.storage.lookupUserById 1) (p.state.storage.lookupUserById 2)).length := by
  have hlist : (runList (Workers.step Sample.env) anyStep Workers.init
      (Sample.threeLetters (2 ^ 31 + 1))).any (fun p => p.threads[5]?.any fun t =>
        t.tag = Sample.askHistory 1 "bob" (2 ^ 31 + 1) ∧
        (responses t.hist).map (·.length) = [2] ∧ (conversation p.state.storage
          (p.state.storage.lookupUserById 1) (p.state.storage.lookupUserById 2)).length = 3) =
      true := by decide +kernel
  obtain ⟨p, hrun, hp⟩ := exists_run hlist
  obtain ⟨t, ht, hfacts⟩ := (Option.any_eq_true _ _).mp hp
  obtain ⟨htag, htwo, hthree⟩ := of_decide_eq_true hfacts
  obtain ⟨rows, hrows, hlen⟩ := List.map_eq_singleton_iff.mp htwo
  refine ⟨p, t, rows, hrun, List.mem_of_getElem? ht, htag, hrows, ?_⟩
  rw [hlen, hthree]
  decide

/-! ## Positions of the messages -/

def tsAt (s : Storage) (i : Nat) : Nat := ((s.messages[i]?).map (·.ts)).getD 0

/-- The positions in the log of the messages of a history: those of both scans, arranged
by descending `ts` in one of the orders a sort may leave them in, up to the count. -/
def ShownAt (s : Storage) (u v : User) (count : Nat) (shown : List Nat) : Prop :=
  ∃ arranged : List Nat, arranged.Perm (foundAt (sentTo v u) (historyOpt count) s.messages ++
      foundAt (sentTo u v) (historyOpt count) s.messages) ∧
    arranged.Pairwise (fun i j => tsAt s j ≤ tsAt s i) ∧ shown = arranged.take count

theorem foundAt_direction (s : Storage) (u v : User) (opt : GetMsgOpt) :
    (foundAt (sentTo u v) opt s.messages).map (s.messages[·]?) =
      (limited opt (direction s u v).reverse).map some := by
  rw [foundAt_rows, List.filter_reverse]
  rfl

/-- Every history is made of the messages at such positions. -/
theorem userHistory_shownAt {rows : List Message} (h : userHistory env s u v count = some rows) :
    ∃ shown, ShownAt s u v count shown ∧ shown.map (s.messages[·]?) = rows.map some := by
  rw [userHistory_eq] at h
  obtain rfl := Option.some.inj h
  have hperm := (env.sortByTs_perm (limited (historyOpt count) (direction s v u).reverse ++
    limited (historyOpt count) (direction s u v).reverse)).map some
  have hsorted := env.sortByTs_sorted (limited (historyOpt count) (direction s v u).reverse ++
    limited (historyOpt count) (direction s u v).reverse)
  rw [List.map_append, ← foundAt_direction, ← foundAt_direction, ← List.map_append] at hperm
  -- a permutation of the messages is one of their positions
  obtain ⟨arranged, hrows, harranged⟩ := (congrFun₂ (List.eq_map_comp_perm _) _ _).mpr hperm
  refine ⟨arranged.take count, ⟨arranged, harranged, ?_, rfl⟩, ?_⟩
  · have hts : (arranged.map (s.messages[·]?)).Pairwise
        (fun a b => (b.map (·.ts)).getD 0 ≤ (a.map (·.ts)).getD 0) := by
      rw [← hrows]
      exact List.pairwise_map.mpr hsorted
    exact List.pairwise_map.mp hts
  · rw [List.map_take, List.map_take, ← hrows]

theorem foundAt_nodup (pred : Message → Bool) (opt : GetMsgOpt) (table : List Message) :
    (foundAt pred opt table).Nodup :=
  (hits_nodup pred table).sublist (foundAt_sublist pred opt table)

/-- The scans for two users stop at different positions. -/
theorem scans_nodup (huv : u.id ≠ v.id) (opt : GetMsgOpt) :
    (foundAt (sentTo v u) opt s.messages ++ foundAt (sentTo u v) opt s.messages).Nodup := by
  rw [List.nodup_append]
  refine ⟨foundAt_nodup _ _ _, foundAt_nodup _ _ _, ?_⟩
  rintro i hi j hj rfl
  obtain ⟨m, hm, hto⟩ := mem_hits.mp ((foundAt_sublist _ _ _).subset hi)
  obtain ⟨n, hn, hfrom⟩ := mem_hits.mp ((foundAt_sublist _ _ _).subset hj)
  obtain rfl := Option.some.inj (hm.symm.trans hn)
  rw [sentTo_disjoint huv hfrom] at hto
  cases hto

theorem foundAt_eq_nil (h : direction s u v = []) (opt : GetMsgOpt) :
    foundAt (sentTo u v) opt s.messages = [] := by
  have hrows := foundAt_direction s u v opt
  rw [h] at hrows
  have hnone : limited opt ([] : List Message).reverse = [] := by
    simp [limited]
  rw [hnone] at hrows
  exact List.map_eq_nil_iff.mp hrows

theorem foundAt_ne_nil (h : direction s u v ≠ []) :
    foundAt (sentTo u v) (historyOpt count) s.messages ≠ [] := by
  intro hnone
  have hlen := congrArg List.length (foundAt_direction s u v (historyOpt count))
  rw [hnone, List.length_map, List.length_map, length_limited, List.length_reverse] at hlen
  have hpos := List.length_pos_iff.mpr h
  -- a limit other than 0 is at least 2
  have hlimit : (historyOpt count).maxCount = count * 2 % 2 ^ 32 := rfl
  rw [List.length_nil] at hlen
  split at hlen <;> omega

/-- Positions may be arranged with the newest one first, twice. -/
theorem exists_twice (s : Storage) {positions : List Nat} (h : positions ≠ []) :
    ∃ i rest, (i :: i :: rest).Perm (positions ++ positions) ∧
      (i :: i :: rest).Pairwise fun i j => tsAt s j ≤ tsAt s i := by
  have : Std.Total fun i j => tsAt s j ≤ tsAt s i := ⟨fun i j => Nat.le_total (tsAt s j) (tsAt s i)⟩
  have : IsTrans Nat fun i j => tsAt s j ≤ tsAt s i := ⟨fun _ _ _ h h' => Nat.le_trans h' h⟩
  have hsort := List.perm_insertionSort (fun i j => tsAt s j ≤ tsAt s i) positions
  have hsorted := List.pairwise_insertionSort (fun i j => tsAt s j ≤ tsAt s i) positions
  generalize positions.insertionSort (fun i j => tsAt s j ≤ tsAt s i) = sorted at hsort hsorted
  cases sorted with
  | nil => exact absurd hsort.nil_eq.symm h
  | cons i later =>
    obtain ⟨hnewest, -⟩ := List.pairwise_cons.mp hsorted
    have hrest := List.perm_insertionSort (fun i j => tsAt s j ≤ tsAt s i) (later ++ later)
    have hlater := List.pairwise_insertionSort (fun i j => tsAt s j ≤ tsAt s i) (later ++ later)
    generalize (later ++ later).insertionSort (fun i j => tsAt s j ≤ tsAt s i) = rest at hrest hlater
    have hbelow : ∀ j ∈ rest, tsAt s j ≤ tsAt s i := by
      intro j hj
      rcases List.mem_append.mp (hrest.subset hj) with hj | hj <;> exact hnewest j hj
    refine ⟨i, rest, ?_, ?_⟩
    · have hboth : (i :: i :: (later ++ later)).Perm ((i :: later) ++ (i :: later)) :=
        (List.perm_middle.symm).cons i
      exact ((hrest.cons i).cons i).trans (hboth.trans (hsort.append hsort))
    · refine List.Pairwise.cons ?_ (List.Pairwise.cons hbelow hlater)
      intro j hj
      rcases List.mem_cons.mp hj with rfl | hj
      · exact Nat.le_refl _
      · exact hbelow j hj

theorem nodup_of_short {l : List Nat} (h : l.length ≤ 1) : l.Nodup := by
  cases l with
  | nil => exact List.nodup_nil
  | cons i rest =>
    have hrest : rest = [] := List.eq_nil_of_length_eq_zero (by simpa using h)
    rw [hrest]
    exact List.nodup_singleton i

/-- In every reachable store, a history shows no stored message twice, exactly when the
two users are not the same, or at most one message was requested, or there are none. -/
theorem history_shows_once_iff (env : Extern) (p : Workers)
    (h : Run (Workers.step env) anyStep Workers.init p) (u v : User)
    (hu : u ∈ p.state.storage.users) (hv : v ∈ p.state.storage.users) (count : Nat) :
    (∀ shown, ShownAt p.state.storage u v count shown → shown.Nodup) ↔
      u.id ≠ v.id ∨ count ≤ 1 ∨ direction p.state.storage u v = [] := by
  have hi : p.state.storage.Integrity := (workers_safe h).inv
  generalize p.state.storage = s at hu hv hi
  constructor
  · intro hall
    by_contra hnot
    obtain ⟨hid, hcount, hsome⟩ : u.id = v.id ∧ 2 ≤ count ∧ direction s u v ≠ [] := by
      refine ⟨?_, ?_, ?_⟩
      · exact not_not.mp fun hne => hnot (Or.inl hne)
      · have hlarge : ¬ count ≤ 1 := fun hle => hnot (Or.inr (Or.inl hle))
        omega
      · exact fun hnil => hnot (Or.inr (Or.inr hnil))
    obtain rfl := hi.user_eq hu hv hid
    have hfound : foundAt (sentTo u u) (historyOpt count) s.messages ≠ [] := foundAt_ne_nil hsome
    obtain ⟨i, rest, hperm, hsorted⟩ := exists_twice s hfound
    have hshown := hall _ ⟨_, hperm, hsorted, rfl⟩
    obtain ⟨n, rfl⟩ : ∃ n, count = n + 2 := ⟨count - 2, by omega⟩
    rw [List.take_succ_cons, List.take_succ_cons] at hshown
    exact (List.nodup_cons.mp hshown).1 List.mem_cons_self
  · rintro hcond shown ⟨arranged, hperm, -, rfl⟩
    rcases hcond with hne | hone | hnil
    · have hnodup := hperm.nodup_iff.mpr (scans_nodup hne (historyOpt count))
      exact hnodup.sublist (List.take_sublist _ _)
    · apply nodup_of_short
      rw [List.length_take]
      omega
    · by_cases hne : u.id ≠ v.id
      · have hnodup := hperm.nodup_iff.mpr (scans_nodup hne (historyOpt count))
        exact hnodup.sublist (List.take_sublist _ _)
      · obtain rfl := hi.user_eq hu hv (not_not.mp hne)
        rw [foundAt_eq_nil hnil, List.append_nil] at hperm
        rw [hperm.eq_nil, List.take_nil]
        exact List.nodup_nil

theorem history_shows_once_letters : ∃ p u v,
    Run (Workers.step Sample.env) anyStep Workers.init p ∧ u.id ≠ v.id ∧
      (direction p.state.storage u v).length = 3 ∧
      ∀ shown, ShownAt p.state.storage u v 2 shown → shown.Nodup := by
  have hlist : (runList (Workers.step Sample.env) anyStep Workers.init (Sample.threeLetters 2)).any
      (fun p => p.state.storage.users[0]?.any fun u => p.state.storage.users[1]?.any fun v =>
        u.id ≠ v.id ∧ (direction p.state.storage u v).length = 3) = true := by decide +kernel
  obtain ⟨p, hrun, hp⟩ := exists_run hlist
  obtain ⟨u, hu, hp⟩ := (Option.any_eq_true _ _).mp hp
  obtain ⟨v, hv, hp⟩ := (Option.any_eq_true _ _).mp hp
  obtain ⟨hne, hthree⟩ := of_decide_eq_true hp
  exact ⟨p, u, v, hrun, hne, hthree, (history_shows_once_iff Sample.env p hrun u v
    (List.mem_of_getElem? hu) (List.mem_of_getElem? hv) 2).mpr (Or.inl hne)⟩

/-- The only message of the log is in the response twice. -/
theorem self_history_doubles : ∃ p t m, Run (Workers.step Sample.env) anyStep Workers.init p ∧
    t ∈ p.threads ∧ t.tag = Sample.askHistory 1 "amy" 2 ∧ p.state.storage.messages = [m] ∧
      responses t.hist = [[m, m]] := by
  have hlist : (runList (Workers.step Sample.env) anyStep Workers.init (Sample.monologue 2)).any
      (fun p => p.threads[2]?.any fun t => p.state.storage.messages.head?.any fun m =>
        t.tag = Sample.askHistory 1 "amy" 2 ∧ p.state.storage.messages = [m] ∧
          responses t.hist = [[m, m]]) = true := by decide +kernel
  obtain ⟨p, hrun, hp⟩ := exists_run hlist
  obtain ⟨t, ht, hp⟩ := (Option.any_eq_true _ _).mp hp
  obtain ⟨m, -, hfacts⟩ := (Option.any_eq_true _ _).mp hp
  obtain ⟨htag, hlog, hresponse⟩ := of_decide_eq_true hfacts
  exact ⟨p, t, m, hrun, List.mem_of_getElem? ht, htag, hlog, hresponse⟩

/-! ## The response of the worker -/

/-- Not the response to a `USER_HISTORY`. -/
def NotMessages (o : Op) : Prop := ∀ api rows, o ≠ .reply (.sendMessages api) rows

theorem notMessages_db (c : Call) : NotMessages (.db c) := by
  intro api rows heq
  cases heq

theorem notMessages_error (code : Nat) (api : ApiStatusCode) (desc : Bytes) :
    NotMessages (.reply (.sendErrorResponse code api desc) []) := by
  intro api' rows heq
  cases heq

/-- A history that goes on after a scan. -/
theorem follows_scan {pred : Message → Bool} {opt : GetMsgOpt} {k : List Message → Work Unit}
    {h : List Event} {q : Work Unit}
    (hf : Follows Op.exec ((call (.selectMessages pred opt)).bind k) h q) {e : Event} (he : e ∈ h)
    (hnot : ¬ NotMessages e.op) : ∃ scan ∈ h, ∃ msgs later,
      scan.pre.storage.selectMessages pred opt = some msgs ∧ Follows Op.exec (k msgs) later q ∧
      e ∈ later ∧ later ⊆ h := by
  rcases hf.of_op with ⟨rfl, -⟩ | ⟨s₁, msgs, s₂, later, hexec, rfl, hrest⟩
  · cases he
  obtain ⟨⟨s, msgs'⟩, hcall, heq⟩ := Option.map_eq_some_iff.mp hexec
  obtain ⟨msgs'', hscan, heq'⟩ := Option.map_eq_some_iff.mp hcall
  obtain ⟨-, rfl⟩ := Prod.mk.inj heq
  obtain ⟨-, rfl⟩ := Prod.mk.inj heq'
  refine ⟨_, List.mem_append_right _ List.mem_cons_self, msgs'', later, hscan, hrest, ?_,
    List.subset_append_left _ _⟩
  rcases List.mem_append.mp he with hlater | hthis
  · exact hlater
  · obtain rfl := List.mem_singleton.mp hthis
    exact absurd (notMessages_db _) hnot

/-- A worker responds with the mix of what its two scans have found, whatever the other
workers did between its operations. -/
theorem history_response {p : Workers} {ok : Workers → WorkerAction → Prop}
    (h : Run (Workers.step env) ok Workers.init p) {t : Thread} (ht : t ∈ p.threads)
    (hcmd : t.tag.cmd = .userHistory) {e : Event} (he : e ∈ t.hist) {api : List ApiMessage}
    {rows : List Message} (hop : e.op = .reply (.sendMessages api) rows) :
    ∃ e₁ ∈ t.hist, ∃ e₂ ∈ t.hist, ∃ u v msgsTo msgsFrom,
      e₁.pre.storage.selectMessages (sentTo u v) (historyOpt t.tag.request.count) = some msgsTo ∧
      e₂.pre.storage.selectMessages (sentTo v u) (historyOpt t.tag.request.count) = some msgsFrom ∧
      rows = mixFromAndToMessages env msgsFrom msgsTo t.tag.request.count := by
  have hfollows := workers_tracked h t ht
  have hnot : ¬ NotMessages e.op := fun hno => hno api rows hop
  have hlookup : ∀ c : Call, c.readOnly = true → NotMessages (.db c) := fun c _ => notMessages_db c
  unfold processTask at hfollows
  rw [hcmd] at hfollows
  obtain ⟨u, later, earlier, hhist, -, hrest, he⟩ := hfollows.of_bind_mem
    (all_lookupCheckPass hlookup notMessages_error env t.tag) he hnot
  by_cases hu : u.id = 0
  · rw [if_pos hu] at hrest
    rw [hrest.of_pure.1] at he
    cases he
  rw [if_neg hu] at hrest
  obtain ⟨v, later', earlier', hlater, -, hrest, he⟩ := hrest.of_bind_mem
    (all_lookupCheckPassByName hlookup notMessages_error env _ t.tag false) he hnot
  by_cases hv : v.id = 0
  · rw [if_pos hv] at hrest
    rw [hrest.of_pure.1] at he
    cases he
  rw [if_neg hv] at hrest
  obtain ⟨e₁, he₁, msgsTo, later₁, hto, hrest, he, hsub₁⟩ := follows_scan hrest he hnot
  obtain ⟨e₂, he₂, msgsFrom, later₂, hfrom, hrest, he, -⟩ := follows_scan hrest he hnot
  have hin : ∀ x ∈ later', x ∈ t.hist := by
    intro x hx
    rw [hhist, hlater]
    exact List.mem_append_left _ (List.mem_append_left _ hx)
  refine ⟨e₁, hin e₁ he₁, e₂, hin e₂ (hsub₁ he₂), u, v, msgsTo, msgsFrom, hto, hfrom, ?_⟩
  -- the names are looked up, then the response is sent
  have hformat : (toApiFormat (mixFromAndToMessages env msgsFrom msgsTo
      t.tag.request.count)).All NotMessages := by
    refine Prog.All.traverse (fun msg => ?_) _
    exact (all_call (notMessages_db _)).bind fun _ => (all_call (notMessages_db _)).bind fun _ => trivial
  obtain ⟨api', last, earlier'', -, -, hrest, he⟩ := hrest.of_bind_mem hformat he hnot
  rcases hrest.of_op with ⟨rfl, -⟩ | ⟨s₁, r, s₂, rest, -, rfl, hdone⟩
  · cases he
  rw [hdone.of_pure.1, List.nil_append] at he
  obtain rfl := List.mem_singleton.mp he
  exact (Op.reply.inj hop).2.symm

end

end O2Chat.Server
