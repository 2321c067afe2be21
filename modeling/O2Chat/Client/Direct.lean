import O2Chat.Client.Input
import O2Chat.Common.Splitting
import O2Chat.Lib.Stretch

/-!
# Where the name of a direct message ends

`parse` finds the name of a direct message by splitting the line at its spaces, and the
text by a regular expression that takes two words off the front of the line. The two
agree for the names that are one word to the expression: after any other byte of the
name the text begins too early.
-/
namespace O2Chat.Client

open O2Chat.Common O2Chat.Lib.Stretch

/-! ## Matching in order -/

/-- The first way to match the rest after the first way to match the front. -/
theorem head?_flatMap_first {α β : Type*} {l : List α} {f : α → List β} {a : α} {b : β}
    (h : l.head? = some a) (hf : (f a).head? = some b) : (l.flatMap f).head? = some b := by
  obtain ⟨others, rfl⟩ := List.head?_eq_some_iff.mp h
  rw [List.flatMap_cons, List.head?_append, hf]
  rfl

theorem afterStar_first {p : UInt8 → Bool} {run rest : Bytes} (hrun : ∀ b ∈ run, p b = true)
    (hrest : Stops p rest) : (afterStar p (run ++ rest)).head? = some rest := by
  unfold afterStar
  rw [takeWhile_stretch hrun hrest, List.range_succ, List.reverse_append, List.map_append]
  exact congrArg some List.drop_left

theorem afterStar_stops {p : UInt8 → Bool} {s : Bytes} (h : Stops p s) : afterStar p s = [s] := by
  unfold afterStar
  rw [h.takeWhile]
  rfl

theorem afterStar_one {p : UInt8 → Bool} {b : UInt8} {rest : Bytes} (hb : p b = true)
    (hrest : Stops p rest) : afterStar p (b :: rest) = [rest, b :: rest] := by
  unfold afterStar
  rw [List.takeWhile_cons_of_pos hb, hrest.takeWhile]
  rfl

theorem afterPlus_stops {p : UInt8 → Bool} {s : Bytes} (h : Stops p s) : afterPlus p s = [] := by
  unfold afterPlus
  rw [h.takeWhile]
  rfl

/-- The whole stretch first, then what is shorter than it. -/
theorem afterPlus_last {p : UInt8 → Bool} {run rest : Bytes} {b : UInt8}
    (hrun : ∀ a ∈ run ++ [b], p a = true) (hrest : Stops p rest) :
    afterPlus p (run ++ b :: rest) = rest ::
      (List.range run.length).reverse.map fun n => (run ++ b :: rest).drop (n + 1) := by
  have hsplit : run ++ b :: rest = (run ++ [b]) ++ rest := by rw [List.append_assoc]; rfl
  have hlen : (run ++ [b]).length = run.length + 1 := List.length_append
  unfold afterPlus
  rw [hsplit, takeWhile_stretch hrun hrest, hlen, List.range_succ, List.reverse_append,
    List.reverse_singleton, List.map_append, List.map_singleton, ← hlen, List.drop_left]
  rfl

theorem afterPlus_first {p : UInt8 → Bool} {run rest : Bytes} (hne : run ≠ [])
    (hrun : ∀ b ∈ run, p b = true) (hrest : Stops p rest) :
    (afterPlus p (run ++ rest)).head? = some rest := by
  obtain ⟨front, b, rfl⟩ := List.eq_nil_or_concat' run |>.resolve_left hne
  rw [List.append_assoc]
  exact congrArg List.head? (afterPlus_last hrun hrest)

/-- The second way gives the last byte of the stretch back. -/
theorem afterPlus_second {p : UInt8 → Bool} {run rest : Bytes} {b : UInt8} (hne : run ≠ [])
    (hrun : ∀ a ∈ run ++ [b], p a = true) (hrest : Stops p rest) :
    ∃ shorter, afterPlus p (run ++ b :: rest) = rest :: (b :: rest) :: shorter := by
  obtain ⟨n, hn⟩ := Nat.exists_eq_succ_of_ne_zero (List.length_pos_iff.mpr hne).ne'
  rw [afterPlus_last hrun hrest, hn, List.range_succ, List.reverse_append, List.reverse_singleton,
    List.map_append, List.map_singleton, ← Nat.succ_eq_add_one, ← hn, List.drop_left]
  exact ⟨_, rfl⟩

/-! ## The bytes of a word -/

theorem isspace_of_isWord : ∀ b : UInt8, isWord b = true → isspace b = false :=
  forall_byte (by decide +kernel)

theorem isWord_of_tolower : ∀ b : UInt8, isWord (tolower b) = true → isWord b = true :=
  forall_byte (by decide +kernel)

/-- Blanks are the only bytes that end a line. -/
theorem inLine_of_isspace : ∀ b : UInt8, isspace b = false → (b ≠ LF && b ≠ CR) = true :=
  forall_byte (by decide +kernel)

theorem isspace_blank : ∀ b ∈ bytes " ", isspace b = true := by decide +kernel

theorem stops_blank (s : Bytes) : Stops isWord (32 :: s) := Stops.cons (by decide) s

/-- The command words, in any letter case. -/
def DirectCommand (word : Bytes) (cmd : InputCmd) : Prop :=
  (lowercased word = bytes "direct_msg" ∧ cmd = .directMsgUser) ∨
    (lowercased word = bytes "direct_msg_g" ∧ cmd = .directMsgGroup)

theorem isWord_of_lowercased {word : Bytes} (h : ∀ b ∈ lowercased word, isWord b = true) :
    ∀ b ∈ word, isWord b = true :=
  fun _ hb => isWord_of_tolower _ (h _ (List.mem_map_of_mem hb))

theorem DirectCommand.isWord {word : Bytes} {cmd : InputCmd} (h : DirectCommand word cmd) :
    ∀ b ∈ word, isWord b = true := by
  apply isWord_of_lowercased
  rcases h with ⟨hword, -⟩ | ⟨hword, -⟩ <;> rw [hword] <;> decide +kernel

theorem DirectCommand.two_le_length {word : Bytes} {cmd : InputCmd} (h : DirectCommand word cmd) :
    2 ≤ word.length := by
  have hlen : (lowercased word).length = word.length := List.length_map ..
  rcases h with ⟨hword, -⟩ | ⟨hword, -⟩ <;> rw [← hlen, hword] <;> decide

/-! ## The text -/

/-- What may be left after the second word and the blanks around it. -/
def afterName (s : Bytes) : List Bytes :=
  (afterStar isspace s).flatMap fun s => (afterPlus isWord s).flatMap fun s => afterStar isspace s

/-- The first way to match is taken if what it leaves is one line. -/
theorem getMsgAfterCommand_first {line left : Bytes}
    (h : ((afterStar isspace line).flatMap fun s => (afterPlus isWord s).flatMap afterName).head? =
      some left) (hleft : isLine left = true) : getMsgAfterCommand line = left := by
  obtain ⟨others, hrests⟩ := List.head?_eq_some_iff.mp h
  unfold getMsgAfterCommand
  dsimp only
  rw [show ((afterStar isspace line).flatMap fun s => (afterPlus isWord s).flatMap fun s =>
    (afterStar isspace s).flatMap fun s => (afterPlus isWord s).flatMap fun s =>
      afterStar isspace s) = left :: others from hrests, List.find?_cons, hleft]
  rfl

/-- A word is taken whole, with the blanks before it. -/
theorem afterName_first {blanks run rest left : Bytes} (hblanks : ∀ b ∈ blanks, isspace b = true)
    (hne : run ≠ []) (hrun : ∀ b ∈ run, isWord b = true) (hrest : Stops isWord rest)
    (hleft : (afterStar isspace rest).head? = some left) :
    (afterName (blanks ++ (run ++ rest))).head? = some left := by
  have hword : Stops isspace (run ++ rest) :=
    stops_of_forall hne fun b hb => isspace_of_isWord b (hrun b hb)
  exact head?_flatMap_first (afterStar_first hblanks hword)
    (head?_flatMap_first (afterPlus_first hne hrun hrest) hleft)

/-- After a blank there is no word to match before a byte that is none. -/
theorem afterName_none {rest : Bytes} (hspace : Stops isspace rest) (hrest : Stops isWord rest) :
    afterName (32 :: rest) = [] := by
  unfold afterName
  rw [afterStar_one (by decide) hspace, List.flatMap_cons, List.flatMap_cons, afterPlus_stops hrest,
    afterPlus_stops (Stops.cons (by decide) rest)]
  rfl

section Line

variable {word name text : Bytes}

/-- What the expression leaves of the rest of a name and the text after it. -/
def leftOver (rest text : Bytes) : Bytes := if rest = [] then text else rest ++ 32 :: text

theorem isLine_leftOver {rest : Bytes} (hrest : ∀ b ∈ rest, isspace b = false)
    (htext : isLine text = true) : isLine (leftOver rest text) = true := by
  unfold leftOver
  split
  · exact htext
  · unfold isLine at htext ⊢
    rw [List.all_append, List.all_cons, htext, Bool.and_true, Bool.and_eq_true]
    exact ⟨List.all_eq_true.mpr fun b hb => inLine_of_isspace b (hrest b hb), by decide⟩

theorem afterStar_leftOver {rest : Bytes} (hrest : ∀ b ∈ rest, isspace b = false)
    (htext : Stops isspace text) :
    (afterStar isspace (rest ++ 32 :: text)).head? = some (leftOver rest text) := by
  unfold leftOver
  split
  · rename_i hnil
    rw [hnil, List.nil_append, afterStar_one (by decide) htext]
    rfl
  · rename_i hne
    rw [afterStar_stops (stops_of_forall hne hrest)]
    rfl

/-- The name begins with a word: the expression takes it for its second. -/
theorem second_word {run rest : Bytes} (hword : ∀ b ∈ word, isWord b = true) (hlen : 2 ≤ word.length)
    (hne : run ≠ []) (hrun : ∀ b ∈ run, isWord b = true) (hrest : Stops isWord rest)
    (hspace : ∀ b ∈ rest, isspace b = false) (htext : Stops isspace text) :
    ((afterPlus isWord (word ++ 32 :: (run ++ (rest ++ 32 :: text)))).flatMap afterName).head? =
      some (leftOver rest text) := by
  have hfirst := afterPlus_first (List.length_pos_iff.mp (by omega)) hword
    (stops_blank (run ++ (rest ++ 32 :: text)))
  apply head?_flatMap_first hfirst
  exact afterName_first isspace_blank hne hrun
    (hrest.append (stops_blank text)) (afterStar_leftOver hspace htext)

/-- The name begins with no word: the expression cuts the command word in two. -/
theorem word_cut {rest : Bytes} (hword : ∀ b ∈ word, isWord b = true) (hlen : 2 ≤ word.length)
    (hne : rest ≠ []) (hrest : Stops isWord rest) (hspace : ∀ b ∈ rest, isspace b = false) :
    ((afterPlus isWord (word ++ 32 :: (rest ++ 32 :: text))).flatMap afterName).head? =
      some (rest ++ 32 :: text) := by
  obtain ⟨front, b, rfl⟩ := (List.eq_nil_or_concat' word).resolve_left
    (List.length_pos_iff.mp (by omega))
  have hfront : front ≠ [] := by
    rintro rfl
    rw [List.nil_append, List.length_singleton] at hlen
    omega
  have hblank : Stops isspace (rest ++ 32 :: text) := stops_of_forall hne hspace
  have hstop : Stops isWord (rest ++ 32 :: text) := hrest.append (stops_blank text)
  obtain ⟨shorter, hways⟩ := afterPlus_second hfront hword
    (stops_blank (rest ++ 32 :: text))
  rw [List.append_assoc, List.singleton_append, hways, List.flatMap_cons, List.flatMap_cons,
    afterName_none hblank hstop, List.nil_append, List.head?_append]
  have hlast : ∀ a ∈ [b], isWord a = true := fun a ha => hword a (List.mem_append_right front ha)
  have hcut := afterName_first (List.forall_mem_nil _) (List.cons_ne_nil b []) hlast
    (stops_blank (rest ++ 32 :: text)) (afterStar_first isspace_blank hblank)
  rw [show (afterName (b :: 32 :: (rest ++ 32 :: text))).head? = _ from hcut]
  rfl

/-- The message of a line: all that follows the first word in the name, but for the blank after
a name that is one word. -/
theorem getMsgAfterCommand_line (hword : ∀ b ∈ word, isWord b = true) (hlen : 2 ≤ word.length)
    (hname : ∀ b ∈ name, isspace b = false) (hne : name ≠ []) (hline : isLine text = true)
    (htext : Stops isspace text) :
    getMsgAfterCommand (word ++ 32 :: (name ++ 32 :: text)) =
      leftOver (name.dropWhile isWord) text := by
  obtain ⟨run, rest, rfl, hrun, hrest⟩ := exists_stretch isWord name
  rw [dropWhile_stretch hrun hrest]
  have hspace : ∀ b ∈ rest, isspace b = false := fun b hb => hname b (List.mem_append_right _ hb)
  apply getMsgAfterCommand_first _ (isLine_leftOver hspace hline)
  have hblank : Stops isspace (word ++ 32 :: ((run ++ rest) ++ 32 :: text)) :=
    stops_of_forall (List.length_pos_iff.mp (by omega)) fun b hb => isspace_of_isWord b (hword b hb)
  rw [afterStar_stops hblank, List.flatMap_singleton]
  by_cases hnil : run = []
  · subst hnil
    rw [List.nil_append] at hne ⊢
    unfold leftOver
    rw [if_neg hne]
    exact word_cut hword hlen hne hrest hspace
  · rw [List.append_assoc]
    exact second_word hword hlen hnil hrun hrest hspace htext

/-- The name of a line is what the first two spaces enclose. -/
theorem parse_direct {cmd : InputCmd} (hcmd : DirectCommand word cmd) (hname : (32 : UInt8) ∉ name) :
    parse (word ++ 32 :: (name ++ 32 :: text)) =
      { cmd := cmd
        direct := { name, message := getMsgAfterCommand (word ++ 32 :: (name ++ 32 :: text)) } } := by
  have hword : (32 : UInt8) ∉ word := fun h => absurd (hcmd.isWord 32 h) (by decide)
  obtain ⟨fuel, hfuel⟩ : ∃ fuel, (word ++ 32 :: (name ++ 32 :: text)).length = fuel + 1 + 1 := by
    refine ⟨word.length + name.length + text.length, ?_⟩
    rw [List.length_append, List.length_cons, List.length_append, List.length_cons]
    omega
  have hparts : split (word ++ 32 :: (name ++ 32 :: text)) (bytes " ") =
      word :: name :: splitLoop (bytes " ") (-1) fuel 2 text := by
    unfold split splitMax
    rw [hfuel]
    exact (splitLoop_part [] (fuel + 1) 0 _ hword).trans
      (congrArg (word :: ·) (splitLoop_part [] fuel 1 _ hname))
  obtain ⟨third, others, hthird⟩ := List.exists_cons_of_ne_nil
    (splitLoop_ne_nil fuel 2 text : splitLoop (bytes " ") (-1) fuel 2 text ≠ [])
  rw [hthird] at hparts
  unfold parse
  rw [hparts]
  dsimp only
  rcases hcmd with ⟨hlower, rfl⟩ | ⟨hlower, rfl⟩ <;> rw [hlower] <;> rfl

end Line

/-- The line yields the command, with this name and this message. -/
def SplitsAtName (line : Bytes) (cmd : InputCmd) (name text : Bytes) : Prop :=
  (parse line).cmd = cmd ∧ (parse line).direct.name = name ∧ (parse line).direct.message = text

/-- A direct message comes out as it was typed exactly if its name consists of letters, digits and
underscores. -/
theorem direct_message_iff (word name text : Bytes) (cmd : InputCmd) (hcmd : DirectCommand word cmd)
    (hne : name ≠ []) (hname : ∀ b ∈ name, isspace b = false) (hline : isLine text = true)
    (htext : Stops isspace text) :
    SplitsAtName (word ++ bytes " " ++ name ++ bytes " " ++ text) cmd name text ↔
      ∀ b ∈ name, isWord b = true := by
  have hspace : (32 : UInt8) ∉ name := fun h => absurd (hname 32 h) (by decide)
  have hshape : word ++ bytes " " ++ name ++ bytes " " ++ text =
      word ++ 32 :: (name ++ 32 :: text) := by
    rw [List.append_assoc, List.append_assoc, List.append_assoc]
    rfl
  have hmessage := getMsgAfterCommand_line hcmd.isWord hcmd.two_le_length hname hne hline htext
  unfold SplitsAtName
  rw [hshape, parse_direct hcmd hspace, hmessage]
  unfold leftOver
  constructor
  · rintro ⟨-, -, hleft⟩
    by_contra hbad
    rw [← List.dropWhile_eq_nil_iff] at hbad
    rw [if_neg hbad] at hleft
    have hlen := congrArg List.length hleft
    rw [List.length_append, List.length_cons] at hlen
    omega
  · intro hall
    rw [if_pos (List.dropWhile_eq_nil_iff.mpr hall)]
    exact ⟨rfl, rfl, rfl⟩

theorem direct_message_bob :
    SplitsAtName (bytes "DIRECT_MSG bob hello there") .directMsgUser (bytes "bob")
      (bytes "hello there") :=
  (direct_message_iff (bytes "DIRECT_MSG") (bytes "bob") (bytes "hello there") .directMsgUser
    (.inl ⟨by decide, rfl⟩) (by decide) (by decide +kernel) (by decide +kernel)
    (Stops.cons (by decide) _)).mpr (by decide +kernel)

/-- The text of this message begins within the name. -/
theorem hyphen_in_name :
    ¬SplitsAtName (bytes "DIRECT_MSG bob-x hi") .directMsgUser (bytes "bob-x") (bytes "hi") ∧
      (parse (bytes "DIRECT_MSG bob-x hi")).direct =
        { name := bytes "bob-x", message := bytes "-x hi" } := by
  unfold SplitsAtName
  decide +kernel

end O2Chat.Client
