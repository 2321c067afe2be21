import Mathlib.Data.List.Induction
import Mathlib.Data.List.Lex
import O2Chat.Common.Splitting
import O2Chat.Lib.OrderedMap
import O2Chat.Net.Client

/-!
# Headers of a reply

The `std::map` of the headers is ordered by `strcasecmp`, and `parseHeaderLine` goes over
a line with an index. Here both are as in the source; they give what the association
list of `HttpReply` and `Net.parseHeaderLine` say, and a lookup finds the last line for
the name.
-/
namespace O2Chat.Net

open O2Chat.Common O2Chat.Lib O2Chat.Lib.Search

/-! ## The order of the names -/

/-- `strcasecmp` on the bytes before the terminating NULs. -/
def strcasecmp : Bytes → Bytes → Int
  | [], [] => 0
  | [], b :: _ => -(tolower b).toNat
  | a :: _, [] => (tolower a).toNat
  | a :: as, b :: bs =>
    if tolower a = tolower b then strcasecmp as bs else (tolower a).toNat - (tolower b).toNat

/-- `string_comparator`. -/
def StringComparator (lhs rhs : Bytes) : Prop := strcasecmp (cstr lhs) (cstr rhs) < 0

instance : DecidableRel StringComparator := fun lhs rhs =>
  inferInstanceAs (Decidable (strcasecmp (cstr lhs) (cstr rhs) < 0))

/-- The bytes that `strcasecmp` compares. -/
def folded (s : Bytes) : List Nat := (lowercased s).map UInt8.toNat

theorem folded_inj {a b : Bytes} : folded a = folded b ↔ lowercased a = lowercased b :=
  (List.map_injective_iff.mpr fun _ _ => UInt8.toNat_inj.mp).eq_iff

theorem tolower_ne_zero : ∀ b : UInt8, b ≠ 0 → (tolower b).toNat ≠ 0 :=
  forall_byte (by decide +kernel)

theorem strcasecmp_neg_iff {a b : Bytes} (hb : 0 ∉ b) : strcasecmp a b < 0 ↔ folded a < folded b := by
  induction a generalizing b with
  | nil =>
    cases b with
    | nil => simp [strcasecmp, folded, lowercased]
    | cons y b =>
      have hy := tolower_ne_zero y fun hzero => hb (by rw [hzero]; exact List.mem_cons_self)
      refine iff_of_true ?_ (List.nil_lt_cons _ _)
      rw [strcasecmp]
      omega
  | cons x a ih =>
    cases b with
    | nil =>
      refine iff_of_false ?_ (List.not_lt_nil _)
      rw [strcasecmp]
      omega
    | cons y b =>
      have htail := ih (b := b) fun hzero => hb (List.mem_cons_of_mem _ hzero)
      have hlex : folded (x :: a) < folded (y :: b) ↔ (tolower x).toNat < (tolower y).toNat ∨
          (tolower x).toNat = (tolower y).toNat ∧ folded a < folded b := List.cons_lt_cons_iff
      rw [strcasecmp, hlex]
      by_cases hsame : tolower x = tolower y
      · rw [if_pos hsame, htail, hsame]
        simp
      · have hne : (tolower x).toNat ≠ (tolower y).toNat := fun h => hsame (UInt8.toNat_inj.mp h)
        rw [if_neg hsame]
        omega

theorem zero_notMem_cstr (s : Bytes) : 0 ∉ cstr s := by
  intro h
  have hne := List.mem_takeWhile_imp h
  simp at hne

theorem stringComparator_iff (a b : Bytes) :
    StringComparator a b ↔ folded (cstr a) < folded (cstr b) :=
  strcasecmp_neg_iff (zero_notMem_cstr b)

/-- The names can be the keys of a `std::map`. -/
instance : IsStrictWeakOrder Bytes StringComparator := by
  have horder : StringComparator = Order.Preimage (fun s => folded (cstr s)) (· < ·) := by
    funext a b
    exact propext (stringComparator_iff a b)
  have hweak : IsStrictWeakOrder (List Nat) (· < ·) := isStrictWeakOrder_of_isOrderConnected
  rw [horder]
  infer_instance

/-- Two names are one key when they agree up to letter case. -/
theorem same_iff (a b : Bytes) : OrderedMap.Same StringComparator a b ↔ sameHeader a b = true := by
  unfold OrderedMap.Same sameHeader
  rw [stringComparator_iff, stringComparator_iff, not_lt, not_lt, decide_eq_true_iff, ← folded_inj]
  exact ⟨fun h => le_antisymm h.2 h.1, fun h => ⟨h.ge, h.le⟩⟩

/-! ## The lines -/

/-- `line[pos]`: the terminating NUL is at the end, and behind it there is nothing. -/
def charAt (line : Bytes) (pos : Nat) : Option UInt8 := (line ++ [0])[pos]?

/-- `while (isspace(line[pos])) ++pos;`, unless it leaves the string. -/
def skipBlanks (line : Bytes) (pos : Nat) : Option Nat :=
  match _h : charAt line pos with
  | none => none
  | some b => if isspace b then skipBlanks line (pos + 1) else some pos
termination_by line.length + 1 - pos
decreasing_by
  obtain ⟨hlt, -⟩ := List.getElem?_eq_some_iff.mp _h
  rw [List.length_append, List.length_singleton] at hlt
  omega

abbrev HeaderMap : Type := OrderedMap.Map Bytes Bytes StringComparator

namespace HeaderMap

/-- `parseHeaderLine` with its index and the map. -/
def parseHeaderLine (line : Bytes) (parsedHeaders : HeaderMap) : Option (Bool × HeaderMap) :=
  match line.findIdx? (· = 58) with
  | none => some (false, parsedHeaders)
  | some pos =>
    if pos = 0 then some (false, parsedHeaders)
    else
      let key := line.take pos
      if pos = line.length - 1 then some (true, parsedHeaders.set key [])
      else (skipBlanks line (pos + 1)).map fun pos => (true, parsedHeaders.set key (line.drop pos))

/-- The loop of `handleHeaders` over the lines. -/
def parseHeaderLines : List Bytes → HeaderMap → Option HeaderMap
  | [], parsedHeaders => some parsedHeaders
  | line :: lines, parsedHeaders =>
    (parseHeaderLine line parsedHeaders).bind fun result => parseHeaderLines lines result.2

end HeaderMap

theorem charAt_of_lt {s : Bytes} {pos : Nat} (h : pos < s.length) :
    charAt s pos = some s[pos] := by
  unfold charAt
  rw [List.getElem?_append_left h, List.getElem?_eq_getElem h]

theorem charAt_length (s : Bytes) : charAt s s.length = some 0 := by
  unfold charAt
  rw [List.getElem?_append_right (Nat.le_refl _), Nat.sub_self]
  rfl

/-- The loop stops at the terminating NUL at the latest, behind the blanks. -/
theorem skipBlanks_eq {s : Bytes} {pos : Nat} (h : pos ≤ s.length) :
    ∃ last, skipBlanks s pos = some last ∧ last ≤ s.length ∧
      s.drop last = (s.drop pos).dropWhile isspace := by
  induction hleft : s.length - pos generalizing pos with
  | zero =>
    obtain rfl : pos = s.length := by omega
    refine ⟨s.length, ?_, Nat.le_refl _, by rw [List.drop_length]; rfl⟩
    unfold skipBlanks
    rw [charAt_length]
    exact if_neg (by decide)
  | succ left ih =>
    have hlt : pos < s.length := by omega
    rw [List.drop_eq_getElem_cons hlt, List.dropWhile_cons]
    unfold skipBlanks
    rw [charAt_of_lt hlt]
    dsimp only
    by_cases hblank : isspace s[pos] = true
    · rw [if_pos hblank, if_pos hblank]
      exact ih (by omega) (by omega)
    · rw [if_neg hblank, if_neg hblank]
      exact ⟨pos, rfl, h, List.drop_eq_getElem_cons hlt⟩

/-! ## The headers of the lines -/

/-- What is before the first colon, and what is after it without leading blanks. -/
structure IsHeader (line key value : Bytes) : Prop where
  key_ne_nil : key ≠ []
  colon : 58 ∉ key
  line : ∃ rest, line = key ++ 58 :: rest ∧ value = rest.dropWhile isspace

theorem findIdx_colon {key : Bytes} (h : 58 ∉ key) (rest : Bytes) :
    (key ++ 58 :: rest).findIdx? (· = 58) = some key.length := by
  have hnone : key.findIdx? (· = 58) = none := by
    rw [List.findIdx?_eq_none_iff]
    intro b hb
    rw [decide_eq_false_iff_not]
    rintro rfl
    exact h hb
  rw [List.findIdx?_append, hnone, List.findIdx?_cons]
  simp

/-- A line is cut at its first colon, or has none. -/
theorem cut_colon (line : Bytes) :
    (58 ∉ line ∧ line.findIdx? (· = 58) = none) ∨
      ∃ key rest, line = key ++ 58 :: rest ∧ 58 ∉ key ∧
        line.findIdx? (· = 58) = some key.length := by
  by_cases hmem : 58 ∈ line
  · obtain ⟨key, rest, hline, hkey⟩ := List.eq_append_cons_of_mem hmem
    refine Or.inr ⟨key, rest, hline, hkey, ?_⟩
    rw [hline]
    exact findIdx_colon hkey rest
  · refine Or.inl ⟨hmem, ?_⟩
    rw [List.findIdx?_eq_none_iff]
    intro b hb
    rw [decide_eq_false_iff_not]
    rintro rfl
    exact hmem hb

theorem eq_cut_of_isHeader {line key value key' rest : Bytes} (h : IsHeader line key value)
    (hline : line = key' ++ 58 :: rest) (hcolon : 58 ∉ key') :
    key = key' ∧ value = rest.dropWhile isspace := by
  obtain ⟨rest', hline', hvalue⟩ := h.line
  have hlen := findIdx_colon h.colon rest'
  rw [← hline', hline, findIdx_colon hcolon rest] at hlen
  obtain ⟨hkey, hrest⟩ := List.append_inj (hline'.symm.trans hline) (Option.some.inj hlen).symm
  refine ⟨hkey, ?_⟩
  rw [hvalue, (List.cons.inj hrest).2]

/-- A line that is no header is passed over. -/
theorem parseHeaderLine_none {line : Bytes} (h : ∀ key value, ¬ IsHeader line key value)
    (parsed : List (Bytes × Bytes)) (map : HeaderMap) :
    (parseHeaderLine line parsed).2 = parsed ∧
      HeaderMap.parseHeaderLine line map = some (false, map) := by
  rcases cut_colon line with ⟨-, hnone⟩ | ⟨key, rest, hline, hcolon, hfind⟩
  · unfold parseHeaderLine HeaderMap.parseHeaderLine
    rw [hnone]
    exact ⟨rfl, rfl⟩
  · obtain rfl : key = [] := by
      by_contra hne
      exact h key _ ⟨hne, hcolon, rest, hline, rfl⟩
    unfold parseHeaderLine HeaderMap.parseHeaderLine
    rw [hfind]
    exact ⟨rfl, rfl⟩

/-- A line whose first colon is its last byte is no special case. -/
theorem parseHeaderLine_colon {line : Bytes} {pos : Nat}
    (h : line.findIdx? (· = 58) = some pos) (hpos : pos ≠ 0) (parsed : List (Bytes × Bytes)) :
    parseHeaderLine line parsed =
      (true, setHeader (line.take pos) ((line.drop (pos + 1)).dropWhile isspace) parsed) := by
  unfold parseHeaderLine
  rw [h]
  cases pos with
  | zero => exact absurd rfl hpos
  | succ pos =>
    show (if pos + 1 = line.length - 1 then _ else _) = _
    by_cases hend : pos + 1 = line.length - 1
    · rw [if_pos hend, List.drop_eq_nil_of_le (by omega)]
      rfl
    · exact if_neg hend

/-- A header is set to its value, and the index stays in the line. -/
theorem parseHeaderLine_some {line key value : Bytes} (h : IsHeader line key value)
    (parsed : List (Bytes × Bytes)) (map : HeaderMap) :
    parseHeaderLine line parsed = (true, setHeader key value parsed) ∧
      HeaderMap.parseHeaderLine line map = some (true, map.set key value) := by
  obtain ⟨hne, hcolon, rest, hline, hvalue⟩ := h
  have hpos : key.length ≠ 0 := (List.length_pos_iff.mpr hne).ne'
  have hfind : line.findIdx? (· = 58) = some key.length := by
    rw [hline]
    exact findIdx_colon hcolon rest
  have hlen : line.length = key.length + 1 + rest.length := by
    rw [hline, List.length_append, List.length_cons]
    omega
  have htake : line.take key.length = key := by
    rw [hline, List.take_left]
  have hdrop : line.drop (key.length + 1) = rest := by
    rw [hline, List.append_cons]
    exact List.drop_left' (by rw [List.length_append, List.length_singleton])
  rw [parseHeaderLine_colon hfind hpos, htake, hdrop, ← hvalue]
  refine ⟨rfl, ?_⟩
  unfold HeaderMap.parseHeaderLine
  rw [hfind]
  dsimp only
  rw [if_neg hpos, htake]
  by_cases hend : key.length = line.length - 1
  · have hnil : value = [] := by
      rw [hvalue, List.eq_nil_of_length_eq_zero (show rest.length = 0 by omega)]
      rfl
    rw [if_pos hend, hnil]
  · obtain ⟨last, hskip, -, hlast⟩ := skipBlanks_eq (show key.length + 1 ≤ line.length by omega)
    rw [if_neg hend, hskip, Option.map_some, hlast, hdrop, ← hvalue]

/-! ## Looking a name up -/

/-- What `find` gives for a name in the association list. -/
def lookup (parsed : List (Bytes × Bytes)) (name : Bytes) : Option Bytes :=
  (parsed.find? fun entry => sameHeader entry.1 name).map (·.2)

theorem hasHeader_eq (reply : HttpReply) (name : Bytes) :
    reply.hasHeader name = (lookup reply.parsedHeaders name).isSome := by
  unfold HttpReply.hasHeader lookup
  rw [Option.isSome_map, List.isSome_find?]

theorem getHeader_eq (reply : HttpReply) (name : Bytes) :
    reply.getHeader name = (lookup reply.parsedHeaders name).getD [] := by
  unfold HttpReply.getHeader lookup
  cases reply.parsedHeaders.find? fun entry => sameHeader entry.1 name <;> rfl

theorem lookup_cons (k v name : Bytes) (rest : List (Bytes × Bytes)) :
    lookup ((k, v) :: rest) name = if sameHeader k name then some v else lookup rest name := by
  unfold lookup
  rw [List.find?_cons]
  cases sameHeader k name <;> rfl

theorem sameHeader_iff (a b : Bytes) :
    sameHeader a b = true ↔ lowercased (cstr a) = lowercased (cstr b) := decide_eq_true_iff

/-- A name that has been set is found in every spelling. -/
theorem lookup_setHeader_same {key name : Bytes} (h : sameHeader key name = true) (value : Bytes)
    (parsed : List (Bytes × Bytes)) : lookup (setHeader key value parsed) name = some value := by
  induction parsed with
  | nil =>
    rw [setHeader, lookup_cons, if_pos h]
  | cons entry rest ih =>
    obtain ⟨k, v⟩ := entry
    unfold setHeader
    rw [sameHeader_iff] at h
    by_cases hk : sameHeader k key = true
    · have hfound := ((sameHeader_iff _ _).mp hk).trans h
      rw [if_pos hk, lookup_cons, if_pos ((sameHeader_iff _ _).mpr hfound)]
    · have hother : ¬ sameHeader k name = true := fun hname =>
        hk ((sameHeader_iff _ _).mpr (((sameHeader_iff _ _).mp hname).trans h.symm))
      rw [if_neg hk, lookup_cons, if_neg hother, ih]

theorem lookup_setHeader_other {key name : Bytes} (h : ¬ sameHeader key name = true) (value : Bytes)
    (parsed : List (Bytes × Bytes)) :
    lookup (setHeader key value parsed) name = lookup parsed name := by
  induction parsed with
  | nil =>
    rw [setHeader, lookup_cons, if_neg h]
  | cons entry rest ih =>
    obtain ⟨k, v⟩ := entry
    unfold setHeader
    by_cases hk : sameHeader k key = true
    · have hother : ¬ sameHeader k name = true := fun hname =>
        h ((sameHeader_iff _ _).mpr
          (((sameHeader_iff _ _).mp hk).symm.trans ((sameHeader_iff _ _).mp hname)))
      rw [if_pos hk, lookup_cons, lookup_cons, if_neg hother, if_neg hother]
    · rw [if_neg hk, lookup_cons, lookup_cons, ih]

/-- The map holds what the association list says. -/
def Refines (map : HeaderMap) (parsed : List (Bytes × Bytes)) : Prop :=
  ∀ name, map.find name = lookup parsed name

theorem Refines.set {map : HeaderMap} {parsed : List (Bytes × Bytes)} (h : Refines map parsed)
    (key value : Bytes) : Refines (map.set key value) (setHeader key value parsed) := by
  intro name
  by_cases hsame : sameHeader key name = true
  · rw [map.find_set_same value ((same_iff key name).mpr hsame), lookup_setHeader_same hsame]
  · rw [map.find_set_other value fun h' => hsame ((same_iff key name).mp h'),
      lookup_setHeader_other hsame, h name]

theorem parseHeaderLine_refines {map : HeaderMap} {parsed : List (Bytes × Bytes)}
    (h : Refines map parsed) (line : Bytes) : ∃ found map',
      HeaderMap.parseHeaderLine line map = some (found, map') ∧
        Refines map' (parseHeaderLine line parsed).2 := by
  by_cases hheader : ∃ key value, IsHeader line key value
  · obtain ⟨key, value, hheader⟩ := hheader
    obtain ⟨hparsed, hmap⟩ := parseHeaderLine_some hheader parsed map
    refine ⟨true, _, hmap, ?_⟩
    rw [hparsed]
    exact h.set key value
  · obtain ⟨hparsed, hmap⟩ := parseHeaderLine_none
      (fun key value hline => hheader ⟨key, value, hline⟩) parsed map
    refine ⟨false, map, hmap, ?_⟩
    rwa [hparsed]

/-- The loop over the lines stays within each of them, and fills the map with what the
association list says. -/
theorem parseHeaderLines_refines (lines : List Bytes) {map : HeaderMap}
    {parsed : List (Bytes × Bytes)} (h : Refines map parsed) :
    ∃ map', HeaderMap.parseHeaderLines lines map = some map' ∧
      Refines map' (lines.foldl (fun parsed line => (parseHeaderLine line parsed).2) parsed) := by
  induction lines generalizing map parsed with
  | nil => exact ⟨map, rfl, h⟩
  | cons line lines ih =>
    obtain ⟨found, map', hline, hmap'⟩ := parseHeaderLine_refines h line
    obtain ⟨last, hlines, hlast⟩ := ih hmap'
    refine ⟨last, ?_, hlast⟩
    rw [HeaderMap.parseHeaderLines, hline]
    exact hlines

/-! ## The last line for a name -/

/-- A line is a header with this name, in any spelling. -/
def Names (line name value : Bytes) : Prop :=
  ∃ key, IsHeader line key value ∧ lowercased key = lowercased name

/-- The last of the lines that are headers with this name has this value. -/
def LastHeader (lines : List Bytes) (name value : Bytes) : Prop :=
  ∃ before line after, lines = before ++ line :: after ∧ Names line name value ∧
    ∀ later ∈ after, ∀ value', ¬ Names later name value'

theorem cstr_eq_self {s : Bytes} (h : 0 ∉ s) : cstr s = s := by
  refine List.takeWhile_eq_self_iff.mpr fun b hb => ?_
  rw [decide_eq_true_iff]
  rintro rfl
  exact h hb

/-- A line sets the name that it is a header for. -/
theorem lookup_parseHeaderLine {line : Bytes} (hnul : 0 ∉ line) (parsed : List (Bytes × Bytes))
    (name : Bytes) :
    (∃ value, Names line (cstr name) value ∧
      lookup (parseHeaderLine line parsed).2 name = some value) ∨
    ((∀ value, ¬ Names line (cstr name) value) ∧
      lookup (parseHeaderLine line parsed).2 name = lookup parsed name) := by
  by_cases hheader : ∃ key value, IsHeader line key value
  · obtain ⟨key, value, hheader⟩ := hheader
    obtain ⟨rest, hrest, -⟩ := hheader.line
    have hkey : cstr key = key := cstr_eq_self fun hmem =>
      hnul (by rw [hrest]; exact List.mem_append_left _ hmem)
    have hsame := sameHeader_iff key name
    rw [hkey] at hsame
    rw [(parseHeaderLine_some hheader parsed .empty).1]
    by_cases hname : lowercased key = lowercased (cstr name)
    · exact Or.inl ⟨value, ⟨key, hheader, hname⟩, lookup_setHeader_same (hsame.mpr hname) value parsed⟩
    · refine Or.inr ⟨?_, lookup_setHeader_other (mt hsame.mp hname) value parsed⟩
      rintro value' ⟨key', hheader', hname'⟩
      obtain ⟨rfl, -⟩ := eq_cut_of_isHeader hheader' hrest hheader.colon
      exact hname hname'
  · have hnone : ∀ key value, ¬ IsHeader line key value := fun key value h => hheader ⟨key, value, h⟩
    refine Or.inr ⟨fun value h => hnone _ _ h.choose_spec.1, ?_⟩
    rw [(parseHeaderLine_none hnone parsed .empty).1]

/-- What is looked up after the loop is the value of the last line for the name. -/
theorem lookup_lines {lines : List Bytes} (hnul : ∀ line ∈ lines, 0 ∉ line) (name : Bytes) :
    (∃ value, LastHeader lines (cstr name) value ∧
      lookup (lines.foldl (fun parsed line => (parseHeaderLine line parsed).2) []) name =
        some value) ∨
    ((∀ line ∈ lines, ∀ value, ¬ Names line (cstr name) value) ∧
      lookup (lines.foldl (fun parsed line => (parseHeaderLine line parsed).2) []) name = none) := by
  induction lines using List.reverseRecOn with
  | nil => exact Or.inr ⟨by simp, rfl⟩
  | append_singleton lines line ih =>
    have hbefore := ih fun l hl => hnul l (List.mem_append_left _ hl)
    have hline := hnul line (List.mem_append_right _ List.mem_cons_self)
    rw [List.foldl_concat]
    rcases lookup_parseHeaderLine hline _ name with ⟨value, hnames, hset⟩ | ⟨hnot, hkeep⟩
    · exact Or.inl ⟨value, ⟨lines, line, [], rfl, hnames, by simp⟩, hset⟩
    have hlast : ∀ l ∈ [line], ∀ value, ¬ Names l (cstr name) value := fun l hl => by
      rwa [List.mem_singleton.mp hl]
    rw [hkeep]
    rcases hbefore with ⟨value, ⟨before, last, after, hlines, hnames, hafter⟩, hvalue⟩ | ⟨hlines, hnone⟩
    · refine Or.inl ⟨value, ⟨before, last, after ++ [line], ?_, hnames, ?_⟩, hvalue⟩
      · rw [hlines, List.append_assoc, List.cons_append]
      · exact fun later hlater => (List.mem_append.mp hlater).elim (hafter later) (hlast later)
    · exact Or.inr ⟨fun l hl => (List.mem_append.mp hl).elim (hlines l) (hlast l), hnone⟩

theorem LastHeader.names {lines : List Bytes} {name value : Bytes} (h : LastHeader lines name value) :
    ∃ line ∈ lines, ∃ value, Names line name value := by
  obtain ⟨before, line, after, rfl, hnames, -⟩ := h
  exact ⟨line, List.mem_append_right _ List.mem_cons_self, value, hnames⟩

/-! ## After `handleHeaders` -/

/-- The lines that the loop of `handleHeaders` goes over. -/
def headerLines (headers : Bytes) : List Bytes := (split headers CRLF).tail

/-- The first line leaves the headers and the body as they are. -/
theorem parseFirstLine_ok {line : Bytes} {reply reply' : HttpReply}
    (h : parseFirstLine line reply = .ok reply') :
    reply'.parsedHeaders = reply.parsedHeaders ∧ reply'.body = reply.body := by
  unfold parseFirstLine at h
  split at h
  · dsimp only at h
    split at h
    · split at h
      · obtain rfl := Except.ok.inj h
        exact ⟨rfl, rfl⟩
      · cases h
    · obtain rfl := Except.ok.inj h
      exact ⟨rfl, rfl⟩
  · cases h

/-- The headers are those of the lines after the first. -/
theorem parseHeaders_ok {headers : Bytes} {reply : HttpReply} (h : parseHeaders headers = .ok reply) :
    reply.body = [] ∧ reply.parsedHeaders =
      (headerLines headers).foldl (fun parsed line => (parseHeaderLine line parsed).2) [] := by
  unfold parseHeaders at h
  unfold headerLines
  dsimp only at h
  split at h
  · cases h
  · rename_i first lines hsplit
    split at h
    · cases h
    · split at h
      · cases h
      · rename_i hfirst
        obtain ⟨hparsed, hbody⟩ := parseFirstLine_ok hfirst
        obtain rfl := Except.ok.inj h
        rw [hsplit, List.tail_cons]
        dsimp only
        rw [hparsed]
        exact ⟨hbody, rfl⟩

/-- The bytes of the lines are bytes of the headers. -/
theorem notMem_headerLines {headers : Bytes} {b : UInt8} (h : b ∉ headers) :
    ∀ line ∈ headerLines headers, b ∉ line := by
  intro line hline hmem
  refine h ?_
  rw [← @join_splitLoop CRLF (-1) headers.length 0 headers]
  exact mem_join CRLF (List.mem_of_mem_tail hline) hmem

/-- A name is there when a line after the first is a header with it, in any spelling, and
its value is that of the last such line. The name counts up to its first NUL. The lines
are gone over without leaving one, and the map has the same entries. -/
theorem header_lookup (headers : Bytes) (reply : HttpReply) (hnul : 0 ∉ headers)
    (hparse : parseHeaders headers = .ok reply) (name : Bytes) :
    (reply.hasHeader name = true ↔
      ∃ line ∈ headerLines headers, ∃ value, Names line (cstr name) value) ∧
    (reply.hasHeader name = true →
      LastHeader (headerLines headers) (cstr name) (reply.getHeader name)) ∧
    (reply.hasHeader name = false → reply.getHeader name = []) ∧
    ∃ map, HeaderMap.parseHeaderLines (headerLines headers) .empty = some map ∧
      map.find name = if reply.hasHeader name then some (reply.getHeader name) else none := by
  obtain ⟨map, hmap, hrefines⟩ := parseHeaderLines_refines (headerLines headers)
    (show Refines .empty [] from fun _ => rfl)
  have hfind := hrefines name
  rw [← (parseHeaders_ok hparse).2] at hfind
  rw [hasHeader_eq, getHeader_eq]
  rcases lookup_lines (notMem_headerLines hnul) name with ⟨value, hlast, hvalue⟩ | ⟨hlines, hnone⟩
  · rw [← (parseHeaders_ok hparse).2] at hvalue
    rw [hvalue]
    refine ⟨iff_of_true rfl hlast.names, fun _ => hlast, fun h => (nomatch h), map, hmap, ?_⟩
    rw [hfind, hvalue]
    rfl
  · rw [← (parseHeaders_ok hparse).2] at hnone
    rw [hnone]
    refine ⟨iff_of_false (by simp) ?_, fun h => (nomatch h), fun _ => rfl, map, hmap, ?_⟩
    · rintro ⟨line, hline, value, hnames⟩
      exact hlines line hline value hnames
    · rw [hfind, hnone]
      rfl

namespace Sample

def hostHeaders : Bytes := bytes "GET / HTTP/1.1\r\nhost: a\r\nHost:  b"

def hostReply : HttpReply where
  headers := hostHeaders
  method := bytes "get"
  resource := bytes "/"
  parsedHeaders := [(bytes "host", bytes "b")]

end Sample

theorem header_lookup_host : LastHeader (headerLines Sample.hostHeaders) (bytes "HOST") (bytes "b") :=
  (header_lookup Sample.hostHeaders Sample.hostReply (by decide) (by decide +kernel)
    (bytes "HOST")).2.1 (by decide)

/-- A name goes on after a NUL, and is found all the same. -/
theorem name_behind_nul : ∃ headers reply name, 0 ∉ headers ∧ parseHeaders headers = .ok reply ∧
    reply.hasHeader name = true ∧ ∀ line ∈ headerLines headers, ∀ value, ¬ Names line name value := by
  refine ⟨Sample.hostHeaders, Sample.hostReply, bytes "Host" ++ [0], by decide, by decide +kernel,
    by decide, ?_⟩
  rintro line hline value ⟨key, hheader, hkey⟩
  have hnul : 0 ∉ line := notMem_headerLines (by decide) line hline
  obtain ⟨rest, hrest, -⟩ := hheader.line
  have hzero : 0 ∈ lowercased key := by
    rw [hkey]
    decide
  obtain ⟨b, hb, hlower⟩ := List.mem_map.mp hzero
  refine hnul ?_
  rw [hrest]
  have hb0 : b = 0 := by
    by_contra hne
    exact tolower_ne_zero b hne (by rw [hlower]; rfl)
  exact List.mem_append_left _ (hb0 ▸ hb)

end O2Chat.Net
