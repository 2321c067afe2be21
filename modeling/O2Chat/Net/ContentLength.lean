import O2Chat.Lib.Stretch
import O2Chat.Net.Decode
import O2Chat.Net.Headers

/-!
# Which lengths are accepted

`handleHeaders` takes what `std::stoul` makes of the `Content-Length`: the number at its
beginning, after blanks and a sign, whatever follows it. It is strict exactly for the
values that are a number between blanks, and for those that `std::stoul` refuses.
-/
namespace O2Chat.Net

open O2Chat.Common O2Chat.Lib.Search O2Chat.Lib.Stream O2Chat.Lib.Stretch

/-! ## What `std::stoul` reads -/

/-- Blanks, a sign and digits, and what is behind the last digit. -/
structure Reads (v blanks sign digits rest : Bytes) : Prop where
  text : v = blanks ++ (sign ++ (digits ++ rest))
  blanks : ∀ b ∈ blanks, isspace b = true
  sign : sign = [] ∨ sign = [43] ∨ sign = [45]
  digits_ne_nil : digits ≠ []
  digits : ∀ b ∈ digits, isDigit 10 b = true
  stop : Stops (isDigit 10) rest

theorem isDigit_ten {b : UInt8} (h : isDigit 10 b = true) :
    isspace b = false ∧ b ≠ 0 ∧ b ≠ 43 ∧ b ≠ 45 := by
  obtain ⟨hblank, hzero, -, hplus, hminus, -⟩ := of_isDigit_hex b (isDigit_hex (by decide) h)
  exact ⟨hblank, hzero, hplus, hminus⟩

theorem Reads.sign_digit {v blanks sign digits rest : Bytes} (h : Reads v blanks sign digits rest) :
    Stops isspace (sign ++ (digits ++ rest)) ∧ ∀ b ∈ sign ++ digits, b ≠ 0 := by
  obtain ⟨d, t, rfl⟩ := List.exists_cons_of_ne_nil h.digits_ne_nil
  have hd := isDigit_ten (h.digits d List.mem_cons_self)
  have hdigits : ∀ b ∈ d :: t, b ≠ 0 := fun b hb => (isDigit_ten (h.digits b hb)).2.1
  rcases h.sign with rfl | rfl | rfl
  · exact ⟨.cons hd.1 _, hdigits⟩
  · exact ⟨.cons (by decide) _, fun b hb => (List.mem_cons.mp hb).elim (fun h => h ▸ by decide) (hdigits b)⟩
  · exact ⟨.cons (by decide) _, fun b hb => (List.mem_cons.mp hb).elim (fun h => h ▸ by decide) (hdigits b)⟩

theorem isspace_ne_zero {b : UInt8} (h : isspace b = true) : b ≠ 0 := by
  rintro rfl
  exact absurd h (by decide)

/-- The C string ends behind the digits at the earliest. -/
theorem Reads.cstr {v blanks sign digits rest : Bytes} (h : Reads v blanks sign digits rest) :
    Reads (cstr v) blanks sign digits (cstr rest) := by
  refine ⟨?_, h.blanks, h.sign, h.digits_ne_nil, h.digits, ?_⟩
  · have hne : ∀ b ∈ blanks ++ (sign ++ digits), decide (b ≠ 0) = true := by
      intro b hb
      rw [decide_eq_true_iff]
      rcases List.mem_append.mp hb with hb | hb
      · exact isspace_ne_zero (h.blanks b hb)
      · exact h.sign_digit.2 b hb
    have htext : v = (blanks ++ (sign ++ digits)) ++ rest := by
      rw [h.text]
      simp only [List.append_assoc]
    unfold Common.cstr
    rw [htext, List.takeWhile_append_of_pos hne]
    simp only [List.append_assoc]
  · intro b t heq
    have hpre : Common.cstr rest <+: rest := List.takeWhile_prefix _
    rw [heq] at hpre
    obtain ⟨u, hu⟩ := hpre
    exact h.stop b _ hu.symm

/-- The sign, and what is behind it. -/
def splitSign : Bytes → Bool × Bytes
  | 43 :: t => (false, t)
  | 45 :: t => (true, t)
  | t => (false, t)

/-- In base 10 there is no prefix. -/
theorem scanNumber_ten (v : Bytes) :
    (scanNumber 10 v).1 = (splitSign ((cstr v).dropWhile isspace)).1 ∧
      (scanNumber 10 v).2.1 =
        (splitSign ((cstr v).dropWhile isspace)).2.takeWhile (isDigit 10) := by
  refine ⟨rfl, ?_⟩
  unfold scanNumber splitSign
  dsimp only
  congr 1
  split
  · exact if_neg (by simp)
  · rfl

theorem splitSign_sign {sign digits : Bytes} (hsign : sign = [] ∨ sign = [43] ∨ sign = [45])
    (hne : digits ≠ []) (hdigits : ∀ b ∈ digits, isDigit 10 b = true) (rest : Bytes) :
    splitSign (sign ++ (digits ++ rest)) = (decide (sign = [45]), digits ++ rest) := by
  rcases hsign with rfl | rfl | rfl
  · obtain ⟨d, t, rfl⟩ := List.exists_cons_of_ne_nil hne
    obtain ⟨-, -, hplus, hminus⟩ := isDigit_ten (hdigits d List.mem_cons_self)
    unfold splitSign
    split
    · rename_i heq
      exact absurd (List.cons.inj heq).1 hplus
    · rename_i heq
      exact absurd (List.cons.inj heq).1 hminus
    · rfl
  · rfl
  · rfl

/-- These digits and this sign are scanned. -/
theorem Reads.scanNumber {v blanks sign digits rest : Bytes} (h : Reads v blanks sign digits rest) :
    (scanNumber 10 v).1 = decide (sign = [45]) ∧ (scanNumber 10 v).2.1 = digits := by
  have hc := h.cstr
  have hunblanked : (Common.cstr v).dropWhile isspace = sign ++ (digits ++ Common.cstr rest) := by
    rw [hc.text]
    exact dropWhile_stretch h.blanks hc.sign_digit.1
  obtain ⟨hsign, hdigits⟩ := scanNumber_ten v
  rw [hunblanked, splitSign_sign h.sign h.digits_ne_nil h.digits] at hsign hdigits
  refine ⟨hsign, ?_⟩
  rw [hdigits]
  exact takeWhile_stretch h.digits hc.stop

theorem sign_splitSign (u : Bytes) :
    ∃ sign, (sign = [] ∨ sign = [43] ∨ sign = [45]) ∧ u = sign ++ (splitSign u).2 := by
  unfold splitSign
  split
  · exact ⟨[43], Or.inr (Or.inl rfl), rfl⟩
  · exact ⟨[45], Or.inr (Or.inr rfl), rfl⟩
  · exact ⟨[], Or.inl rfl, rfl⟩

/-- When digits are scanned, the text begins with them. -/
theorem exists_reads {v : Bytes} (h : (scanNumber 10 v).2.1 ≠ []) :
    ∃ blanks sign digits rest, Reads v blanks sign digits rest := by
  obtain ⟨text, behind, hv, htext, hnul⟩ := exists_stretch (fun b => decide (b ≠ 0)) v
  have hcstr : Common.cstr v = text := by
    rw [hv]
    exact takeWhile_stretch htext hnul
  obtain ⟨blanks, u, hblank, hblanks, hstop⟩ := exists_stretch isspace text
  obtain ⟨sign, hsign, hu⟩ := sign_splitSign u
  obtain ⟨digits, after, hafter, hdigits, hend⟩ := exists_stretch (isDigit 10) (splitSign u).2
  rw [(scanNumber_ten v).2, hcstr, hblank, dropWhile_stretch hblanks hstop, hafter,
    takeWhile_stretch hdigits hend] at h
  refine ⟨blanks, sign, digits, after ++ behind, ?_, hblanks, hsign, h, hdigits, ?_⟩
  · rw [hv, hblank, hu, hafter]
    simp only [List.append_assoc]
  · cases after with
    | cons a t => exact .cons (hend a t rfl) _
    | nil =>
      intro b t hb
      obtain rfl : b = 0 := by simpa using hnul b t hb
      decide

theorem Reads.stoul {v blanks sign digits rest : Bytes} (h : Reads v blanks sign digits rest) :
    (2 ^ 64 ≤ ofDigits 10 digits → stoul 10 v = .error .outOfRange) ∧
      (ofDigits 10 digits < 2 ^ 64 → ∃ n parsed, stoul 10 v = .ok (n, parsed) ∧
        (sign = [] → n = ofDigits 10 digits)) := by
  obtain ⟨hsign, hdigits⟩ := h.scanNumber
  unfold Common.stoul
  dsimp only
  rw [hsign, hdigits, if_neg h.digits_ne_nil]
  constructor
  · exact fun hlarge => if_pos hlarge
  · intro hsmall
    rw [if_neg (Nat.not_le.mpr hsmall)]
    refine ⟨_, _, rfl, ?_⟩
    rintro rfl
    rfl

/-! ## Values of the header -/

/-- The value is this number, apart from surrounding blanks. -/
def IsDecimal (v : Bytes) (n : Nat) : Prop :=
  ∃ before digits after, v = before ++ (digits ++ after) ∧ (∀ b ∈ before, isspace b = true) ∧
    (∀ b ∈ after, isspace b = true) ∧ digits ≠ [] ∧ (∀ b ∈ digits, isDigit 10 b = true) ∧
    ofDigits 10 digits = n

/-- The value begins with a number of 64 bits, after blanks and a sign. -/
def BeginsNumber (v : Bytes) : Prop :=
  ∃ blanks sign digits rest, Reads v blanks sign digits rest ∧ ofDigits 10 digits < 2 ^ 64

theorem IsDecimal.reads {v : Bytes} {n : Nat} (h : IsDecimal v n) :
    ∃ before digits after, Reads v before [] digits after ∧ ofDigits 10 digits = n := by
  obtain ⟨before, digits, after, hv, hbefore, hafter, hne, hdigits, hn⟩ := h
  refine ⟨before, digits, after, ⟨hv, hbefore, Or.inl rfl, hne, hdigits, ?_⟩, hn⟩
  intro b t hb
  have hblank := hafter b (by rw [hb]; exact List.mem_cons_self)
  by_contra hdigit
  rw [(isDigit_ten (by simpa using hdigit)).1] at hblank
  cases hblank

/-- `std::stoul` takes a number between blanks for what it is. -/
theorem IsDecimal.stoul {v : Bytes} {n : Nat} (h : IsDecimal v n) (hlt : n < 2 ^ 64) :
    ∃ parsed, stoul 10 v = .ok (n, parsed) := by
  obtain ⟨before, digits, after, hreads, rfl⟩ := h.reads
  obtain ⟨n, parsed, hstoul, hn⟩ := hreads.stoul.2 hlt
  obtain rfl := hn rfl
  exact ⟨parsed, hstoul⟩

/-- What `std::stoul` returns for a number between blanks is the number. -/
theorem IsDecimal.value_eq {v : Bytes} {m n parsed : Nat} (h : IsDecimal v m)
    (hstoul : Common.stoul 10 v = .ok (n, parsed)) : m = n := by
  obtain ⟨_, digits, _, hreads, rfl⟩ := h.reads
  by_cases hlt : ofDigits 10 digits < 2 ^ 64
  · obtain ⟨parsed', hok⟩ := h.stoul hlt
    exact (Prod.mk.inj (Except.ok.inj (hok.symm.trans hstoul))).1
  · rw [hreads.stoul.1 (Nat.not_lt.mp hlt)] at hstoul
    cases hstoul

theorem beginsNumber_iff (v : Bytes) : BeginsNumber v ↔ ∃ result, stoul 10 v = .ok result := by
  constructor
  · rintro ⟨blanks, sign, digits, rest, hreads, hlt⟩
    obtain ⟨n, parsed, hstoul, -⟩ := hreads.stoul.2 hlt
    exact ⟨_, hstoul⟩
  · rintro ⟨result, hstoul⟩
    have hdigits : (scanNumber 10 v).2.1 ≠ [] := by
      intro hnil
      unfold Common.stoul at hstoul
      dsimp only at hstoul
      rw [if_pos hnil] at hstoul
      cases hstoul
    obtain ⟨blanks, sign, digits, rest, hreads⟩ := exists_reads hdigits
    refine ⟨blanks, sign, digits, rest, hreads, ?_⟩
    by_contra hlarge
    rw [hreads.stoul.1 (Nat.not_lt.mp hlarge)] at hstoul
    cases hstoul

/-! ## After the headers -/

/-- The headers of a message with a length. -/
structure LengthHeaders (text : Bytes) (reply : HttpReply) : Prop where
  ends : search CRLFCRLF (text ++ CRLFCRLF) = some text.length
  parsed : parseHeaders text = .ok reply
  hasLength : reply.hasHeader (bytes "Content-Length") = true

/-- Whatever comes after the headers, and however it comes: the decoder waits for this many
bytes, takes them as the body and leaves the rest. -/
def TakesBody (z : Zlib) (text : Bytes) (reply : HttpReply) (n : Nat) : Prop :=
  ∀ (client : TcpClient) (s : Bytes), client.unread = text ++ CRLFCRLF ++ s → ∃ client',
    asyncResponse z client = some (if n ≤ s.length then processReply z { reply with body := s.take n }
      else .handler (some .eof) reply, client') ∧
    client'.unread = if n ≤ s.length then s.drop n else s

/-- It reports a protocol error. -/
def RefusesLength (z : Zlib) (text : Bytes) (reply : HttpReply) : Prop :=
  ∀ (client : TcpClient) (s : Bytes), client.unread = text ++ CRLFCRLF ++ s → ∃ client',
    asyncResponse z client = some (.handler (some .protocolError) reply, client')

/-- The body has the length that the value is, and there is an error when it is none. -/
def LengthStrict (z : Zlib) (text : Bytes) (reply : HttpReply) (v : Bytes) : Prop :=
  (∀ n, TakesBody z text reply n ↔ IsDecimal v n ∧ n < 2 ^ 64) ∧
    ((∀ n, IsDecimal v n → 2 ^ 64 ≤ n) → RefusesLength z text reply)

section

variable {z : Zlib} {text : Bytes} {reply : HttpReply}

theorem takesBody_of_stoul (h : LengthHeaders text reply) {n parsed : Nat}
    (hstoul : stoul 10 (reply.getHeader (bytes "Content-Length")) = .ok (n, parsed)) :
    TakesBody z text reply n := by
  intro client s hclient
  obtain ⟨client', hresponse, hunread⟩ := asyncResponse_yields z _ client hclient
  refine ⟨client', ?_⟩
  rw [hresponse, hunread, decode_headers z h.ends h.parsed]
  unfold decodeBody contentLength
  rw [if_pos h.hasLength, hstoul]
  dsimp only
  by_cases hle : n ≤ s.length
  · rw [if_pos hle, if_pos hle, if_pos hle]
    exact ⟨rfl, rfl⟩
  · rw [if_neg hle, if_neg hle, if_neg hle]
    exact ⟨rfl, rfl⟩

theorem refusesLength_of_stoul (h : LengthHeaders text reply) {error : ConversionError}
    (hstoul : stoul 10 (reply.getHeader (bytes "Content-Length")) = .error error) :
    RefusesLength z text reply := by
  intro client s hclient
  obtain ⟨client', hresponse, -⟩ := asyncResponse_yields z _ client hclient
  refine ⟨client', ?_⟩
  rw [hresponse, decode_headers z h.ends h.parsed]
  unfold decodeBody contentLength
  rw [if_pos h.hasLength, hstoul]

/-- The bytes that are left tell two lengths apart. -/
theorem TakesBody.unique {n m : Nat} (h : TakesBody z text reply n) (h' : TakesBody z text reply m) :
    n = m := by
  have hclient : Source.unread (⟨[], [text ++ CRLFCRLF ++ List.replicate (n + m) 0]⟩ : TcpClient) =
      text ++ CRLFCRLF ++ List.replicate (n + m) 0 := by
    simp [Source.unread]
  obtain ⟨client', hn, hleft⟩ := h _ _ hclient
  obtain ⟨client'', hm, hleft'⟩ := h' _ _ hclient
  obtain ⟨-, rfl⟩ := Prod.mk.inj (Option.some.inj (hn.symm.trans hm))
  have hlen := congrArg List.length (hleft.symm.trans hleft')
  rw [List.length_replicate, if_pos (Nat.le_add_right n m), if_pos (Nat.le_add_left m n),
    List.length_drop, List.length_drop, List.length_replicate] at hlen
  omega

/-- With nothing after the headers there is no error, or that of the end of the stream. -/
theorem TakesBody.not_refuses {n : Nat} (h : TakesBody z text reply n) :
    ¬ RefusesLength z text reply := by
  intro hrefuses
  have hclient : Source.unread (⟨[], [text ++ CRLFCRLF ++ []]⟩ : TcpClient) =
      text ++ CRLFCRLF ++ [] := by
    simp [Source.unread]
  obtain ⟨client', htakes, -⟩ := h _ _ hclient
  obtain ⟨client'', herror⟩ := hrefuses _ _ hclient
  have houtcome := (Prod.mk.inj (Option.some.inj (htakes.symm.trans herror))).1
  rw [List.take_nil] at houtcome
  split at houtcome
  · simp [processReply] at houtcome
  · cases houtcome

/-- The value is read strictly when it is a number between blanks, of any size, and when it
does not begin with a number of 64 bits; for no other value. -/
theorem content_length_strict_iff (z : Zlib) (text : Bytes) (reply : HttpReply)
    (h : LengthHeaders text reply) :
    LengthStrict z text reply (reply.getHeader (bytes "Content-Length")) ↔
      (∃ n, IsDecimal (reply.getHeader (bytes "Content-Length")) n) ∨
        ¬ BeginsNumber (reply.getHeader (bytes "Content-Length")) := by
  rw [beginsNumber_iff]
  cases hstoul : stoul 10 (reply.getHeader (bytes "Content-Length")) with
  | ok result =>
    obtain ⟨n, parsed⟩ := result
    have htakes : TakesBody z text reply n := takesBody_of_stoul h hstoul
    constructor
    · exact fun hstrict => Or.inl ⟨n, ((hstrict.1 n).mp htakes).1⟩
    · rintro (⟨m, hm⟩ | hnot)
      · obtain rfl := hm.value_eq hstoul
        have hlt : m < 2 ^ 64 := stoul_lt hstoul
        refine ⟨fun k => ⟨fun hk => ?_, fun hk => ?_⟩, fun hlarge => ?_⟩
        · obtain rfl := hk.unique htakes
          exact ⟨hm, hlt⟩
        · rwa [hk.1.value_eq hstoul]
        · exact absurd (hlarge m hm) (Nat.not_le.mpr hlt)
      · exact absurd ⟨_, rfl⟩ hnot
  | error error =>
    have hrefuses : RefusesLength z text reply := refusesLength_of_stoul h hstoul
    refine iff_of_true ⟨fun n => iff_of_false (fun hn => hn.not_refuses hrefuses) ?_, fun _ => hrefuses⟩
      (Or.inr ?_)
    · rintro ⟨hn, hlt⟩
      obtain ⟨parsed, hok⟩ := hn.stoul hlt
      rw [hstoul] at hok
      cases hok
    · rintro ⟨result, hok⟩
      cases hok

end

namespace Sample

def lengthHeaders (length : String) : Bytes := bytes "POST / HTTP/1.1\r\nContent-Length: " ++ bytes length

def lengthReply (length : String) : HttpReply where
  headers := lengthHeaders length
  method := bytes "post"
  resource := bytes "/"
  parsedHeaders := [(bytes "Content-Length", bytes length)]

end Sample

theorem content_length_strict_two :
    LengthStrict Sample.outOfMemory (Sample.lengthHeaders "2 ") (Sample.lengthReply "2 ") (bytes "2 ") := by
  have hvalue : (Sample.lengthReply "2 ").getHeader (bytes "Content-Length") = bytes "2 " := by
    decide +kernel
  have hheaders : LengthHeaders (Sample.lengthHeaders "2 ") (Sample.lengthReply "2 ") := by
    constructor <;> decide +kernel
  rw [← hvalue]
  refine (content_length_strict_iff Sample.outOfMemory _ _ hheaders).mpr (Or.inl ⟨2, ?_⟩)
  rw [hvalue]
  exact ⟨[], [50], [32], rfl, by decide +kernel, by decide +kernel, by decide, by decide +kernel, rfl⟩

/-- A length with a letter behind it is taken, with the bytes that follow. -/
theorem trailing_text_accepted :
    ¬ LengthStrict Sample.outOfMemory (Sample.lengthHeaders "2x") (Sample.lengthReply "2x")
      (bytes "2x") := by
  intro hstrict
  have hheaders : LengthHeaders (Sample.lengthHeaders "2x") (Sample.lengthReply "2x") := by
    constructor <;> decide +kernel
  have htakes : TakesBody Sample.outOfMemory (Sample.lengthHeaders "2x") (Sample.lengthReply "2x") 2 :=
    takesBody_of_stoul hheaders (show stoul 10 _ = .ok (2, 1) by decide +kernel)
  obtain ⟨⟨before, digits, after, hv, hbefore, hafter, -, hdigits, -⟩, -⟩ := (hstrict.1 2).mp htakes
  have hx : 120 ∈ before ++ (digits ++ after) := by
    rw [← hv]
    decide
  simp only [List.mem_append] at hx
  rcases hx with hx | hx | hx
  · exact absurd (hbefore _ hx) (by decide)
  · exact absurd (hdigits _ hx) (by decide)
  · exact absurd (hafter _ hx) (by decide)

end O2Chat.Net
