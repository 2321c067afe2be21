import O2Chat.Net.Chunked

/-!
# Which chunked bodies are accepted

The size of a chunk is what `std::stoul` makes of its line, and the two bytes after the
data are skipped unread. So the decoder takes more than the grammar of chunked bodies:
it keeps to the grammar exactly where it meets a line that it refuses, or a body of the
grammar or the beginning of one.
-/
namespace O2Chat.Net

open O2Chat.Common O2Chat.Lib.Search O2Chat.Lib.Stream

/-- The grammar: chunks, the last of which and only it is empty, with their data. -/
inductive ChunkedBody : Bytes → Bytes → Prop
  | last (c : Chunk) (h : c.data = []) : ChunkedBody c.encode []
  | chunk (c : Chunk) (h : c.data ≠ []) {body data : Bytes} (hbody : ChunkedBody body data) :
    ChunkedBody (c.encode ++ body) (c.data ++ data)

/-- The stream goes on as a body of the grammar when `t` is appended. -/
def Begun (s : Bytes) : Prop :=
  ∃ body data t rest, ChunkedBody body data ∧ s ++ t = body ++ rest

/-- The stream is a body of the grammar without its end. -/
def EndsEarly (s : Bytes) : Prop :=
  ∃ body data t, ChunkedBody body data ∧ t ≠ [] ∧ s ++ t = body

/-- Nothing but the grammar is accepted: after a body `before`, success takes a body of
the grammar off the stream, and another end is that of a stream which ends early or is
reported as a protocol error. -/
def KeepsGrammar (before s : Bytes) : Outcome × Bytes → Prop
  | (.handler none reply, rest) =>
    ∃ body data, ChunkedBody body data ∧ reply.body = before ++ data ∧ s = body ++ rest
  | (.handler (some .protocolError) _, _) => True
  | (.handler (some .eof) _, _) => EndsEarly s
  | (.handler (some (.system _)) _, _) => False
  | (.aborted, _) => False

/-! ## What the decoder goes through -/

/-- The end of a line is not found before the end of `line`. -/
def IsLine (line : Bytes) : Prop := search CRLF (line ++ CRLF) = some line.length

/-- What the decoder takes for a chunk that is not the last: any line that `std::stoul`
reads to its end, as many bytes as it says, and two more. -/
structure LooseChunk where
  line : Bytes
  data : Bytes
  skipped : Bytes
  isLine : IsLine line
  size : chunkSize line = some data.length
  data_ne_nil : data ≠ []
  data_length : data.length < 2 ^ 63
  skipped_length : skipped.length = 2

def LooseChunk.encode (c : LooseChunk) : Bytes := c.line ++ CRLF ++ c.data ++ c.skipped

/-- After some loose chunks the decoder comes to `line`, which `rest` follows. -/
def Reaches (s line rest : Bytes) : Prop :=
  IsLine line ∧ ∃ chunks : List LooseChunk,
    s = chunks.flatMap LooseChunk.encode ++ (line ++ CRLF ++ rest)

/-- It comes to a line that is no number, or not to its end, or too large a number. -/
def Refused (s : Bytes) : Prop := ∃ line rest, Reaches s line rest ∧ chunkSize line = none

/-- It comes to a size that is negative as a `ptrdiff_t`, and there are as many bytes as
the size and two are in `size_t`. -/
def Overflows (s : Bytes) : Prop :=
  ∃ line rest size, Reaches s line rest ∧ chunkSize line = some size ∧ 2 ^ 63 ≤ size ∧
    chunkBytes size ≤ rest.length

theorem Reaches.cons (c : LooseChunk) {s line rest : Bytes} (h : Reaches s line rest) :
    Reaches (c.encode ++ s) line rest := by
  obtain ⟨hline, chunks, rfl⟩ := h
  refine ⟨hline, c :: chunks, ?_⟩
  rw [List.flatMap_cons, List.append_assoc c.encode]

theorem Refused.cons (c : LooseChunk) {s : Bytes} (h : Refused s) : Refused (c.encode ++ s) := by
  obtain ⟨line, rest, hreach, hsize⟩ := h
  exact ⟨line, rest, hreach.cons c, hsize⟩

theorem Overflows.cons (c : LooseChunk) {s : Bytes} (h : Overflows s) : Overflows (c.encode ++ s) := by
  obtain ⟨line, rest, size, hreach, hsize⟩ := h
  exact ⟨line, rest, size, hreach.cons c, hsize⟩

variable (z : Zlib)

/-- The decoder at a line. -/
theorem decodeChunks_line (reply : HttpReply) {line : Bytes} (h : IsLine line) (rest : Bytes) :
    decodeChunks z reply (line ++ CRLF ++ rest) =
      match chunkSize line with
      | none => (.handler (some .protocolError) reply, rest)
      | some size =>
        if chunkBytes size ≤ rest.length then
          if 2 ^ 63 ≤ size then (.aborted, rest)
          else
            let reply := { reply with body := reply.body ++ (rest.take (chunkBytes size)).take size }
            if size = 0 then (processReply z reply, rest.drop (chunkBytes size))
            else decodeChunks z reply (rest.drop (chunkBytes size))
        else (.handler (some .eof) reply, rest) := by
  have hdrop : (line ++ CRLF ++ rest).drop (line.length + CRLF.length) = rest := by
    rw [← List.length_append, List.drop_left]
  have htake : (line ++ CRLF ++ rest).take line.length = line := by
    rw [List.append_assoc, List.take_left]
  have hround := decodeChunks_some z reply (search_append_right h rest)
  rw [hdrop, htake] at hround
  exact hround

/-- One round takes one loose chunk. -/
theorem decodeChunks_encode (reply : HttpReply) (c : LooseChunk) (s : Bytes) :
    decodeChunks z reply (c.encode ++ s) =
      decodeChunks z { reply with body := reply.body ++ c.data } s := by
  have hbytes : chunkBytes c.data.length = (c.data ++ c.skipped).length := by
    have hlen := c.data_length
    rw [chunkBytes_of_lt (by omega), List.length_append, c.skipped_length]
  have hencode : c.encode ++ s = c.line ++ CRLF ++ (c.data ++ c.skipped ++ s) := by
    simp [LooseChunk.encode]
  have hle : (c.data ++ c.skipped).length ≤ (c.data ++ c.skipped ++ s).length :=
    (List.prefix_append _ s).length_le
  rw [hencode, decodeChunks_line z reply c.isLine, c.size]
  dsimp only
  rw [hbytes, if_pos hle, if_neg (Nat.not_le.mpr c.data_length),
    if_neg (List.length_pos_iff.mpr c.data_ne_nil).ne', List.take_left, List.take_left, List.drop_left]

/-- What a line decides, it decides after loose chunks too. -/
theorem decodeChunks_reaches {s line rest : Bytes} (h : Reaches s line rest) (reply : HttpReply) :
    ∃ reply', decodeChunks z reply s = decodeChunks z reply' (line ++ CRLF ++ rest) := by
  obtain ⟨-, chunks, rfl⟩ := h
  induction chunks generalizing reply with
  | nil => exact ⟨reply, rfl⟩
  | cons c chunks ih =>
    obtain ⟨reply', hreply'⟩ := ih { reply with body := reply.body ++ c.data }
    refine ⟨reply', ?_⟩
    rw [List.flatMap_cons, List.append_assoc, decodeChunks_encode, hreply']

theorem decodeChunks_refused {s : Bytes} (h : Refused s) (reply : HttpReply) :
    ∃ reply' rest, decodeChunks z reply s = (.handler (some .protocolError) reply', rest) := by
  obtain ⟨line, rest, hreach, hsize⟩ := h
  obtain ⟨reply', hreply'⟩ := decodeChunks_reaches z hreach reply
  refine ⟨reply', rest, ?_⟩
  rw [hreply', decodeChunks_line z reply' hreach.1, hsize]

theorem decodeChunks_overflows {s : Bytes} (h : Overflows s) (reply : HttpReply) :
    (decodeChunks z reply s).1 = .aborted := by
  obtain ⟨line, rest, size, hreach, hsize, hbig, hle⟩ := h
  obtain ⟨reply', hreply'⟩ := decodeChunks_reaches z hreach reply
  rw [hreply', decodeChunks_line z reply' hreach.1, hsize]
  dsimp only
  rw [if_pos hle, if_pos hbig]

/-- The stream at a line. -/
theorem cut_line {s : Bytes} {pos : Nat} (h : search CRLF s = some pos) :
    IsLine (s.take pos) ∧ s = s.take pos ++ CRLF ++ s.drop (pos + CRLF.length) := by
  have hlen := search_length_le h
  constructor
  · unfold IsLine
    rw [search_take h, List.length_take, Nat.min_eq_left (by omega)]
  · rw [List.append_assoc]
    exact search_cut h

/-- A protocol error is reported for a line that is refused: a reply that is not
compressed is passed on without one. -/
theorem refused_of_protocolError {reply : HttpReply}
    (hplain : reply.hasHeader (bytes "Content-Encoding") = false) {s : Bytes} {reply' : HttpReply}
    (h : (decodeChunks z reply s).1 = .handler (some .protocolError) reply') : Refused s := by
  induction hlen : s.length using Nat.strongRecOn generalizing reply s with
  | ind n ih =>
    subst hlen
    cases hpos : search CRLF s with
    | none =>
      rw [decodeChunks_none z reply hpos] at h
      cases h
    | some pos =>
      obtain ⟨hline, hs⟩ := cut_line hpos
      have hrest := drop_after_search hpos (by decide)
      rw [decodeChunks_some z reply hpos] at h
      generalize s.take pos = line at hline hs h
      generalize s.drop (pos + CRLF.length) = rest at hrest hs h
      cases hsize : chunkSize line with
      | none => exact ⟨line, rest, ⟨hline, [], hs⟩, hsize⟩
      | some size =>
        rw [hsize] at h
        dsimp only at h
        by_cases hle : chunkBytes size ≤ rest.length
        · rw [if_pos hle] at h
          by_cases hbig : 2 ^ 63 ≤ size
          · rw [if_pos hbig] at h
            cases h
          · rw [if_neg hbig] at h
            by_cases hzero : size = 0
            · rw [if_pos hzero, processReply_plain z (by exact hplain)] at h
              cases h
            · rw [if_neg hzero] at h
              have hrefused := ih _ (by rw [List.length_drop]; omega) (by exact hplain) h rfl
              rw [chunkBytes_of_lt (by omega)] at hle hrefused
              let c : LooseChunk :=
                { line := line
                  data := rest.take size
                  skipped := (rest.drop size).take 2
                  isLine := hline
                  size := by rw [hsize, List.length_take, Nat.min_eq_left (by omega)]
                  data_ne_nil := by
                    rw [← List.length_pos_iff, List.length_take]
                    omega
                  data_length := by
                    rw [List.length_take]
                    omega
                  skipped_length := by
                    rw [List.length_take, List.length_drop]
                    omega }
              have hencode : s = c.encode ++ rest.drop (size + 2) := by
                rw [hs, LooseChunk.encode, List.append_assoc, List.append_assoc, List.append_assoc,
                  ← List.drop_drop, List.take_append_drop, List.take_append_drop, List.append_assoc]
              rw [hencode]
              exact hrefused.cons c
        · rw [if_neg hle] at h
          cases h

/-! ## Streams of the grammar -/

/-- A stream that is too short for a body of the grammar it begins ends early. -/
theorem endsEarly_of_lt {s t body data rest : Bytes} (hbody : ChunkedBody body data)
    (hs : s ++ t = body ++ rest) (hlt : s.length < body.length) : EndsEarly s := by
  obtain ⟨more, hmore⟩ : s <+: body :=
    List.prefix_of_prefix_length_le ⟨t, hs⟩ (List.prefix_append body rest) (Nat.le_of_lt hlt)
  refine ⟨body, data, more, hbody, ?_, hmore⟩
  rintro rfl
  rw [← hmore, List.append_nil] at hlt
  exact absurd hlt (Nat.lt_irrefl _)

theorem EndsEarly.cons {c : Chunk} (h : c.data ≠ []) {s : Bytes} (hs : EndsEarly s) :
    EndsEarly (c.encode ++ s) := by
  obtain ⟨body, data, t, hbody, ht, rfl⟩ := hs
  exact ⟨_, _, t, hbody.chunk c h, ht, List.append_assoc ..⟩

/-- The grammar is kept from a chunk on when it is kept after the chunk. -/
theorem KeepsGrammar.chunk {c : Chunk} (h : c.data ≠ []) {before s : Bytes} {result : Outcome × Bytes}
    (hkeeps : KeepsGrammar (before ++ c.data) s result) :
    KeepsGrammar before (c.encode ++ s) result := by
  obtain ⟨outcome, rest⟩ := result
  cases outcome with
  | aborted => exact hkeeps
  | handler error reply =>
    cases error with
    | none =>
      obtain ⟨body, data, hbody, hreply, rfl⟩ := hkeeps
      refine ⟨_, _, hbody.chunk c h, ?_, (List.append_assoc ..).symm⟩
      rw [hreply, List.append_assoc]
    | some code =>
      cases code with
      | eof => exact EndsEarly.cons h hkeeps
      | protocolError => trivial
      | system value => exact hkeeps

theorem chunkSize_eq_some {c : Chunk} {size : Nat} (h : chunkSize c.digits = some size) :
    size = c.data.length ∧ c.data.length < 2 ^ 64 := by
  have hlt : c.data.length < 2 ^ 64 := by
    by_contra hge
    unfold chunkSize stoul at h
    rw [scanNumber_digits (by decide) c.digits_ne_nil c.hexadecimal] at h
    dsimp only at h
    rw [if_neg c.digits_ne_nil, c.size, if_pos (by omega)] at h
    cases h
  rw [c.chunkSize_digits hlt] at h
  exact ⟨(Option.some.inj h).symm, hlt⟩

theorem Chunk.isLine (c : Chunk) : IsLine c.digits := by
  have hline := search_after [10] [] c.digits_cr
  rwa [List.append_nil] at hline

/-- What a stream has at its front, the beginning of the stream has if it is long enough. -/
theorem front_of_append {s t front more : Bytes} (hs : s ++ t = front ++ more)
    (hle : front.length ≤ s.length) : ∃ s', s = front ++ s' ∧ s' ++ t = more := by
  obtain ⟨s', rfl⟩ : front <+: s :=
    List.prefix_of_prefix_length_le ⟨more, hs.symm⟩ (List.prefix_append s t) hle
  rw [List.append_assoc] at hs
  exact ⟨s', rfl, List.append_cancel_left hs⟩

/-- The decoder at a chunk of the grammar, or as much of it as there is: it ends early,
refuses the size, or takes the chunk off. -/
theorem decodeChunks_chunk (reply : HttpReply) {c : Chunk} {s t more : Bytes}
    (hs : s ++ t = c.encode ++ more) (hover : ¬ Overflows s) :
    (s.length < c.encode.length ∧
      ∃ reply' rest, decodeChunks z reply s = (.handler (some .eof) reply', rest)) ∨
    (∃ reply' rest, decodeChunks z reply s = (.handler (some .protocolError) reply', rest)) ∨
    (c.data.length < 2 ^ 63 ∧ ∃ s', s = c.encode ++ s' ∧ s' ++ t = more ∧
      decodeChunks z reply s =
        if c.data = [] then (processReply z { reply with body := reply.body ++ c.data }, s')
        else decodeChunks z { reply with body := reply.body ++ c.data } s') := by
  have hcrlf : CRLF.length = 2 := rfl
  have hlength : c.encode.length = c.digits.length + 2 + (c.data.length + 2) := by
    simp only [Chunk.encode, List.length_append, hcrlf]
    omega
  have hs' : s ++ t = c.digits ++ CRLF ++ (c.data ++ CRLF ++ more) := by
    rw [hs, c.encode_append, List.append_assoc c.digits]
  by_cases hline : c.digits.length + 2 ≤ s.length
  · obtain ⟨s₁, rfl, hs₁⟩ := front_of_append hs' (by rwa [List.length_append])
    rw [decodeChunks_line z reply c.isLine]
    cases hsize : chunkSize c.digits with
    | none => exact .inr (.inl ⟨_, _, rfl⟩)
    | some size =>
      obtain ⟨rfl, -⟩ := chunkSize_eq_some hsize
      dsimp only
      by_cases hle : chunkBytes c.data.length ≤ s₁.length
      · have hsmall : c.data.length < 2 ^ 63 := by
          by_contra hbig
          exact hover ⟨c.digits, s₁, _, ⟨c.isLine, [], rfl⟩, hsize, Nat.le_of_not_lt hbig, hle⟩
        rw [if_pos hle, if_neg (Nat.not_le.mpr hsmall)]
        rw [chunkBytes_of_lt (by omega)] at hle ⊢
        obtain ⟨s₂, rfl, hs₂⟩ := front_of_append hs₁ (by rwa [List.length_append])
        obtain ⟨htake, hdrop⟩ := cut_data c.data s₂
        refine .inr (.inr ⟨hsmall, s₂, ?_, hs₂, ?_⟩)
        · rw [c.encode_append, List.append_assoc c.digits]
        · rw [htake, hdrop, List.take_left]
          simp only [List.length_eq_zero_iff]
      · rw [if_neg hle]
        have hwrap : chunkBytes c.data.length ≤ c.data.length + 2 := Nat.mod_le _ _
        refine .inl ⟨?_, _, _, rfl⟩
        rw [hlength, List.length_append, List.length_append, hcrlf]
        omega
  · have hnone : search CRLF s = none := by
      cases hpos : search CRLF s with
      | none => rfl
      | some pos =>
        have hlen := search_length_le hpos
        have hsame := search_append_right hpos t
        rw [hs, c.search_encode] at hsame
        obtain rfl := Option.some.inj hsame
        exact absurd hlen hline
    refine .inl ⟨by omega, _, _, decodeChunks_none z reply hnone⟩

/-- A chunk of the grammar is a loose chunk. -/
def Chunk.loose (c : Chunk) (hne : c.data ≠ []) (hlt : c.data.length < 2 ^ 63) : LooseChunk where
  line := c.digits
  data := c.data
  skipped := CRLF
  isLine := c.isLine
  size := c.chunkSize_digits (by omega)
  data_ne_nil := hne
  data_length := hlt
  skipped_length := rfl

/-- A body of the grammar is taken as one, and one that is cut short ends early. -/
theorem keepsGrammar_of_body {body data : Bytes} (hbody : ChunkedBody body data) {reply : HttpReply}
    (hplain : reply.hasHeader (bytes "Content-Encoding") = false) {s t rest : Bytes}
    (hs : s ++ t = body ++ rest) (hover : ¬ Overflows s) :
    KeepsGrammar reply.body s (decodeChunks z reply s) := by
  induction hbody generalizing reply s with
  | last c hc =>
    rcases decodeChunks_chunk z reply hs hover with
      ⟨hlt, reply', rest', heq⟩ | ⟨reply', rest', heq⟩ | ⟨-, s', rfl, -, heq⟩
    · rw [heq]
      exact endsEarly_of_lt (.last c hc) hs hlt
    · rw [heq]
      trivial
    · rw [heq, if_pos hc, processReply_plain z (by exact hplain), hc]
      exact ⟨c.encode, [], .last c hc, rfl, rfl⟩
  | chunk c hc hbody ih =>
    rename_i body data
    have hs' : s ++ t = c.encode ++ (body ++ rest) := by
      rw [hs, List.append_assoc]
    rcases decodeChunks_chunk z reply hs' hover with
      ⟨hlt, reply', rest', heq⟩ | ⟨reply', rest', heq⟩ | ⟨hsmall, s', rfl, hmore, heq⟩
    · rw [heq]
      refine endsEarly_of_lt (hbody.chunk c hc) hs ?_
      rw [List.length_append]
      exact Nat.lt_add_right _ hlt
    · rw [heq]
      trivial
    · rw [heq, if_neg hc]
      have hkeeps : KeepsGrammar (reply.body ++ c.data) s'
          (decodeChunks z { reply with body := reply.body ++ c.data } s') :=
        ih (by exact hplain) hmore fun h => hover (h.cons (c.loose hc hsmall))
      exact hkeeps.chunk hc

theorem EndsEarly.begun {s : Bytes} (h : EndsEarly s) : Begun s := by
  obtain ⟨body, data, t, hbody, -, hs⟩ := h
  refine ⟨body, data, t, [], hbody, ?_⟩
  rw [hs, List.append_nil]

theorem keepsGrammar_iff {reply : HttpReply}
    (hplain : reply.hasHeader (bytes "Content-Encoding") = false) (s : Bytes) :
    KeepsGrammar reply.body s (decodeChunks z reply s) ↔ Refused s ∨ (Begun s ∧ ¬ Overflows s) := by
  constructor
  · intro hkeeps
    have hover : ¬ Overflows s := by
      intro h
      have haborted := decodeChunks_overflows z h reply
      generalize decodeChunks z reply s = result at hkeeps haborted
      obtain ⟨outcome, rest⟩ := result
      obtain rfl : outcome = .aborted := haborted
      exact hkeeps
    have hrefused : ∀ reply', (decodeChunks z reply s).1 = .handler (some .protocolError) reply' →
        Refused s := fun _ => refused_of_protocolError z hplain
    generalize decodeChunks z reply s = result at hkeeps hrefused
    obtain ⟨outcome, rest⟩ := result
    cases outcome with
    | aborted => exact hkeeps.elim
    | handler error reply' =>
      cases error with
      | none =>
        obtain ⟨body, data, hbody, -, hs⟩ := hkeeps
        refine .inr ⟨⟨body, data, [], rest, hbody, ?_⟩, hover⟩
        rw [List.append_nil]
        exact hs
      | some code =>
        cases code with
        | eof => exact .inr ⟨EndsEarly.begun hkeeps, hover⟩
        | protocolError => exact .inl (hrefused reply' rfl)
        | system value => exact hkeeps.elim
  · rintro (hrefused | ⟨⟨body, data, t, rest, hbody, hs⟩, hover⟩)
    · obtain ⟨reply', rest, heq⟩ := decodeChunks_refused z hrefused reply
      rw [heq]
      trivial
    · exact keepsGrammar_of_body z hbody hplain hs hover

/-- After the headers the chunks are decoded. -/
theorem decode_chunked {text : Bytes} {reply : HttpReply} (h : ChunkedHeaders text reply) (s : Bytes) :
    decode z (text ++ CRLFCRLF ++ s) = decodeChunks z reply s := by
  rw [decode_headers z h.ends h.parsed]
  unfold decodeBody
  rw [h.contentLength]
  dsimp only
  rw [if_pos h.chunked]

/-- The decoder keeps to the grammar exactly when the stream comes to a line that is
refused, or is a body of the grammar or the beginning of one, and the assertion on its
iterators does not fail. -/
theorem chunk_grammar_iff {text : Bytes} {reply : HttpReply} (h : ChunkedHeaders text reply)
    (s : Bytes) (client : TcpClient) (hclient : client.unread = text ++ CRLFCRLF ++ s) :
    ∃ outcome client', asyncResponse z client = some (outcome, client') ∧
      (KeepsGrammar [] s (outcome, client'.unread) ↔ Refused s ∨ (Begun s ∧ ¬ Overflows s)) := by
  obtain ⟨client', hresponse, hunread⟩ := asyncResponse_yields z _ client hclient
  refine ⟨_, client', hresponse, ?_⟩
  have hbody := (parseHeaders_ok h.parsed).1
  rw [hunread, decode_chunked z h, ← hbody]
  exact keepsGrammar_iff z h.plain s

/-- What follows the headers in `Sample.chunkedSegments`. -/
def Sample.chunkedStream : Bytes := bytes "3\r\na\r\n\r\n2\r\nbc\r\n0\r\n\r\nHTTP"

theorem Sample.chunkedStream_ok :
    Begun Sample.chunkedStream ∧ ¬ Overflows Sample.chunkedStream := by
  constructor
  · have hbody : ChunkedBody _ _ := .chunk (.ofData (bytes "a\r\n")) (by decide)
      (.chunk (.ofData (bytes "bc")) (by decide) (.last (.ofData []) rfl))
    exact ⟨_, _, [], bytes "HTTP", hbody, by decide +kernel⟩
  · intro hover
    exact absurd (decodeChunks_overflows Sample.outOfMemory hover Sample.chunkedReply)
      (by decide +kernel)

theorem chunk_grammar_iff_segments :
    ∃ outcome client', asyncResponse Sample.outOfMemory Sample.chunkedSegments =
        some (outcome, client') ∧
      KeepsGrammar [] Sample.chunkedStream (outcome, client'.unread) := by
  obtain ⟨outcome, client', hresponse, hkeeps⟩ := chunk_grammar_iff Sample.outOfMemory
    Sample.chunkedHeaders_ok Sample.chunkedStream Sample.chunkedSegments (by decide +kernel)
  exact ⟨outcome, client', hresponse, hkeeps.mpr (.inr Sample.chunkedStream_ok)⟩

theorem ChunkedBody.head {body data : Bytes} (h : ChunkedBody body data) :
    ∃ b rest, body = b :: rest ∧ isDigit 16 b = true := by
  have hdigits : ∀ c : Chunk, ∃ b rest, c.digits = b :: rest ∧ isDigit 16 b = true := by
    intro c
    obtain ⟨b, rest, hb⟩ := List.exists_cons_of_ne_nil c.digits_ne_nil
    exact ⟨b, rest, hb, c.hexadecimal b (by rw [hb]; exact List.mem_cons_self)⟩
  cases h with
  | last c =>
    obtain ⟨b, rest, hb, hdigit⟩ := hdigits c
    exact ⟨b, _, by rw [Chunk.encode, hb]; rfl, hdigit⟩
  | chunk c =>
    obtain ⟨b, rest, hb, hdigit⟩ := hdigits c
    exact ⟨b, _, by rw [Chunk.encode, hb]; rfl, hdigit⟩

namespace Sample

/-- A size with a sign, and no end of a line after the data. -/
def signedSize : TcpClient := ⟨[], [chunkedHeaders ++ CRLFCRLF ++ bytes "+1\r\naXY0\r\n\r\n"]⟩

end Sample

/-- The decoder reports success for a chunk that is none. -/
theorem signed_size_accepted : ∃ client',
    asyncResponse Sample.outOfMemory Sample.signedSize =
      some (.handler none { Sample.chunkedReply with body := bytes "a" }, client') ∧
    ¬ KeepsGrammar [] (bytes "+1\r\naXY0\r\n\r\n")
      (.handler none { Sample.chunkedReply with body := bytes "a" }, client'.unread) := by
  refine ⟨⟨[], []⟩, by decide +kernel, ?_⟩
  rintro ⟨body, data, hbody, -, hs⟩
  obtain ⟨b, rest, rfl, hdigit⟩ := hbody.head
  obtain rfl : (43 : UInt8) = b := (List.cons.inj hs).1
  exact absurd hdigit (by decide)

end O2Chat.Net
