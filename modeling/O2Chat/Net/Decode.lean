import O2Chat.Net.Client

/-!
# Decoding does not depend on the segments

`decode` says on a list of bytes what one call of `asyncResponse` hands over and what
it leaves. The client computes it however the bytes arrive.
-/
namespace O2Chat.Net

open O2Chat.Common O2Chat.Lib.Search O2Chat.Lib.Stream

theorem drop_after_search {pat s : Bytes} {pos : Nat} (h : search pat s = some pos)
    (hpat : pat ≠ []) : (s.drop (pos + pat.length)).length < s.length := by
  have hlen := search_length_le h
  have hpos := List.length_pos_iff.mpr hpat
  rw [List.length_drop]
  omega

/-- Decode the chunks of a body, the next of which begins with its size. -/
def decodeChunks (z : Zlib) (reply : HttpReply) (s : Bytes) : Outcome × Bytes :=
  match _h : search CRLF s with
  | none => (.handler (some .eof) {}, s)
  | some pos =>
    let rest := s.drop (pos + CRLF.length)
    match chunkSize (s.take pos) with
    | none => (.handler (some .protocolError) reply, rest)
    | some size =>
      if chunkBytes size ≤ rest.length then
        if 2 ^ 63 ≤ size then (.aborted, rest)
        else
          let reply := { reply with body := reply.body ++ (rest.take (chunkBytes size)).take size }
          if size = 0 then (processReply z reply, rest.drop (chunkBytes size))
          else decodeChunks z reply (rest.drop (chunkBytes size))
      else (.handler (some .eof) reply, rest)
termination_by s.length
decreasing_by
  have hrest := drop_after_search _h (by decide)
  rw [List.length_drop]
  omega

theorem decodeChunks_none (z : Zlib) (reply : HttpReply) {s : Bytes} (h : search CRLF s = none) :
    decodeChunks z reply s = (.handler (some .eof) {}, s) := by
  rw [decodeChunks]
  split
  · rfl
  · rename_i hpos
    rw [h] at hpos
    cases hpos

theorem decodeChunks_some (z : Zlib) (reply : HttpReply) {s : Bytes} {pos : Nat}
    (h : search CRLF s = some pos) : decodeChunks z reply s =
      match chunkSize (s.take pos) with
      | none => (.handler (some .protocolError) reply, s.drop (pos + CRLF.length))
      | some size =>
        if chunkBytes size ≤ (s.drop (pos + CRLF.length)).length then
          if 2 ^ 63 ≤ size then (.aborted, s.drop (pos + CRLF.length))
          else
            let reply := { reply with
              body := reply.body ++ ((s.drop (pos + CRLF.length)).take (chunkBytes size)).take size }
            if size = 0 then
              (processReply z reply, (s.drop (pos + CRLF.length)).drop (chunkBytes size))
            else decodeChunks z reply ((s.drop (pos + CRLF.length)).drop (chunkBytes size))
        else (.handler (some .eof) reply, s.drop (pos + CRLF.length)) := by
  rw [decodeChunks]
  split
  · rename_i hnone
    rw [h] at hnone
    cases hnone
  · rename_i pos' hpos
    obtain rfl := Option.some.inj (h.symm.trans hpos)
    rfl

/-- Decode the body that the headers announce. -/
def decodeBody (z : Zlib) (reply : HttpReply) (s : Bytes) : Outcome × Bytes :=
  match contentLength reply with
  | .error reply => (.handler (some .protocolError) reply, s)
  | .ok (some bodyLen) =>
    if bodyLen ≤ s.length then
      (processReply z { reply with body := s.take bodyLen }, s.drop bodyLen)
    else (.handler (some .eof) reply, s)
  | .ok none =>
    if reply.getHeader (bytes "Transfer-Encoding") = bytes "chunked" then decodeChunks z reply s
    else (.handler none reply, s)

/-- Decode one message. -/
def decode (z : Zlib) (s : Bytes) : Outcome × Bytes :=
  match search CRLFCRLF s with
  | none => (.handler (some .eof) {}, s)
  | some pos =>
    let rest := s.drop (pos + CRLFCRLF.length)
    match parseHeaders (s.take pos) with
    | .error reply => (.handler (some .protocolError) reply, rest)
    | .ok reply => decodeBody z reply rest

/-- Decode up to `n` messages. -/
def decodeTimes (z : Zlib) (n : Nat) (s : Bytes) : List Outcome × Bytes :=
  parseTimes (decode z) (· ≠ .aborted) n s

/-- After the headers comes the body that they announce. -/
theorem decode_headers (z : Zlib) {text : Bytes} {reply : HttpReply}
    (hends : search CRLFCRLF (text ++ CRLFCRLF) = some text.length)
    (hparsed : parseHeaders text = .ok reply) (s : Bytes) :
    decode z (text ++ CRLFCRLF ++ s) = decodeBody z reply s := by
  unfold decode
  rw [search_append_right hends s]
  dsimp only
  rw [← List.length_append, List.drop_left, List.append_assoc, List.take_left, hparsed]

/-! ## The reading functions -/

/-- The error of a read that goes on until `matched` holds. -/
def readError (matched : Bool) : Option ErrorCode := if matched then none else some .eof

theorem asyncRead_yields {condition : MatchCondition UInt8} (hc : condition.Settled) (s : Bytes) :
    Yields (asyncRead condition) s (readError (condition s).2) s :=
  (readUntilMatch_yields hc s).bind (Yields.pure _ _)

/-- Cutting the buffer at the delimiter in it cuts all that is unread there. -/
theorem cut_source {delimiter s : Bytes} {client : TcpClient} {pos : Nat}
    (h : search delimiter client.buffered = some pos) (hs : client.unread = s) :
    client.buffered.take pos = s.take pos ∧
      Source.unread { client with buffered := client.buffered.drop (pos + delimiter.length) } =
        s.drop (pos + delimiter.length) := by
  have hle := search_length_le h
  rw [← hs]
  unfold Source.unread
  rw [List.take_append_of_le_length (by omega), List.drop_append_of_le_length hle]
  exact ⟨rfl, rfl⟩

/-- `read_until` takes what is before the first delimiter. -/
theorem readUntil_yields {delimiter s : Bytes} {pos : Nat} (h : search delimiter s = some pos) :
    Yields (readUntil delimiter) s (s.take pos) (s.drop (pos + delimiter.length)) := by
  intro client hs
  unfold readUntil
  dsimp only
  split
  · rename_i n hn
    -- the delimiter is in the buffer already
    split at hn
    · cases hn
    · have hsame := search_append_right hn client.incoming.flatten
      rw [show client.buffered ++ client.incoming.flatten = s from hs, h] at hsame
      obtain rfl := Option.some.inj hsame
      obtain ⟨htake, hdrop⟩ := cut_source hn hs
      exact ⟨_, by rw [htake], hdrop⟩
  · obtain ⟨hmatch, hbuf⟩ := readLoop_contains client.incoming client.buffered hs h
    obtain ⟨-, hunread⟩ :=
      readLoop_spec (contains_settled delimiter) client.incoming client.buffered
    obtain ⟨htake, hdrop⟩ := cut_source hbuf (hunread.trans hs)
    rw [hmatch]
    dsimp only
    exact ⟨_, by rw [htake], hdrop⟩

/-- `read` takes as many bytes as it is asked for. -/
theorem read_yields {n : Nat} {s : Bytes} (h : n ≤ s.length) :
    Yields (read n) s (s.take n) (s.drop n) := by
  rintro ⟨buffered, incoming⟩ hs
  have hs' : buffered ++ incoming.flatten = s := hs
  unfold read
  dsimp only
  by_cases hle : n ≤ buffered.length
  · rw [Nat.min_eq_left hle, if_pos rfl, ← hs', List.take_append_of_le_length hle,
      List.drop_append_of_le_length hle]
    exact ⟨_, rfl, rfl⟩
  · have hlt : buffered.length < n := by omega
    rw [Nat.min_eq_right (by omega), if_neg (by omega)]
    rw [← hs', List.length_append] at h
    obtain ⟨rest, htake, hrest⟩ := takeSegments_spec (n - buffered.length) incoming (by omega)
    rw [htake, ← hs', List.take_append, List.drop_append, List.take_length, List.drop_length,
      List.take_of_length_le (Nat.le_of_lt hlt), List.drop_eq_nil_of_le (Nat.le_of_lt hlt)]
    exact ⟨_, rfl, hrest⟩

/-! ## The client computes `decode` -/

variable (z : Zlib)

@[simp] theorem readError_true : readError true = none := rfl

@[simp] theorem readError_false : readError false = some .eof := rfl

/-- With enough fuel the chunks are decoded to the end. -/
theorem chunks_yields (fuel : Nat) (reply : HttpReply) (s : Bytes) (hfuel : s.length < fuel) :
    Yields (asyncRead (contains CRLF) >>= fun error => startProcessChunk z fuel error reply)
      s (decodeChunks z reply s).1 (decodeChunks z reply s).2 := by
  induction fuel generalizing reply s with
  | zero => omega
  | succ fuel ih =>
    apply (asyncRead_yields (contains_settled CRLF) s).bind
    rw [contains_snd, decodeChunks]
    split
    · rename_i hnone
      rw [hnone]
      exact Yields.pure _ _
    · rename_i pos hpos
      have hrest := drop_after_search hpos (by decide)
      rw [hpos]
      apply (readUntil_yields hpos).bind
      generalize s.drop (pos + CRLF.length) = rest at hrest
      cases hsize : chunkSize (s.take pos) with
      | none => exact Yields.pure _ _
      | some size =>
        apply (asyncRead_yields (atLeast_settled (chunkBytes size)) rest).bind
        rw [atLeast_snd]
        by_cases hle : chunkBytes size ≤ rest.length
        · rw [decide_eq_true hle, readError_true]
          dsimp only
          rw [if_pos hle]
          by_cases hbig : 2 ^ 63 ≤ size
          · rw [if_pos ⟨rfl, hbig⟩, if_pos hbig]
            exact Yields.pure _ _
          · rw [if_neg (fun h => hbig h.2), if_neg hbig]
            apply (read_yields hle).bind
            dsimp only
            by_cases hzero : size = 0
            · rw [if_pos hzero, if_pos hzero]
              exact Yields.pure _ _
            · rw [if_neg hzero, if_neg hzero]
              apply ih
              rw [List.length_drop]
              omega
        · rw [decide_eq_false hle, readError_false]
          dsimp only
          rw [if_neg hle, if_neg (fun h => absurd h.1 (by decide))]
          exact Yields.pure _ _

theorem handleHeaders_yields (fuel : Nat) (s : Bytes) (hfuel : s.length < fuel) :
    Yields (asyncRead (contains CRLFCRLF) >>= handleHeaders z fuel) s (decode z s).1 (decode z s).2 := by
  apply (asyncRead_yields (contains_settled CRLFCRLF) s).bind
  rw [contains_snd]
  unfold decode
  cases hpos : search CRLFCRLF s with
  | none => exact Yields.pure _ _
  | some pos =>
    have hrest := drop_after_search hpos (by decide)
    apply (readUntil_yields hpos).bind
    dsimp only
    generalize s.drop (pos + CRLFCRLF.length) = rest at hrest
    cases parseHeaders (s.take pos) with
    | error reply => exact Yields.pure _ _
    | ok reply =>
      dsimp only
      unfold decodeBody
      cases contentLength reply with
      | error reply => exact Yields.pure _ _
      | ok length =>
        cases length with
        | some bodyLen =>
          apply (asyncRead_yields (atLeast_settled bodyLen) rest).bind
          rw [atLeast_snd]
          by_cases hle : bodyLen ≤ rest.length
          · rw [decide_eq_true hle, readError_true]
            dsimp only
            rw [if_pos hle]
            exact (read_yields hle).bind (Yields.pure _ _)
          · rw [decide_eq_false hle, readError_false]
            dsimp only
            rw [if_neg hle]
            exact Yields.pure _ _
        | none =>
          dsimp only
          split
          · exact chunks_yields z fuel reply rest (by omega)
          · exact Yields.pure _ _

/-- However the bytes arrive, `asyncResponse` hands over what `decode` says and leaves
the same bytes. -/
theorem asyncResponse_yields (s : Bytes) :
    Yields (asyncResponse z) s (decode z s).1 (decode z s).2 := by
  intro client hs
  have hfuel : s.length < client.unread.length + 1 := by
    rw [hs]
    omega
  exact handleHeaders_yields z _ s hfuel client hs

theorem asyncResponses_yields (n : Nat) (s : Bytes) :
    Yields (asyncResponses z n) s (decodeTimes z n s).1 (decodeTimes z n s).2 :=
  callTimes_yields (asyncResponse_yields z) n s

/-- Two clients whose buffers and segments hold the same bytes get the same outcomes from
repeated calls, and the same bytes are left. -/
theorem asyncResponses_segmentation (n : Nat) (client₁ client₂ : TcpClient)
    (h : client₁.unread = client₂.unread) :
    ∃ outcomes client₁' client₂', asyncResponses z n client₁ = some (outcomes, client₁') ∧
      asyncResponses z n client₂ = some (outcomes, client₂') ∧
      client₁'.unread = client₂'.unread := by
  obtain ⟨client₁', client₂', h₁, h₂, hrest⟩ := (asyncResponses_yields z n _).same h rfl
  exact ⟨_, client₁', client₂', h₁, h₂, hrest⟩

namespace Sample

/-- A zlib that has no memory for a stream. -/
def outOfMemory : Zlib where
  Stream := Empty
  inflateInit2 _ := none
  inflate strm _ := nomatch strm
  inflateEnd strm := nomatch strm
  remaining strm := nomatch strm
  progress strm := nomatch strm

def whole : TcpClient := ⟨[], [bytes "POST / HTTP/1.1\r\nContent-Length: 2\r\n\r\nok"]⟩

/-- The same message, cut within a header, the empty line and the body. -/
def cut : TcpClient :=
  ⟨bytes "POST / HTTP/1.1\r\nConte", [bytes "nt-Length: 2\r\n\r", bytes "\no", bytes "k"]⟩

end Sample

theorem asyncResponses_segmentation_cut :
    ∃ outcomes client₁' client₂',
      asyncResponses Sample.outOfMemory 2 Sample.whole = some (outcomes, client₁') ∧
      asyncResponses Sample.outOfMemory 2 Sample.cut = some (outcomes, client₂') ∧
      client₁'.unread = client₂'.unread :=
  asyncResponses_segmentation Sample.outOfMemory 2 Sample.whole Sample.cut (by decide)

end O2Chat.Net
