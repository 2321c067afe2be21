import O2Chat.Net.Exchange
import O2Chat.Net.Headers

/-!
# Chunked bodies

A chunk is written as the line with its size, its data and the end of a line. The client
takes a body of chunks apart however they are divided into segments, and leaves what
comes after the last one.
-/
namespace O2Chat.Net

open O2Chat.Common O2Chat.Lib.Search O2Chat.Lib.Stream

/-- Data with hexadecimal digits that write its length. -/
structure Chunk where
  digits : Bytes
  data : Bytes
  digits_ne_nil : digits ≠ []
  hexadecimal : ∀ b ∈ digits, isDigit 16 b = true
  size : ofDigits 16 digits = data.length

namespace Chunk

/-- The chunk with these data and the shortest digits. -/
def ofData (data : Bytes) : Chunk where
  digits := numeral 16 data.length
  data := data
  digits_ne_nil := numeral_ne_nil 16 _
  hexadecimal := isDigit_of_mem_numeral (by decide) (by decide)
  size := ofDigits_numeral (by decide) (by decide) _

def encode (c : Chunk) : Bytes := c.digits ++ CRLF ++ c.data ++ CRLF

theorem digits_cr (c : Chunk) : CR ∉ c.digits := by
  intro h
  obtain ⟨-, -, hcr, -⟩ := of_isDigit_hex CR (c.hexadecimal CR h)
  exact hcr rfl

/-- The line with the size is read to its end. -/
theorem chunkSize_digits (c : Chunk) (h : c.data.length < 2 ^ 64) :
    chunkSize c.digits = some c.data.length := by
  have hstoul : stoul 16 c.digits = .ok (c.data.length, c.digits.length) := by
    rw [← c.size]
    exact stoul_digits (by decide) c.digits_ne_nil c.hexadecimal (by rwa [c.size])
  unfold chunkSize
  rw [hstoul]
  exact if_pos rfl

theorem encode_append (c : Chunk) (s : Bytes) :
    c.encode ++ s = c.digits ++ (CRLF ++ (c.data ++ CRLF ++ s)) := by
  simp [encode]

theorem search_encode (c : Chunk) (s : Bytes) : search CRLF (c.encode ++ s) = some c.digits.length := by
  rw [encode_append]
  exact search_after [10] _ c.digits_cr

/-- After the line with the size come the data and the end of their line. -/
theorem drop_encode (c : Chunk) (s : Bytes) :
    (c.encode ++ s).drop (c.digits.length + CRLF.length) = c.data ++ CRLF ++ s := by
  rw [encode_append, ← List.append_assoc, ← List.length_append, List.drop_left]

theorem take_encode (c : Chunk) (s : Bytes) : (c.encode ++ s).take c.digits.length = c.digits := by
  rw [encode_append, List.take_left]

end Chunk

theorem chunkBytes_of_lt {n : Nat} (h : n < 2 ^ 64 - 2) : chunkBytes n = n + 2 :=
  Nat.mod_eq_of_lt (by omega)

/-- The data of a chunk and the end of their line are cut off together. -/
theorem cut_data (data s : Bytes) :
    (data ++ CRLF ++ s).take (data.length + 2) = data ++ CRLF ∧
      (data ++ CRLF ++ s).drop (data.length + 2) = s := by
  have hlen : data.length + 2 = (data ++ CRLF).length := by
    rw [List.length_append]
    rfl
  rw [hlen]
  exact ⟨List.take_left, List.drop_left⟩

variable (z : Zlib) (ended : ErrorCode)

/-- One round takes one chunk. -/
theorem receiveChunks_encode (reply : HttpReply) (c : Chunk) (h : c.data.length < 2 ^ 64 - 2)
    (s : Bytes) : receiveChunks z ended reply (c.encode ++ s) =
      if c.data = [] then (processReply z { reply with body := reply.body ++ c.data }, s)
      else receiveChunks z ended { reply with body := reply.body ++ c.data } s := by
  rw [receiveChunks_some z ended reply (c.search_encode s), c.take_encode,
    c.chunkSize_digits (by omega), c.drop_encode]
  dsimp only
  obtain ⟨htake, hdrop⟩ := cut_data c.data s
  have hle : c.data.length + 2 ≤ (c.data ++ CRLF ++ s).length := by
    rw [List.length_append, List.length_append]
    exact Nat.le_add_right _ _
  rw [chunkBytes_of_lt h, if_pos hle, htake, hdrop, List.take_left]
  simp only [List.length_eq_zero_iff]

/-- A body of chunks: each of them, and an empty one. -/
def chunkedBody (chunks : List Chunk) (last : Chunk) : Bytes :=
  chunks.flatMap Chunk.encode ++ last.encode

theorem chunkedBody_cons (c : Chunk) (chunks : List Chunk) (last : Chunk) (s : Bytes) :
    chunkedBody (c :: chunks) last ++ s = c.encode ++ (chunkedBody chunks last ++ s) := by
  simp [chunkedBody]

theorem chunkedBody_nil (last : Chunk) (s : Bytes) : chunkedBody [] last ++ s = last.encode ++ s := rfl

/-- One round for each chunk takes them all. -/
theorem receiveChunks_chunkedBody (reply : HttpReply) (chunks : List Chunk) (last : Chunk)
    (hchunks : ∀ c ∈ chunks, c.data ≠ [] ∧ c.data.length < 2 ^ 64 - 2) (hlast : last.data = [])
    (rest : Bytes) : receiveChunks z ended reply (chunkedBody chunks last ++ rest) =
      (processReply z { reply with body := reply.body ++ chunks.flatMap Chunk.data }, rest) := by
  induction chunks generalizing reply with
  | nil =>
    have hlen : last.data.length < 2 ^ 64 - 2 := by
      rw [hlast]
      decide
    rw [chunkedBody_nil, receiveChunks_encode z ended reply last hlen, if_pos hlast, hlast]
    rfl
  | cons c chunks ih =>
    obtain ⟨hne, hlen⟩ := hchunks c List.mem_cons_self
    rw [chunkedBody_cons, receiveChunks_encode z ended reply c hlen, if_neg hne,
      ih _ fun c' hc' => hchunks c' (List.mem_cons_of_mem _ hc')]
    simp

/-! ## After the headers -/

/-- The headers of a message whose body is chunked and is not compressed, with the reply
they are parsed to. -/
structure ChunkedHeaders (text : Bytes) (reply : HttpReply) : Prop where
  ends : search CRLFCRLF (text ++ CRLFCRLF) = some text.length
  parsed : parseHeaders text = .ok reply
  chunked : reply.getHeader (bytes "Transfer-Encoding") = bytes "chunked"
  noLength : reply.hasHeader (bytes "Content-Length") = false
  plain : reply.hasHeader (bytes "Content-Encoding") = false

/-- A reply without a content encoding is passed on. -/
theorem processReply_plain {reply : HttpReply}
    (h : reply.hasHeader (bytes "Content-Encoding") = false) :
    processReply z reply = .handler none reply := by
  simp [processReply, h]

theorem ChunkedHeaders.contentLength {text : Bytes} {reply : HttpReply}
    (h : ChunkedHeaders text reply) : contentLength reply = .ok none := by
  unfold Net.contentLength
  rw [h.noLength]
  rfl

theorem ChunkedHeaders.search {text : Bytes} {reply : HttpReply} (h : ChunkedHeaders text reply)
    (s : Bytes) : search CRLFCRLF (text ++ CRLFCRLF ++ s) = some text.length :=
  search_append_right h.ends s

/-- After the headers the chunks are received. -/
theorem receive_chunked {text : Bytes} {reply : HttpReply} (h : ChunkedHeaders text reply)
    (s : Bytes) : receive z ended (text ++ CRLFCRLF ++ s) = receiveChunks z ended reply s := by
  unfold receive
  rw [h.search]
  dsimp only
  rw [← List.length_append, List.drop_left, List.append_assoc, List.take_left, h.parsed]
  dsimp only
  unfold receiveBody
  rw [h.contentLength]
  dsimp only
  rw [if_pos h.chunked]

open Exchange in
/-- A chunked body is put together from its chunks, however its bytes arrive and however
the stream ends, and what follows it is left unread. -/
theorem chunked_body_received {text : Bytes} {reply : HttpReply} (h : ChunkedHeaders text reply)
    (chunks : List Chunk) (hchunks : ∀ c ∈ chunks, c.data ≠ [] ∧ c.data.length < 2 ^ 64 - 2)
    (rest : Bytes) (client : TcpClient)
    (hclient : client.unread = text ++ CRLFCRLF ++
      (chunks.flatMap Chunk.encode ++ bytes "0\r\n\r\n" ++ rest)) :
    ∃ n, ∀ k, n ≤ k →
      (run z ended k { client }).pending = none ∧
      (run z ended k { client }).calls =
        [.handler none { reply with body := chunks.flatMap Chunk.data }] ∧
      (run z ended k { client }).client.unread = rest := by
  have hlast : bytes "0\r\n\r\n" = (Chunk.ofData []).encode := by decide
  have hreceive : receive z ended client.unread =
      (.handler none { reply with body := chunks.flatMap Chunk.data }, rest) := by
    rw [hclient, hlast, receive_chunked z ended h]
    refine (receiveChunks_chunkedBody z ended reply chunks (.ofData []) hchunks rfl rest).trans ?_
    rw [processReply_plain z (by exact h.plain), (parseHeaders_ok h.parsed).1, List.nil_append]
  obtain ⟨n, final, hfinal, hrun⟩ := run_receive z ended client
  rw [hreceive] at hfinal
  refine ⟨n, fun k hk => ?_⟩
  rw [hrun k hk]
  exact ⟨hfinal.pending, hfinal.calls, hfinal.unread⟩

namespace Sample

def chunkedHeaders : Bytes := bytes "HTTP/1.1 200 OK\r\nTransfer-Encoding: chunked"

def chunkedReply : HttpReply where
  status := 200
  headers := chunkedHeaders
  parsedHeaders := [(bytes "Transfer-Encoding", bytes "chunked")]

theorem chunkedHeaders_ok : ChunkedHeaders chunkedHeaders chunkedReply := by
  constructor <;> decide +kernel

/-- Two chunks, the first of which has the end of a line in it, and the start of another
message. -/
def chunkedSegments : TcpClient :=
  ⟨bytes "HTTP/1.1 200 OK\r\nTransfer-Encoding: ch",
    [bytes "unked\r\n\r\n3\r", bytes "\na\r\n\r\n2\r\nbc\r\n0\r\n\r", bytes "\nHTTP"]⟩

end Sample

open Exchange in
theorem chunked_body_received_segments : ∃ n, ∀ k, n ≤ k →
    (run Sample.outOfMemory .eof k { client := Sample.chunkedSegments }).pending = none ∧
    (run Sample.outOfMemory .eof k { client := Sample.chunkedSegments }).calls =
      [.handler none { Sample.chunkedReply with body := bytes "a\r\nbc" }] ∧
    (run Sample.outOfMemory .eof k { client := Sample.chunkedSegments }).client.unread = bytes "HTTP" :=
  chunked_body_received Sample.outOfMemory .eof Sample.chunkedHeaders_ok
    [.ofData (bytes "a\r\n"), .ofData (bytes "bc")] (by decide) (bytes "HTTP") Sample.chunkedSegments
    (by decide +kernel)

end O2Chat.Net
