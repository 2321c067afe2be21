import Mathlib.Data.List.Forall2
import O2Chat.Client.Requests
import O2Chat.Net.Decode
import O2Chat.Net.Headers
import O2Chat.Server.Responses

/-!
# Decoding undoes encoding

The client's requests and the server's responses are messages of one form: a first
line, header lines with the length of the body, an empty line and the body. Such a
message is decoded to its parts and nothing of what follows it is consumed.
-/
namespace O2Chat.Net

open O2Chat.Common O2Chat.Client O2Chat.Server O2Chat.Lib.Search O2Chat.Lib.Stream

/-! ## Messages -/

def headerLine (header : Bytes × Bytes) : Bytes := header.1 ++ bytes ": " ++ header.2

/-- The text before the empty line. -/
def headerText (first : Bytes) (headers : List (Bytes × Bytes)) : Bytes :=
  CRLF.intercalate (first :: headers.map headerLine)

def message (first : Bytes) (headers : List (Bytes × Bytes)) (body : Bytes) : Bytes :=
  headerText first headers ++ (CRLFCRLF ++ body)

/-- A name and a value that a header line gives back. -/
def NameOk (name : Bytes) : Prop := name ≠ [] ∧ 58 ∉ name ∧ CR ∉ name

def ValueOk (value : Bytes) : Prop := CR ∉ value ∧ value.dropWhile isspace = value

instance (name : Bytes) : Decidable (NameOk name) :=
  inferInstanceAs (Decidable (name ≠ [] ∧ 58 ∉ name ∧ CR ∉ name))

instance (value : Bytes) : Decidable (ValueOk value) :=
  inferInstanceAs (Decidable (CR ∉ value ∧ value.dropWhile isspace = value))

structure HeaderOk (header : Bytes × Bytes) : Prop where
  name : NameOk header.1
  value : ValueOk header.2

def headerMap (headers : List (Bytes × Bytes)) : List (Bytes × Bytes) :=
  headers.foldl (fun parsed header => setHeader header.1 header.2 parsed) []

/-- A line end that no empty line follows is not the end of the headers. -/
theorem search_line_end {c : UInt8} (hc : c ≠ CR) (rest : Bytes) :
    search CRLFCRLF (CRLF ++ c :: rest) = (search CRLFCRLF (c :: rest)).map (· + CRLF.length) := by
  have hnot : ¬ CRLFCRLF <+: 13 :: 10 :: c :: rest := by
    intro hpre
    have h2 := (List.cons_prefix_cons.mp (List.cons_prefix_cons.mp hpre).2).2
    exact hc (List.cons_prefix_cons.mp h2).1.symm
  show search CRLFCRLF (13 :: 10 :: c :: rest) = _
  rw [search, if_neg hnot, CRLFCRLF, search_cons_ne _ _ (by decide), Option.map_map]
  rfl

/-- The headers end at the first empty line. -/
theorem search_headers (line : Bytes) (lines : List Bytes) (hcr : ∀ l ∈ line :: lines, CR ∉ l)
    (hne : ∀ l ∈ lines, l ≠ []) (body : Bytes) :
    search CRLFCRLF (CRLF.intercalate (line :: lines) ++ (CRLFCRLF ++ body)) =
      some (CRLF.intercalate (line :: lines)).length := by
  induction lines generalizing line with
  | nil =>
    rw [List.intercalate_singleton]
    exact search_after _ body (hcr line List.mem_cons_self)
  | cons next lines ih =>
    have hnext := ih next (fun l hl => hcr l (List.mem_cons_of_mem _ hl))
      (fun l hl => hne l (List.mem_cons_of_mem _ hl))
    obtain ⟨c, t, rfl⟩ := List.exists_cons_of_ne_nil (hne next List.mem_cons_self)
    have hc : c ≠ CR := by
      rintro rfl
      exact hcr _ (List.mem_cons_of_mem _ List.mem_cons_self) List.mem_cons_self
    rw [List.intercalate_cons_cons_left, List.cons_append] at hnext
    have hend := search_line_end hc (CRLF.intercalate (t :: lines) ++ (CRLFCRLF ++ body))
    rw [hnext] at hend
    have hskip := search_skip [10, 13, 10]
      (CRLF ++ c :: (CRLF.intercalate (t :: lines) ++ (CRLFCRLF ++ body)))
      (hcr line List.mem_cons_self)
    rw [List.intercalate_cons_cons, List.intercalate_cons_cons_left, List.append_assoc,
      List.append_assoc, List.cons_append]
    refine hskip.trans ?_
    show (search CRLFCRLF _).map _ = _
    rw [hend]
    simp only [Option.map_some, List.length_append, Option.some.injEq]
    omega

/-- A header line is parsed to the header it was written for. -/
theorem parseHeaderLine_headerLine {header : Bytes × Bytes} (h : HeaderOk header)
    (parsed : List (Bytes × Bytes)) :
    parseHeaderLine (headerLine header) parsed = (true, setHeader header.1 header.2 parsed) := by
  obtain ⟨name, value⟩ := header
  obtain ⟨⟨hne, hcolon, -⟩, ⟨-, hblank⟩⟩ := h
  have hline : headerLine (name, value) = name ++ 58 :: 32 :: value := by
    show name ++ [58, 32] ++ value = _
    simp
  have hvalue : (32 :: value).dropWhile isspace = value := by
    rw [List.dropWhile_cons, if_pos (by decide)]
    exact hblank
  exact (parseHeaderLine_some ⟨hne, hcolon, 32 :: value, hline, hvalue.symm⟩ parsed .empty).1

theorem headerLine_ne_nil (header : Bytes × Bytes) : headerLine header ≠ [] := by
  simp [headerLine, bytes]

theorem headerLine_cr {header : Bytes × Bytes} (h : HeaderOk header) : CR ∉ headerLine header := by
  have hsep : CR ∉ bytes ": " := by decide
  simp only [headerLine, List.mem_append, not_or]
  exact ⟨⟨h.name.2.2, hsep⟩, h.value.1⟩

theorem lines_cr {first : Bytes} {headers : List (Bytes × Bytes)} (hcr : CR ∉ first)
    (hheaders : ∀ header ∈ headers, HeaderOk header) :
    ∀ l ∈ first :: headers.map headerLine, CR ∉ l := by
  intro l hl
  rcases List.mem_cons.mp hl with rfl | hl
  · exact hcr
  · obtain ⟨header, hmem, rfl⟩ := List.mem_map.mp hl
    exact headerLine_cr (hheaders header hmem)

theorem foldl_headerLines {headers : List (Bytes × Bytes)}
    (hheaders : ∀ header ∈ headers, HeaderOk header) (parsed : List (Bytes × Bytes)) :
    (headers.map headerLine).foldl (fun parsed line => (parseHeaderLine line parsed).2) parsed =
      headers.foldl (fun parsed header => setHeader header.1 header.2 parsed) parsed := by
  induction headers generalizing parsed with
  | nil => rfl
  | cons header headers ih =>
    rw [List.map_cons, List.foldl_cons, List.foldl_cons,
      parseHeaderLine_headerLine (hheaders header List.mem_cons_self)]
    exact ih (fun h hh => hheaders h (List.mem_cons_of_mem _ hh)) _

/-- The lines of the headers give the first line and the headers back. -/
theorem parseHeaders_headerText {first : Bytes} {headers : List (Bytes × Bytes)}
    (hfirst : first ≠ []) (hcr : CR ∉ first) (hheaders : ∀ header ∈ headers, HeaderOk header)
    {reply : HttpReply} (hempty : reply.parsedHeaders = [])
    (hparse : parseFirstLine first { headers := headerText first headers } = .ok reply) :
    parseHeaders (headerText first headers) =
      .ok { reply with parsedHeaders := headerMap headers } := by
  have hsplit : split (headerText first headers) CRLF = first :: headers.map headerLine :=
    split_intercalate (List.cons_ne_nil _ _) (lines_cr hcr hheaders)
  unfold parseHeaders
  dsimp only
  rw [hsplit]
  dsimp only
  rw [if_neg hfirst, hparse]
  dsimp only
  rw [foldl_headerLines hheaders, hempty]
  rfl

/-- The header with the length of the body is read back. -/
theorem contentLength_decimal {reply : HttpReply} {n : Nat} (hn : n < 2 ^ 64)
    (hhas : reply.hasHeader (bytes "Content-Length") = true)
    (hget : reply.getHeader (bytes "Content-Length") = decimal n) :
    contentLength reply = .ok (some n) := by
  unfold contentLength
  rw [if_pos hhas, hget, stoul_decimal hn]

/-- A message is decoded to its parts, whatever follows it. -/
theorem decode_message (z : Zlib) {first : Bytes} {headers : List (Bytes × Bytes)} {body : Bytes}
    {reply decoded : HttpReply} (hfirst : first ≠ []) (hcr : CR ∉ first)
    (hheaders : ∀ header ∈ headers, HeaderOk header) (hempty : reply.parsedHeaders = [])
    (hparse : parseFirstLine first { headers := headerText first headers } = .ok reply)
    (hdecoded : decoded = { reply with parsedHeaders := headerMap headers })
    (hlength : contentLength decoded = .ok (some body.length))
    (hplain : decoded.hasHeader (bytes "Content-Encoding") = false) (rest : Bytes) :
    decode z (message first headers body ++ rest) =
      (.handler none { decoded with body := body }, rest) := by
  have hmsg : message first headers body ++ rest =
      headerText first headers ++ (CRLFCRLF ++ (body ++ rest)) := by
    simp [message]
  have hsearch : search CRLFCRLF (message first headers body ++ rest) =
      some (headerText first headers).length := by
    rw [hmsg]
    apply search_headers first (headers.map headerLine) (lines_cr hcr hheaders)
    intro l hl
    obtain ⟨header, -, rfl⟩ := List.mem_map.mp hl
    exact headerLine_ne_nil header
  have hparsed := parseHeaders_headerText hfirst hcr hheaders hempty hparse
  rw [← hdecoded] at hparsed
  have hprocess : processReply z { decoded with body := body } =
      .handler none { decoded with body := body } := by
    have hnone : HttpReply.hasHeader { decoded with body := body } (bytes "Content-Encoding") = false :=
      hplain
    simp [processReply, hnone]
  unfold decode
  rw [hsearch]
  dsimp only
  rw [hmsg, List.take_left, hparsed, ← List.append_assoc, ← List.length_append, List.drop_left]
  dsimp only
  unfold decodeBody
  rw [hlength]
  dsimp only
  rw [if_pos (by rw [List.length_append]; omega), List.take_left, List.drop_left, hprocess]

/-! ## The messages of the client and the server -/

inductive Message
  | request (resource contentType body : Bytes)
  | okResponse (body : Bytes)
  | errorResponse (httpCode : Nat) (apiCode : ApiStatusCode) (desc : Bytes)

namespace Message

def encode : Message → Bytes
  | request resource contentType body => buildRequest resource contentType body
  | okResponse body => buildApiOkResponse body
  | errorResponse httpCode apiCode desc => buildApiErrorRsponse httpCode apiCode desc

def body : Message → Bytes
  | request _ _ body => body
  | okResponse body => body
  | errorResponse _ apiCode desc => makeApiError apiCode desc

/-- Bodies are strings, whose size is a `size_t`; a request has a resource and a content
type that fit on their lines. -/
def Valid (m : Message) : Prop :=
  m.body.length < 2 ^ 64 ∧
    match m with
    | request resource contentType _ =>
      32 ∉ resource ∧ CR ∉ resource ∧ LF ∉ resource ∧ CR ∉ contentType ∧ LF ∉ contentType ∧
        ∀ b ∈ contentType.head?, isspace b = false
    | _ => True

def firstLine : Message → Bytes
  | request resource _ _ => bytes "POST " ++ resource ++ bytes " HTTP/1.1"
  | okResponse _ => bytes "HTTP/1.1 200 OK"
  | errorResponse httpCode _ _ => bytes "HTTP/1.1 " ++ httpCodeToString httpCode

def headers (m : Message) : List (Bytes × Bytes) :=
  match m with
  | request _ contentType _ =>
    [(bytes "Content-Length", decimal m.body.length), (bytes "Content-Type", contentType)]
  | okResponse _ =>
    [(bytes "Content-Length", decimal m.body.length),
      (bytes "Content-Type", bytes "application/json"),
      (bytes "Access-Control-Allow-Origin", bytes "*")]
  | errorResponse _ _ _ =>
    [(bytes "Content-Length", decimal m.body.length),
      (bytes "Access-Control-Allow-Origin", bytes "*"),
      (bytes "Content-Type", bytes "application/json")]

/-- The code in the status line for a code. -/
def statusCode (httpCode : Nat) : Nat :=
  if httpCode ∈ [400, 403, 404, 409, 429, 500, 503] then httpCode else 200

/-- What decoding a message gives. -/
def reply (m : Message) : HttpReply :=
  match m with
  | request resource _ _ =>
    { headers := headerText m.firstLine m.headers, body := m.body, method := bytes "post",
      resource := resource, parsedHeaders := m.headers }
  | okResponse _ =>
    { headers := headerText m.firstLine m.headers, body := m.body, status := 200,
      parsedHeaders := m.headers }
  | errorResponse httpCode _ _ =>
    { headers := headerText m.firstLine m.headers, body := m.body, status := statusCode httpCode,
      parsedHeaders := m.headers }

/-- All three builders write messages of the common form. -/
theorem encode_eq (m : Message) : m.encode = message m.firstLine m.headers m.body := by
  have hlength : bytes "Content-Length: " = bytes "Content-Length" ++ bytes ": " := by decide
  have htype : bytes "Content-Type: " = bytes "Content-Type" ++ bytes ": " := by decide
  have hjson : bytes "Content-Type: application/json" =
      bytes "Content-Type" ++ bytes ": " ++ bytes "application/json" := by decide
  have horigin : bytes "Access-Control-Allow-Origin: *" =
      bytes "Access-Control-Allow-Origin" ++ bytes ": " ++ bytes "*" := by decide
  cases m <;>
    simp [encode, message, firstLine, headers, body, headerText, headerLine, buildRequest,
      buildApiOkResponse, buildApiErrorRsponse, CRLF, CRLFCRLF, hlength, htype, hjson, horigin]

theorem digits_no_cr (n : Nat) : CR ∉ decimal n := by
  intro h
  exact absurd (isDigit_of_mem_decimal CR h) (by decide)

theorem decimal_valueOk (n : Nat) : ValueOk (decimal n) := by
  refine ⟨digits_no_cr n, ?_⟩
  obtain ⟨d, t, hd⟩ := List.exists_cons_of_ne_nil (decimal_ne_nil n)
  have hdigit : isDigit 10 d = true :=
    isDigit_of_mem_decimal d (by rw [hd]; exact List.mem_cons_self)
  rw [hd, List.dropWhile_cons, isspace_of_isDigit hdigit]
  rfl

theorem valueOk_of_head {value : Bytes} (hcr : CR ∉ value)
    (hhead : ∀ b ∈ value.head?, isspace b = false) : ValueOk value := by
  refine ⟨hcr, ?_⟩
  cases value with
  | nil => rfl
  | cons b t =>
    rw [List.dropWhile_cons, hhead b rfl]
    rfl

theorem headers_ok {m : Message} (h : m.Valid) : ∀ header ∈ m.headers, HeaderOk header := by
  have hname : NameOk (bytes "Content-Length") := by decide
  have hlength : HeaderOk (bytes "Content-Length", decimal m.body.length) :=
    ⟨hname, decimal_valueOk _⟩
  have htype : HeaderOk (bytes "Content-Type", bytes "application/json") :=
    ⟨by decide, by decide⟩
  have horigin : HeaderOk (bytes "Access-Control-Allow-Origin", bytes "*") :=
    ⟨by decide, by decide⟩
  intro header hmem
  cases m with
  | request resource contentType body =>
    obtain ⟨-, -, -, -, hcr, -, hhead⟩ := h
    have hname : NameOk (bytes "Content-Type") := by decide
    simp only [headers, List.mem_cons, List.not_mem_nil, or_false] at hmem
    rcases hmem with rfl | rfl
    · exact hlength
    · exact ⟨hname, valueOk_of_head hcr hhead⟩
  | okResponse body =>
    simp only [headers, List.mem_cons, List.not_mem_nil, or_false] at hmem
    rcases hmem with rfl | rfl | rfl
    · exact hlength
    · exact htype
    · exact horigin
  | errorResponse httpCode apiCode desc =>
    simp only [headers, List.mem_cons, List.not_mem_nil, or_false] at hmem
    rcases hmem with rfl | rfl | rfl
    · exact hlength
    · exact horigin
    · exact htype

/-- A status line gives its code back. -/
theorem parseFirstLine_status (httpCode : Nat) (reply : HttpReply) :
    parseFirstLine (bytes "HTTP/1.1 " ++ httpCodeToString httpCode) reply =
      .ok { reply with status := statusCode httpCode } := by
  unfold httpCodeToString
  split
  case h_9 h200 h400 h403 h404 h409 h429 h500 h503 =>
    have hcode : statusCode httpCode = 200 := by
      rw [statusCode, if_neg]
      simp only [List.mem_cons, List.not_mem_nil, or_false, not_or]
      exact ⟨h400, h403, h404, h409, h429, h500, h503⟩
    rw [hcode]
    rfl
  all_goals rfl

theorem parseFirstLine_request {resource : Bytes} (h : 32 ∉ resource) (reply : HttpReply) :
    parseFirstLine (bytes "POST " ++ resource ++ bytes " HTTP/1.1") reply =
      .ok { reply with method := bytes "post", resource := resource } := by
  have hline : bytes "POST " ++ resource ++ bytes " HTTP/1.1" =
      (bytes " ").intercalate [bytes "POST", resource, bytes "HTTP/1.1"] := by
    have hpost : bytes "POST " = bytes "POST" ++ bytes " " := by decide
    have hhttp : bytes " HTTP/1.1" = bytes " " ++ bytes "HTTP/1.1" := by decide
    simp [hpost, hhttp]
  have hsplit : split (bytes "POST " ++ resource ++ bytes " HTTP/1.1") (bytes " ") =
      [bytes "POST", resource, bytes "HTTP/1.1"] := by
    rw [hline]
    apply split_intercalate (List.cons_ne_nil _ _)
    intro part hpart
    simp only [List.mem_cons, List.not_mem_nil, or_false] at hpart
    rcases hpart with rfl | rfl | rfl
    · decide
    · exact h
    · decide
  unfold parseFirstLine
  rw [hsplit]
  rfl

theorem httpCodeToString_no_cr (httpCode : Nat) : CR ∉ httpCodeToString httpCode := by
  unfold httpCodeToString
  split <;> decide

theorem firstLine_no_cr {m : Message} (h : m.Valid) : CR ∉ m.firstLine := by
  cases m with
  | request resource contentType body =>
    obtain ⟨-, -, hcr, -⟩ := h
    have hpost : CR ∉ bytes "POST " := by decide
    have hhttp : CR ∉ bytes " HTTP/1.1" := by decide
    simp only [firstLine, List.mem_append, not_or]
    exact ⟨⟨hpost, hcr⟩, hhttp⟩
  | okResponse body =>
    show CR ∉ bytes "HTTP/1.1 200 OK"
    decide
  | errorResponse httpCode apiCode desc =>
    have hhttp : CR ∉ bytes "HTTP/1.1 " := by decide
    simp only [firstLine, List.mem_append, not_or]
    exact ⟨hhttp, httpCodeToString_no_cr httpCode⟩

theorem firstLine_ne_nil (m : Message) : m.firstLine ≠ [] := by
  cases m <;> simp [firstLine, bytes]

/-- What the first line gives. -/
def start (m : Message) : HttpReply :=
  { m.reply with body := [], parsedHeaders := [] }

theorem parseFirstLine_firstLine {m : Message} (h : m.Valid) :
    parseFirstLine m.firstLine { headers := headerText m.firstLine m.headers } = .ok m.start := by
  cases m with
  | request resource contentType body => exact parseFirstLine_request h.2.1 _
  | okResponse body => exact parseFirstLine_status 200 _
  | errorResponse httpCode apiCode desc => exact parseFirstLine_status httpCode _

/-- The names of the headers differ, so the map holds them as they are. -/
theorem headerMap_headers (m : Message) : headerMap m.headers = m.headers := by
  cases m <;> rfl

/-- Decoding a message gives its parts and leaves what follows it. -/
theorem decode_encode (z : Zlib) {m : Message} (h : m.Valid) (rest : Bytes) :
    decode z (m.encode ++ rest) = (.handler none m.reply, rest) := by
  have hdecoded : ({ m.reply with body := [] } : HttpReply) =
      { m.start with parsedHeaders := headerMap m.headers } := by
    rw [headerMap_headers]
    cases m <;> rfl
  have hlength : contentLength { m.reply with body := [] } = .ok (some m.body.length) := by
    apply contentLength_decimal h.1
    · cases m <;> rfl
    · cases m <;> rfl
  have hplain : HttpReply.hasHeader { m.reply with body := [] } (bytes "Content-Encoding") = false := by
    cases m <;> rfl
  rw [encode_eq, decode_message z (firstLine_ne_nil m) (firstLine_no_cr h) (headers_ok h) rfl
    (parseFirstLine_firstLine h) hdecoded hlength hplain]
  cases m <;> rfl

/-- An outcome that gives a message back: its body, the method, resource and content type
of a request, the status code of a response. -/
def DecodedAs (m : Message) (outcome : Outcome) : Prop :=
  ∃ reply, outcome = .handler none reply ∧ reply.body = m.body ∧
    match m with
    | request resource contentType _ =>
      reply.method = bytes "post" ∧ reply.resource = resource ∧
        reply.getHeader (bytes "Content-Type") = contentType
    | okResponse _ => reply.status = 200
    | errorResponse httpCode _ _ => reply.status = statusCode httpCode

theorem decodedAs_reply (m : Message) : m.DecodedAs (.handler none m.reply) := by
  cases m with
  | request resource contentType body => exact ⟨_, rfl, rfl, rfl, rfl, rfl⟩
  | okResponse body => exact ⟨_, rfl, rfl, rfl⟩
  | errorResponse httpCode apiCode desc => exact ⟨_, rfl, rfl, rfl⟩

end Message

/-- However the encodings of messages arrive, one call for each message decodes them to
exactly these messages, and no byte is left over. -/
theorem asyncResponses_encode (z : Zlib) (msgs : List Message) (hvalid : ∀ m ∈ msgs, m.Valid)
    (client : TcpClient) (hunread : client.unread = msgs.flatMap Message.encode) :
    ∃ outcomes client', asyncResponses z msgs.length client = some (outcomes, client') ∧
      List.Forall₂ Message.DecodedAs msgs outcomes ∧ client'.unread = [] := by
  obtain ⟨client', hcalls, hrest⟩ := asyncResponses_yields z msgs.length _ client hunread
  have hdecoded : decodeTimes z msgs.length (msgs.flatMap Message.encode) =
      (msgs.map fun m => .handler none m.reply, []) :=
    parseTimes_flatMap (fun m hm => Message.decode_encode z hm) (fun _ => rfl) hvalid
  rw [hdecoded] at hcalls hrest
  refine ⟨_, client', hcalls, ?_, hrest⟩
  rw [List.forall₂_map_right_iff]
  exact List.forall₂_same.mpr fun m _ => m.decodedAs_reply

namespace Sample

/-- A request and its response, then a request that is refused. -/
def exchange : List Message :=
  [.request (bytes "/v1/login") (bytes "application/json") (bytes "[]"), .okResponse (bytes "[]"),
    .errorResponse 404 .errNotFound (bytes "bad request")]

end Sample

theorem asyncResponses_encode_exchange : ∃ outcomes client',
    asyncResponses Sample.outOfMemory 3
        ⟨[], [Sample.exchange.flatMap Message.encode]⟩ = some (outcomes, client') ∧
      List.Forall₂ Message.DecodedAs Sample.exchange outcomes ∧ client'.unread = [] := by
  apply asyncResponses_encode Sample.outOfMemory Sample.exchange
  · intro m hm
    simp only [Sample.exchange, List.mem_cons, List.not_mem_nil, or_false] at hm
    rcases hm with rfl | rfl | rfl
    · refine ⟨by decide, by decide, by decide, by decide, by decide, by decide, ?_⟩
      intro b hb
      obtain rfl : 97 = b := Option.some.inj hb
      decide
    · exact ⟨by decide, trivial⟩
    · exact ⟨by decide, trivial⟩
  · simp [Source.unread]

end O2Chat.Net
