import O2Chat.Common.Http
import O2Chat.Lib.Stream
import O2Chat.Net.Gzip

/-!
# The HTTP client of `net/client.cpp`

A `TcpClient` is its stream buffer with the segments that later reads of the socket
deliver; the peer closes the connection after the last one. Handlers are called
directly, so a function returns what the handler of the caller gets in the end.
-/
namespace O2Chat.Net

open O2Chat.Common O2Chat.Lib.Search O2Chat.Lib.Stream

abbrev TcpClient : Type := Source UInt8

inductive ErrorCode
  | eof
  | protocolError
  /-- any other error of the socket -/
  | system (value : Nat)
  deriving DecidableEq, Repr

/-- What the handler of `asyncResponse` is called with, or a failed assertion. -/
inductive Outcome
  | handler (error : Option ErrorCode) (reply : HttpReply)
  | aborted
  deriving DecidableEq, Repr

/-! ## Reading -/

/-- `BasicTcpClient::read_until`: out of the buffer, or by a blocking read. -/
def readUntil (delimiter : Bytes) : Reader UInt8 Bytes := fun client =>
  match if client.buffered = [] then none else search delimiter client.buffered with
  | some pos =>
    some (client.buffered.take pos,
      { client with buffered := client.buffered.drop (pos + delimiter.length) })
  | none =>
    let result := readLoop (contains delimiter) client.incoming 0 client.buffered
    match result.1 with
    | none => none
    | some pos =>
      some (result.2.buffered.take pos,
        { result.2 with buffered := result.2.buffered.drop (pos + delimiter.length) })

/-- `BasicTcpClient::read`: what the buffer has, and the rest by a blocking read. -/
def read (needBytes : Nat) : Reader UInt8 Bytes := fun client =>
  let alreadyInStream := min needBytes client.buffered.length
  let response := client.buffered.take alreadyInStream
  let streambuf := client.buffered.drop alreadyInStream
  if alreadyInStream = needBytes then some (response, { client with buffered := streambuf })
  else
    match takeSegments (needBytes - alreadyInStream) client.incoming with
    | none => none
    | some (more, incoming) => some (response ++ more, ⟨streambuf, incoming⟩)

/-- `BasicTcpClient::asyncRead`: the error its handler gets. -/
def asyncRead (condition : MatchCondition UInt8) : Reader UInt8 (Option ErrorCode) := do
  let matched ← readUntilMatch condition
  return if matched then none else some .eof

/-! ## Headers -/

/-- The result is whether the line was a header. -/
def parseHeaderLine (line : Bytes) (parsedHeaders : List (Bytes × Bytes)) :
    Bool × List (Bytes × Bytes) :=
  match line.findIdx? (· = 58) with
  | none => (false, parsedHeaders)
  | some 0 => (false, parsedHeaders)
  | some pos =>
    let key := line.take pos
    if pos = line.length - 1 then (true, setHeader key [] parsedHeaders)
    else (true, setHeader key ((line.drop (pos + 1)).dropWhile isspace) parsedHeaders)

/-- The first line: a status line or a request line. -/
def parseFirstLine (line : Bytes) (reply : HttpReply) : Except HttpReply HttpReply :=
  match split line (bytes " ") with
  | name :: value :: _ =>
    let lc := lowercased name
    if startsWith lc (bytes "http/") then
      match stoi value with
      | .ok status => .ok { reply with status := status }
      | .error _ => .error reply
    else .ok { reply with method := lc, resource := value }
  | _ => .error reply

/-- `handleHeaders` from the text of the headers to the loop over its lines; an error is
the reply that goes with `protocol_error`. -/
def parseHeaders (headers : Bytes) : Except HttpReply HttpReply :=
  let reply : HttpReply := { headers := headers }
  match split headers CRLF with
  | [] => .error reply
  | first :: lines =>
    if first = [] then .error reply
    else
      match parseFirstLine first reply with
      | .error reply => .error reply
      | .ok reply =>
        let parsedHeaders := lines.foldl
          (fun parsed line => (parseHeaderLine line parsed).2) reply.parsedHeaders
        .ok { reply with parsedHeaders := parsedHeaders }

/-- The length of the body, when there is the header for it. -/
def contentLength (reply : HttpReply) : Except HttpReply (Option Nat) :=
  if reply.hasHeader (bytes "Content-Length") then
    match stoul 10 (reply.getHeader (bytes "Content-Length")) with
    | .ok (bodyLen, _) => .ok (some bodyLen)
    | .error _ => .error reply
  else .ok none

/-- The size a chunk begins with; the whole line must have been read. -/
def chunkSize (line : Bytes) : Option Nat :=
  match stoul 16 line with
  | .ok (size, parsed) => if parsed = line.length then some size else none
  | .error _ => none

/-- `chunk_size + 2` in `size_t`. -/
def chunkBytes (size : Nat) : Nat := (size + 2) % 2 ^ 64

/-! ## `AsyncHttpClient` -/

def processReply (z : Zlib) (reply : HttpReply) : Outcome :=
  let contentZipped := reply.hasHeader (bytes "Content-Encoding") &&
    (search (bytes "gzip") (reply.getHeader (bytes "Content-Encoding"))).isSome
  if contentZipped ∧ reply.body ≠ [] then
    match gzipInflate z reply.body with
    | none => .handler (some .protocolError) reply
    | some r => .handler none { reply with body := r }
  else .handler none reply

/-- `nextChunk` is what follows when the line of the next chunk has been read for. -/
def processChunk (z : Zlib) (nextChunk : Option ErrorCode → HttpReply → Reader UInt8 Outcome)
    (error : Option ErrorCode) (size : Nat) (reply : HttpReply) : Reader UInt8 Outcome :=
  match error with
  | some code => return .handler (some code) reply
  | none => do
    let response ← read (chunkBytes size)
    let reply := { reply with body := reply.body ++ response.take size }
    if size = 0 then return processReply z reply
    else
      let readError ← asyncRead (contains CRLF)
      nextChunk readError reply

/-- Each round consumes bytes of the stream; `fuel` bounds their number. -/
def startProcessChunk (z : Zlib) :
    Nat → Option ErrorCode → HttpReply → Reader UInt8 Outcome
  | 0, _, _ => failure
  | fuel + 1, error, reply =>
    match error with
    | some code => return .handler (some code) {}
    | none => do
      let chunkSizeString ← readUntil CRLF
      match chunkSize chunkSizeString with
      | none => return .handler (some .protocolError) reply
      | some size =>
        let readError ← asyncRead (atLeast (chunkBytes size))
        -- a match moves the iterator by `size` as a `ptrdiff_t`, which Boost asserts
        -- not to be before the start of the buffer
        if readError = none ∧ 2 ^ 63 ≤ size then return .aborted
        else processChunk z (startProcessChunk z fuel) readError size reply

def handleHeaders (z : Zlib) (fuel : Nat) (error : Option ErrorCode) : Reader UInt8 Outcome :=
  match error with
  | some code => return .handler (some code) {}
  | none => do
    let headers ← readUntil CRLFCRLF
    match parseHeaders headers with
    | .error reply => return .handler (some .protocolError) reply
    | .ok reply =>
      match contentLength reply with
      | .error reply => return .handler (some .protocolError) reply
      | .ok (some bodyLen) =>
        let readError ← asyncRead (atLeast bodyLen)
        match readError with
        | some code => return .handler (some code) reply
        | none =>
          let body ← read bodyLen
          return processReply z { reply with body := body }
      | .ok none =>
        if reply.getHeader (bytes "Transfer-Encoding") = bytes "chunked" then
          let readError ← asyncRead (contains CRLF)
          startProcessChunk z fuel readError reply
        else return .handler none reply

def asyncResponse (z : Zlib) : Reader UInt8 Outcome := fun client =>
  (asyncRead (contains CRLFCRLF) >>= handleHeaders z (client.unread.length + 1)) client

/-- Up to `n` calls of `asyncResponse`, as long as the process lives. -/
def asyncResponses (z : Zlib) (n : Nat) : Reader UInt8 (List Outcome) :=
  callTimes (asyncResponse z) (· ≠ .aborted) n

end O2Chat.Net
