import O2Chat.Net.Decode

/-!
# `asyncResponse` on the io thread

`Net.Client` calls a handler where the source passes it on. Here one call of
`asyncResponse` is a machine: an asynchronous read is in progress, and the io thread
tests its condition, takes a segment from the socket or runs the handler of the read,
which starts the next read or calls the handler of the caller. Reads of the socket
inside a handler are counted. The iterator that a condition returns is an offset.
-/
namespace O2Chat.Net

open O2Chat.Common O2Chat.Lib.Search O2Chat.Lib.Stream

/-- What the asynchronous read in progress is for, and what its handler holds. -/
inductive Pending
  | headers
  | body (reply : HttpReply) (bodyLen : Nat)
  | chunkLine (reply : HttpReply)
  | chunkData (reply : HttpReply) (size : Nat)
  deriving DecidableEq, Repr

def Pending.condition : Pending → MatchCondition UInt8
  | headers => contains CRLFCRLF
  | body _ bodyLen => atLeast bodyLen
  | chunkLine _ => contains CRLF
  | chunkData _ size => atLeast (chunkBytes size)

theorem Pending.settled (p : Pending) : p.condition.Settled := by
  cases p with
  | headers => exact contains_settled _
  | body reply bodyLen => exact atLeast_settled _
  | chunkLine reply => exact contains_settled _
  | chunkData reply size => exact atLeast_settled _

/-- `calls` is what the handler of the caller has been called with, `socketReads` the
number of synchronous reads that did not find all they need in the buffer. -/
structure Exchange where
  client : TcpClient
  pending : Option Pending := some .headers
  searchPosition : Nat := 0
  calls : List Outcome := []
  socketReads : Nat := 0
  deriving DecidableEq, Repr

namespace Exchange

/-- The next asynchronous read. -/
def await (x : Exchange) (p : Pending) : Exchange := { x with pending := some p, searchPosition := 0 }

/-- The handler of the caller is called. -/
def call (x : Exchange) (outcome : Outcome) : Exchange :=
  { x with pending := none, calls := x.calls ++ [outcome] }

/-- `read_until` in a handler, which goes on with `k`; an exception leaves it. -/
def readUntil (x : Exchange) (delimiter : Bytes) (k : Bytes → Exchange → Exchange) : Exchange :=
  let found := (search delimiter x.client.buffered).isSome
  let x := { x with socketReads := x.socketReads + if found then 0 else 1 }
  match Net.readUntil delimiter x.client with
  | none => { x with pending := none }
  | some (response, client) => k response { x with client }

def read (x : Exchange) (needBytes : Nat) (k : Bytes → Exchange → Exchange) : Exchange :=
  let found := needBytes ≤ x.client.buffered.length
  let x := { x with socketReads := x.socketReads + if found then 0 else 1 }
  match Net.read needBytes x.client with
  | none => { x with pending := none }
  | some (response, client) => k response { x with client }

/-! ## The handlers -/

def processChunk (z : Zlib) (error : Option ErrorCode) (size : Nat) (reply : HttpReply)
    (x : Exchange) : Exchange :=
  match error with
  | some code => x.call (.handler (some code) reply)
  | none => x.read (chunkBytes size) fun response x =>
    let reply := { reply with body := reply.body ++ response.take size }
    if size = 0 then x.call (processReply z reply)
    else x.await (.chunkLine reply)

def startProcessChunk (error : Option ErrorCode) (reply : HttpReply) (x : Exchange) : Exchange :=
  match error with
  | some code => x.call (.handler (some code) {})
  | none => x.readUntil CRLF fun chunkSizeString x =>
    match chunkSize chunkSizeString with
    | none => x.call (.handler (some .protocolError) reply)
    | some size => x.await (.chunkData reply size)

/-- The handler of the read for the body. -/
def processBody (z : Zlib) (error : Option ErrorCode) (reply : HttpReply) (bodyLen : Nat)
    (x : Exchange) : Exchange :=
  match error with
  | some code => x.call (.handler (some code) reply)
  | none => x.read bodyLen fun body x => x.call (processReply z { reply with body })

def handleHeaders (error : Option ErrorCode) (x : Exchange) : Exchange :=
  match error with
  | some code => x.call (.handler (some code) {})
  | none => x.readUntil CRLFCRLF fun headers x =>
    match parseHeaders headers with
    | .error reply => x.call (.handler (some .protocolError) reply)
    | .ok reply =>
      match contentLength reply with
      | .error reply => x.call (.handler (some .protocolError) reply)
      | .ok (some bodyLen) => x.await (.body reply bodyLen)
      | .ok none =>
        if reply.getHeader (bytes "Transfer-Encoding") = bytes "chunked" then
          x.await (.chunkLine reply)
        else x.call (.handler none reply)

def resume (z : Zlib) (p : Pending) (error : Option ErrorCode) (x : Exchange) : Exchange :=
  match p with
  | .headers => handleHeaders error x
  | .body reply bodyLen => processBody z error reply bodyLen x
  | .chunkLine reply => startProcessChunk error reply x
  | .chunkData reply size => processChunk z error size reply x

/-- One step of the io thread. The read after the last segment fails with `ended`. -/
def step (z : Zlib) (ended : ErrorCode) (x : Exchange) : Exchange :=
  match x.pending with
  | none => x
  | some p =>
    let result := p.condition (x.client.buffered.drop x.searchPosition)
    if result.2 then resume z p none x
    else
      match x.client.incoming with
      | [] => resume z p (some ended) x
      | segment :: rest =>
        { x with
          searchPosition := x.searchPosition + result.1
          client := ⟨x.client.buffered ++ segment, rest⟩ }

def run (z : Zlib) (ended : ErrorCode) : Nat → Exchange → Exchange
  | 0, x => x
  | n + 1, x => run z ended n (step z ended x)

end Exchange

/-! ## What is received from a list of bytes -/

/-- The chunks of a body, when the stream ends with `ended`. -/
def receiveChunks (z : Zlib) (ended : ErrorCode) (reply : HttpReply) (s : Bytes) : Outcome × Bytes :=
  match _h : search CRLF s with
  | none => (.handler (some ended) {}, s)
  | some pos =>
    let rest := s.drop (pos + CRLF.length)
    match chunkSize (s.take pos) with
    | none => (.handler (some .protocolError) reply, rest)
    | some size =>
      if chunkBytes size ≤ rest.length then
        let reply := { reply with body := reply.body ++ (rest.take (chunkBytes size)).take size }
        if size = 0 then (processReply z reply, rest.drop (chunkBytes size))
        else receiveChunks z ended reply (rest.drop (chunkBytes size))
      else (.handler (some ended) reply, rest)
termination_by s.length
decreasing_by
  have hrest := drop_after_search _h (by decide)
  rw [List.length_drop]
  omega

theorem receiveChunks_none (z : Zlib) (ended : ErrorCode) (reply : HttpReply) {s : Bytes}
    (h : search CRLF s = none) : receiveChunks z ended reply s = (.handler (some ended) {}, s) := by
  rw [receiveChunks]
  split
  · rfl
  · rename_i hpos
    rw [h] at hpos
    cases hpos

theorem receiveChunks_some (z : Zlib) (ended : ErrorCode) (reply : HttpReply) {s : Bytes} {pos : Nat}
    (h : search CRLF s = some pos) : receiveChunks z ended reply s =
      match chunkSize (s.take pos) with
      | none => (.handler (some .protocolError) reply, s.drop (pos + CRLF.length))
      | some size =>
        if chunkBytes size ≤ (s.drop (pos + CRLF.length)).length then
          let reply := { reply with
            body := reply.body ++ ((s.drop (pos + CRLF.length)).take (chunkBytes size)).take size }
          if size = 0 then (processReply z reply, (s.drop (pos + CRLF.length)).drop (chunkBytes size))
          else receiveChunks z ended reply ((s.drop (pos + CRLF.length)).drop (chunkBytes size))
        else (.handler (some ended) reply, s.drop (pos + CRLF.length)) := by
  rw [receiveChunks]
  split
  · rename_i hnone
    rw [h] at hnone
    cases hnone
  · rename_i pos' hpos
    obtain rfl := Option.some.inj (h.symm.trans hpos)
    rfl

def receiveBody (z : Zlib) (ended : ErrorCode) (reply : HttpReply) (s : Bytes) : Outcome × Bytes :=
  match contentLength reply with
  | .error reply => (.handler (some .protocolError) reply, s)
  | .ok (some bodyLen) =>
    if bodyLen ≤ s.length then
      (processReply z { reply with body := s.take bodyLen }, s.drop bodyLen)
    else (.handler (some ended) reply, s)
  | .ok none =>
    if reply.getHeader (bytes "Transfer-Encoding") = bytes "chunked" then
      receiveChunks z ended reply s
    else (.handler none reply, s)

def receive (z : Zlib) (ended : ErrorCode) (s : Bytes) : Outcome × Bytes :=
  match search CRLFCRLF s with
  | none => (.handler (some ended) {}, s)
  | some pos =>
    let rest := s.drop (pos + CRLFCRLF.length)
    match parseHeaders (s.take pos) with
    | .error reply => (.handler (some .protocolError) reply, rest)
    | .ok reply => receiveBody z ended reply rest

namespace Exchange

variable {z : Zlib} {ended : ErrorCode}

/-! ## The reads of the handlers -/

theorem readUntil_buffered {delimiter : Bytes} {client : TcpClient} {pos : Nat}
    (h : search delimiter client.buffered = some pos) (hne : delimiter ≠ []) :
    Net.readUntil delimiter client = some (client.buffered.take pos,
      { client with buffered := client.buffered.drop (pos + delimiter.length) }) := by
  have hlen := search_length_le h
  have hpos := List.length_pos_iff.mpr hne
  have hbuf : client.buffered ≠ [] := by
    intro hnil
    rw [hnil, List.length_nil] at hlen
    omega
  unfold Net.readUntil
  rw [if_neg hbuf, h]

/-- A delimiter in the buffer is found without a read of the socket. -/
theorem readUntil_eq {x : Exchange} {delimiter s : Bytes} {pos : Nat} (hne : delimiter ≠ [])
    (hs : x.client.unread = s) (h : search delimiter s = some pos)
    (hbuf : (search delimiter x.client.buffered).isSome = true)
    (k : Bytes → Exchange → Exchange) : ∃ client : TcpClient,
      x.readUntil delimiter k = k (s.take pos) { x with client } ∧
        client.unread = s.drop (pos + delimiter.length) := by
  obtain ⟨pos', hpos'⟩ := Option.isSome_iff_exists.mp hbuf
  have hsame := search_append_right hpos' x.client.incoming.flatten
  rw [show x.client.buffered ++ x.client.incoming.flatten = s from hs, h] at hsame
  obtain rfl := Option.some.inj hsame
  obtain ⟨htake, hdrop⟩ := cut_source hpos' hs
  refine ⟨_, ?_, hdrop⟩
  unfold readUntil
  simp only [hpos', readUntil_buffered hpos' hne, Option.isSome_some, if_true, Nat.add_zero, htake]

/-- Bytes in the buffer are taken without a read of the socket. -/
theorem read_eq {x : Exchange} {n : Nat} {s : Bytes} (hs : x.client.unread = s)
    (hbuf : n ≤ x.client.buffered.length) (k : Bytes → Exchange → Exchange) :
    ∃ client : TcpClient, x.read n k = k (s.take n) { x with client } ∧
      client.unread = s.drop n := by
  have hs' : x.client.buffered ++ x.client.incoming.flatten = s := hs
  refine ⟨{ x.client with buffered := x.client.buffered.drop n }, ?_, ?_⟩
  · unfold read Net.read
    rw [← hs', List.take_append_of_le_length hbuf]
    simp [hbuf]
  · show x.client.buffered.drop n ++ x.client.incoming.flatten = _
    rw [← hs', List.drop_append_of_le_length hbuf]

/-! ## From one read to the next -/

/-- Waiting for `p` with the bytes `s` unread, before the caller has been called. -/
structure Waits (p : Pending) (s : Bytes) (x : Exchange) : Prop where
  pending : x.pending = some p
  start : x.searchPosition = 0
  unread : x.client.unread = s
  calls : x.calls = []
  socketReads : x.socketReads = 0

/-- The caller has been called once, and no read in a handler went to the socket. -/
structure Finished (outcome : Outcome) (rest : Bytes) (x : Exchange) : Prop where
  pending : x.pending = none
  calls : x.calls = [outcome]
  unread : x.client.unread = rest
  socketReads : x.socketReads = 0

def Finishes (z : Zlib) (ended : ErrorCode) (received : Outcome × Bytes) (x : Exchange) : Prop :=
  ∃ n, Finished received.1 received.2 (run z ended n x)

theorem run_add (m n : Nat) (x : Exchange) : run z ended (m + n) x = run z ended n (run z ended m x) := by
  induction m generalizing x with
  | zero => rw [Nat.zero_add]; rfl
  | succ m ih =>
    rw [Nat.succ_add]
    exact ih (step z ended x)

/-- The handler of a read runs without an error exactly when the condition holds of all
bytes, and then the condition holds of those in the buffer. -/
theorem Waits.resumes {p : Pending} {s : Bytes} {x : Exchange} (h : Waits p s x) :
    ∃ n client, client.unread = s ∧
      ((p.condition s).2 = true → (p.condition client.buffered).2 = true ∧
        run z ended n x = resume z p none { x with client }) ∧
      ((p.condition s).2 = false → run z ended n x = resume z p (some ended) { x with client }) := by
  obtain ⟨⟨buffered, incoming⟩, pending, start, calls, socketReads⟩ := x
  obtain ⟨rfl, rfl, hs, -, -⟩ := h
  have hs' : buffered ++ incoming.flatten = s := hs
  induction incoming generalizing buffered with
  | nil =>
    rw [List.flatten_nil, List.append_nil] at hs'
    subst hs'
    refine ⟨1, ⟨buffered, []⟩, by simp [Source.unread], ?_, ?_⟩
    · intro hmatch
      refine ⟨hmatch, ?_⟩
      simp [run, step, hmatch]
    · intro hmiss
      simp [run, step, hmiss]
  | cons segment rest ih =>
    by_cases hbuf : (p.condition buffered).2 = true
    · have hall := p.settled.stable buffered (segment :: rest).flatten hbuf
      rw [hs'] at hall
      refine ⟨1, ⟨buffered, segment :: rest⟩, hs, ?_, ?_⟩
      · intro _
        refine ⟨hbuf, ?_⟩
        simp [run, step, hbuf]
      · intro hmiss
        rw [hall, hbuf] at hmiss
        cases hmiss
    · have hmiss : (p.condition buffered).2 = false := by simpa using hbuf
      have hnext : (buffered ++ segment) ++ rest.flatten = s := by
        rw [List.append_assoc]
        exact hs'
      obtain ⟨n, client, hunread, hyes, hno⟩ := ih (buffered ++ segment) hnext hnext
      have hstep : step z ended ⟨⟨buffered, segment :: rest⟩, some p, 0, calls, socketReads⟩ =
          ⟨⟨buffered ++ segment, rest⟩, some p, 0, calls, socketReads⟩ := by
        simp [step, hmiss, p.settled.restart buffered hmiss]
      refine ⟨n + 1, client, hunread, ?_, ?_⟩
      · intro hmatch
        rw [run, hstep]
        exact hyes hmatch
      · intro hmiss
        rw [run, hstep]
        exact hno hmiss

/-- The handler of a read whose condition holds of the unread bytes decides how the
exchange finishes. -/
theorem Waits.matched {p : Pending} {s : Bytes} {x : Exchange} {received : Outcome × Bytes}
    (h : Waits p s x) (hmatch : (p.condition s).2 = true)
    (hk : ∀ client : TcpClient, client.unread = s → (p.condition client.buffered).2 = true →
      Finishes z ended received (resume z p none { x with client })) :
    Finishes z ended received x := by
  obtain ⟨n, client, hunread, hyes, -⟩ := @Waits.resumes z ended p s x h
  obtain ⟨hbuf, hrun⟩ := hyes hmatch
  obtain ⟨m, hm⟩ := hk client hunread hbuf
  refine ⟨n + m, ?_⟩
  rw [run_add, hrun]
  exact hm

/-- Otherwise the handler gets the error that the stream ends with. -/
theorem Waits.missed {p : Pending} {s : Bytes} {x : Exchange} {received : Outcome × Bytes}
    (h : Waits p s x) (hmiss : (p.condition s).2 = false)
    (hk : ∀ client : TcpClient, client.unread = s →
      Finishes z ended received (resume z p (some ended) { x with client })) :
    Finishes z ended received x := by
  obtain ⟨n, client, hunread, -, hno⟩ := @Waits.resumes z ended p s x h
  obtain ⟨m, hm⟩ := hk client hunread
  refine ⟨n + m, ?_⟩
  rw [run_add, hno hmiss]
  exact hm

theorem finishes_call {x : Exchange} (outcome : Outcome) {rest : Bytes}
    (hunread : x.client.unread = rest) (hcalls : x.calls = []) (hreads : x.socketReads = 0) :
    Finishes z ended (outcome, rest) (x.call outcome) := by
  refine ⟨0, rfl, ?_, hunread, hreads⟩
  show x.calls ++ [outcome] = [outcome]
  rw [hcalls, List.nil_append]

theorem waits_await {x : Exchange} (p : Pending) {s : Bytes} (hunread : x.client.unread = s)
    (hcalls : x.calls = []) (hreads : x.socketReads = 0) : Waits p s (x.await p) :=
  ⟨rfl, rfl, hunread, hcalls, hreads⟩

/-! ## Going on after a read in a handler -/

theorem finishes_readUntil {x : Exchange} {delimiter s : Bytes} {pos : Nat}
    {k : Bytes → Exchange → Exchange} {received : Outcome × Bytes} (hne : delimiter ≠ [])
    (hs : x.client.unread = s) (h : search delimiter s = some pos)
    (hbuf : (contains delimiter x.client.buffered).2 = true)
    (hk : ∀ client : TcpClient, client.unread = s.drop (pos + delimiter.length) →
      Finishes z ended received (k (s.take pos) { x with client })) :
    Finishes z ended received (x.readUntil delimiter k) := by
  rw [contains_snd] at hbuf
  obtain ⟨client, hread, hunread⟩ := readUntil_eq hne hs h hbuf k
  rw [hread]
  exact hk client hunread

theorem finishes_read {x : Exchange} {n : Nat} {s : Bytes} {k : Bytes → Exchange → Exchange}
    {received : Outcome × Bytes} (hs : x.client.unread = s)
    (hbuf : (atLeast n x.client.buffered).2 = true)
    (hk : ∀ client : TcpClient, client.unread = s.drop n →
      Finishes z ended received (k (s.take n) { x with client })) :
    Finishes z ended received (x.read n k) := by
  rw [atLeast_snd, decide_eq_true_iff] at hbuf
  obtain ⟨client, hread, hunread⟩ := read_eq hs hbuf k
  rw [hread]
  exact hk client hunread

/-! ## The exchange receives what `receive` says -/

theorem contains_of_search {pat s : Bytes} {found : Option Nat} (h : search pat s = found) :
    (contains pat s).2 = found.isSome := by
  rw [contains_snd, h]

theorem atLeast_of_le {n : Nat} {s : Bytes} (h : n ≤ s.length) : (atLeast n s).2 = true := by
  rw [atLeast_snd, decide_eq_true h]

theorem atLeast_of_not_le {n : Nat} {s : Bytes} (h : ¬ n ≤ s.length) : (atLeast n s).2 = false := by
  rw [atLeast_snd, decide_eq_false h]

/-- One round takes the line of a chunk and its bytes, so there are no more rounds than
bytes. -/
theorem finishes_chunks (reply : HttpReply) (s : Bytes) {x : Exchange}
    (h : Waits (.chunkLine reply) s x) : Finishes z ended (receiveChunks z ended reply s) x := by
  induction hlen : s.length using Nat.strongRecOn generalizing reply s x with
  | ind n ih =>
    subst hlen
    cases hpos : search CRLF s with
    | none =>
      rw [receiveChunks_none z ended reply hpos]
      exact h.missed (contains_of_search hpos) fun client hunread =>
        finishes_call _ hunread h.calls h.socketReads
    | some pos =>
      have hrest := drop_after_search hpos (by decide)
      rw [receiveChunks_some z ended reply hpos]
      refine h.matched (contains_of_search hpos) fun client hunread hbuf => ?_
      show Finishes z ended _ (startProcessChunk none reply _)
      unfold startProcessChunk
      refine finishes_readUntil (by decide) hunread hpos hbuf fun client₁ hunread₁ => ?_
      dsimp only
      generalize s.drop (pos + CRLF.length) = rest at hrest hunread₁
      cases chunkSize (s.take pos) with
      | none => exact finishes_call _ hunread₁ h.calls h.socketReads
      | some size =>
        have hwaits : Waits (.chunkData reply size) rest
            (await { x with client := client₁ } (.chunkData reply size)) :=
          waits_await _ hunread₁ h.calls h.socketReads
        dsimp only
        by_cases hle : chunkBytes size ≤ rest.length
        · rw [if_pos hle]
          refine hwaits.matched (atLeast_of_le hle) fun client₂ hunread₂ hbuf₂ => ?_
          show Finishes z ended _ (processChunk z none size reply _)
          unfold processChunk
          refine finishes_read hunread₂ hbuf₂ fun client₃ hunread₃ => ?_
          dsimp only
          by_cases hzero : size = 0
          · rw [if_pos hzero, if_pos hzero]
            exact finishes_call _ hunread₃ h.calls h.socketReads
          · rw [if_neg hzero, if_neg hzero]
            refine ih _ ?_ _ _ (waits_await _ hunread₃ h.calls h.socketReads) rfl
            rw [List.length_drop]
            omega
        · rw [if_neg hle]
          exact hwaits.missed (atLeast_of_not_le hle) fun client₂ hunread₂ =>
            finishes_call _ hunread₂ h.calls h.socketReads

theorem finishes_body (reply : HttpReply) (bodyLen : Nat) (s : Bytes) {x : Exchange}
    (h : Waits (.body reply bodyLen) s x) : Finishes z ended
      (if bodyLen ≤ s.length then
        (processReply z { reply with body := s.take bodyLen }, s.drop bodyLen)
      else (.handler (some ended) reply, s)) x := by
  by_cases hle : bodyLen ≤ s.length
  · rw [if_pos hle]
    refine h.matched (atLeast_of_le hle) fun client hunread hbuf => ?_
    show Finishes z ended _ (processBody z none reply bodyLen _)
    unfold processBody
    exact finishes_read hunread hbuf fun client₁ hunread₁ =>
      finishes_call _ hunread₁ h.calls h.socketReads
  · rw [if_neg hle]
    exact h.missed (atLeast_of_not_le hle) fun client hunread =>
      finishes_call _ hunread h.calls h.socketReads

theorem finishes_headers (s : Bytes) {x : Exchange} (h : Waits .headers s x) :
    Finishes z ended (receive z ended s) x := by
  unfold receive
  cases hpos : search CRLFCRLF s with
  | none =>
    exact h.missed (contains_of_search hpos) fun client hunread =>
      finishes_call _ hunread h.calls h.socketReads
  | some pos =>
    refine h.matched (contains_of_search hpos) fun client hunread hbuf => ?_
    show Finishes z ended _ (handleHeaders none _)
    unfold handleHeaders
    refine finishes_readUntil (by decide) hunread hpos hbuf fun client₁ hunread₁ => ?_
    dsimp only
    generalize s.drop (pos + CRLFCRLF.length) = rest at hunread₁
    cases parseHeaders (s.take pos) with
    | error reply => exact finishes_call _ hunread₁ h.calls h.socketReads
    | ok reply =>
      dsimp only
      unfold receiveBody
      cases contentLength reply with
      | error reply => exact finishes_call _ hunread₁ h.calls h.socketReads
      | ok length =>
        cases length with
        | some bodyLen =>
          exact finishes_body reply bodyLen rest (waits_await _ hunread₁ h.calls h.socketReads)
        | none =>
          dsimp only
          split
          · exact finishes_chunks reply rest (waits_await _ hunread₁ h.calls h.socketReads)
          · exact finishes_call _ hunread₁ h.calls h.socketReads

theorem run_finished {outcome : Outcome} {rest : Bytes} {x : Exchange} (h : Finished outcome rest x)
    (n : Nat) : run z ended n x = x := by
  induction n with
  | zero => rfl
  | succ n ih =>
    have hstep : step z ended x = x := by
      unfold step
      rw [h.pending]
    rw [run, hstep, ih]

/-- However the bytes are divided between the buffer and the segments, the exchange comes
to a state that it does not leave again, in which the caller has been called once, with
what `receive` says. -/
theorem run_receive (z : Zlib) (ended : ErrorCode) (client : TcpClient) :
    ∃ n, ∃ final : Exchange,
      Finished (receive z ended client.unread).1 (receive z ended client.unread).2 final ∧
      ∀ k, n ≤ k → run z ended k { client } = final := by
  have hwaits : Waits .headers client.unread { client } := ⟨rfl, rfl, rfl, rfl, rfl⟩
  obtain ⟨n, hn⟩ : Finishes z ended (receive z ended client.unread) { client } :=
    finishes_headers client.unread hwaits
  refine ⟨n, _, hn, fun k hk => ?_⟩
  obtain ⟨m, rfl⟩ := Nat.exists_eq_add_of_le hk
  rw [run_add]
  exact run_finished hn m

end Exchange

/-! ## The two readings of the iterator -/

/-- A call of the handler, not a failed assertion. -/
def Outcome.isCall : Outcome → Bool
  | .handler .. => true
  | .aborted => false

theorem processReply_isCall (z : Zlib) (reply : HttpReply) : (processReply z reply).isCall = true := by
  unfold processReply
  dsimp only
  split
  · split <;> rfl
  · rfl

theorem receiveChunks_isCall (z : Zlib) (ended : ErrorCode) (reply : HttpReply) (s : Bytes) :
    (receiveChunks z ended reply s).1.isCall = true := by
  fun_induction receiveChunks z ended reply s with
  | case1 => rfl
  | case2 => rfl
  | case3 => exact processReply_isCall z _
  | case4 _ _ _ _ _ _ _ _ _ _ ih => exact ih
  | case5 => rfl

theorem receive_isCall (z : Zlib) (ended : ErrorCode) (s : Bytes) :
    (receive z ended s).1.isCall = true := by
  unfold receive
  split
  · rfl
  · dsimp only
    split
    · rfl
    · unfold receiveBody
      split
      · rfl
      · split
        · exact processReply_isCall z _
        · rfl
      · split
        · exact receiveChunks_isCall z ended _ _
        · rfl

/-- With the iterators of Boost, which assert that they stay in the buffer, the chunks are
the same unless the assertion fails. -/
theorem decodeChunks_eq_receiveChunks (z : Zlib) (reply : HttpReply) (s : Bytes)
    (h : (decodeChunks z reply s).1 ≠ .aborted) :
    decodeChunks z reply s = receiveChunks z .eof reply s := by
  induction hlen : s.length using Nat.strongRecOn generalizing reply s with
  | ind n ih =>
    subst hlen
    cases hpos : search CRLF s with
    | none => rw [decodeChunks_none z reply hpos, receiveChunks_none z .eof reply hpos]
    | some pos =>
      have hrest := drop_after_search hpos (by decide)
      rw [decodeChunks_some z reply hpos] at h ⊢
      rw [receiveChunks_some z .eof reply hpos]
      generalize s.drop (pos + CRLF.length) = rest at h hrest ⊢
      cases hsize : chunkSize (s.take pos) with
      | none => rfl
      | some size =>
        rw [hsize] at h
        dsimp only at h ⊢
        by_cases hle : chunkBytes size ≤ rest.length
        · rw [if_pos hle] at h ⊢
          rw [if_pos hle]
          by_cases hbig : 2 ^ 63 ≤ size
          · rw [if_pos hbig] at h
            exact absurd rfl h
          · rw [if_neg hbig] at h ⊢
            by_cases hzero : size = 0
            · rw [if_pos hzero, if_pos hzero]
            · rw [if_neg hzero] at h ⊢
              rw [if_neg hzero]
              refine ih _ ?_ _ _ h rfl
              rw [List.length_drop]
              omega
        · rw [if_neg hle, if_neg hle]

theorem decode_eq_receive (z : Zlib) (s : Bytes) (h : (decode z s).1 ≠ .aborted) :
    decode z s = receive z .eof s := by
  revert h
  unfold decode receive
  cases search CRLFCRLF s with
  | none => exact fun _ => rfl
  | some pos =>
    dsimp only
    generalize s.drop (pos + CRLFCRLF.length) = rest
    cases parseHeaders (s.take pos) with
    | error reply => exact fun _ => rfl
    | ok reply =>
      dsimp only
      unfold decodeBody receiveBody
      cases contentLength reply with
      | error reply => exact fun _ => rfl
      | ok length =>
        cases length with
        | some bodyLen => exact fun _ => rfl
        | none =>
          dsimp only
          by_cases hchunked : reply.getHeader (bytes "Transfer-Encoding") = bytes "chunked"
          · rw [if_pos hchunked, if_pos hchunked]
            exact decodeChunks_eq_receiveChunks z reply rest
          · rw [if_neg hchunked, if_neg hchunked]
            exact fun _ => rfl

open Exchange in
/-- For every stream, however it ends and arrives, and whatever is in the buffer already,
one `asyncResponse` comes to an end, has called the handler exactly once, and has read
nothing from the socket inside a handler. -/
theorem asyncResponse_calls_once (z : Zlib) (ended : ErrorCode) (client : TcpClient) :
    ∃ n error reply, ∀ k, n ≤ k →
      (run z ended k { client }).pending = none ∧
      (run z ended k { client }).calls = [.handler error reply] ∧
      (run z ended k { client }).socketReads = 0 := by
  obtain ⟨n, final, hfinal, hrun⟩ := run_receive z ended client
  obtain ⟨error, reply, hcall⟩ : ∃ error reply,
      (receive z ended client.unread).1 = .handler error reply := by
    have hcall := receive_isCall z ended client.unread
    generalize (receive z ended client.unread).1 = outcome at hcall
    cases outcome with
    | handler error reply => exact ⟨error, reply, rfl⟩
    | aborted => cases hcall
  refine ⟨n, error, reply, fun k hk => ?_⟩
  rw [hrun k hk]
  exact ⟨hfinal.pending, hcall ▸ hfinal.calls, hfinal.socketReads⟩

end O2Chat.Net
