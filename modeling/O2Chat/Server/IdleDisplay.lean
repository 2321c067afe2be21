import Mathlib.Data.List.TakeDrop
import O2Chat.Client.Display
import O2Chat.Server.CStrings
import O2Chat.Server.Duplicates
import O2Chat.Server.EndToEnd
import O2Chat.Server.Pairing
import O2Chat.Server.PollNames

/-!
# From the poll to the screen

The responses to the polls of an idle connection, the bytes they put on the wire, and the
client that reads them: as long as they are written one at a time, every message in a
response that has been written is shown, once, in the order of the responses, with the
names of its sender and its chat.
-/
namespace O2Chat.Server

open O2Chat.Common O2Chat.Db O2Chat.Client O2Chat.Lib.Interleaving O2Chat.Lib.Runs
  O2Chat.Lib.Stream
open O2Chat.Net (Zlib TcpClient asyncResponses asyncResponses_yields decodeTimes)

/-! ## The wire -/

/-- The bytes that the end of a write has put on the wire of connection `c`: those that are
in its buffer then. -/
def writtenBy (c : Nat) (s : System) : Action → List Bytes
  | .writeDone d _ false => if d = c then [(s.clients c).writeBuffer] else []
  | _ => []

/-- The server, with the responses that it has started on a connection and what it has
written of them. -/
structure Line where
  system : System := {}
  responses : List Response := []
  written : List Bytes := []

def Line.step (env : Extern) (c : Nat) (w : Line) (a : Action) : Option Line :=
  (w.system.step env a).map fun s' =>
    { system := s', responses := w.responses ++ starts c w.system a s',
      written := w.written ++ writtenBy c w.system a }

/-- The thread is about to make a reply. -/
def isReplying (t : Thread) : Bool :=
  match t.prog with
  | .op (.reply ..) _ => true
  | _ => false

/-- No write of the connection fails, and none is started while another is outstanding. -/
def InTurn (c : Nat) (w : Line) : Action → Prop
  | .writeDone d _ error => d = c → error = false
  | .work i => ∀ t ∈ w.system.workers.threads[i]?, t.tag.client = c → isReplying t = true →
      (w.system.clients c).writes = []
  | _ => True

instance (c : Nat) (w : Line) : (a : Action) → Decidable (InTurn c w a)
  | .writeDone d _ error => inferInstanceAs (Decidable (d = c → error = false))
  | .work i => inferInstanceAs (Decidable (∀ t ∈ w.system.workers.threads[i]?, _))
  | .handshake .. | .readDone .. | .timerExpire _ | .timerRun _ | .getTask | .clock _ =>
    isTrue trivial

/-! ## The responses to polls -/

/-- The rows that the thread has put into its response. -/
def rowsOf (r : Response) : List Message :=
  match r.thread.bind fun t => t.hist.head? with
  | none => []
  | some e =>
    match e.op with
    | .reply _ rows => rows
    | _ => []

/-- The response has stored messages, with the names of their senders and chats. -/
def Batch (s : System) (r : Response) : Prop :=
  ∃ t e api, r.thread = some t ∧ t.hist.head? = some e ∧
    e.op = .reply (.sendMessagesToIdleConn api) (rowsOf r) ∧
    r.data = buildApiOkResponse (okResponseBodyOfMessages api e.pre.clock) ∧
    (∀ row ∈ rowsOf r, IsStored s.workers.state.storage row) ∧
    List.Forall₂ (Attributed s.workers.state.storage) (rowsOf r) api

/-- The connection is polled, and its responses are on the wire or in the buffer. -/
structure Streamed (env : Extern) (c : Nat) (params : Params) (w : Line) : Prop where
  run : Run (System.step env) anyStep {} w.system
  session : OneSession env c params w.system
  responses : ∃ body ack batches, w.responses = ack :: batches ∧
    ack.data = buildApiOkResponse body ∧ ∀ r ∈ batches, Batch w.system r
  wire : w.responses.map (·.data) =
    w.written ++ (w.system.clients c).writes.map (·.data)
  single : (w.system.clients c).writes.length ≤ 1
  buffer : ∀ x ∈ (w.system.clients c).writes, (w.system.clients c).writeBuffer = x.data

section

variable {env : Extern} {c : Nat} {params : Params} {w : Line} {s' : System} {a : Action}

theorem Batch.step {s : System} {r : Response} (hb : Batch s r) (h : s.step env a = some s') :
    Batch s' r := by
  obtain ⟨t, e, api, hthread, hhead, hop, hdata, hstored, hall⟩ := hb
  have hext := step_extends h
  exact ⟨t, e, api, hthread, hhead, hop, hdata, fun row hrow => (hstored row hrow).mono hext,
    hall.imp fun _ _ hentry => hentry.mono hext⟩

/-- The responses so far, and more of them. -/
theorem Streamed.more (hs : Streamed env c params w) (h : w.system.step env a = some s')
    {new : List Response} (hnew : ∀ r ∈ new, Batch s' r) : ∃ body ack batches,
      w.responses ++ new = ack :: batches ∧ ack.data = buildApiOkResponse body ∧
      ∀ r ∈ batches, Batch s' r := by
  obtain ⟨body, ack, batches, hresponses, hack, hall⟩ := hs.responses
  refine ⟨body, ack, batches ++ new, by rw [hresponses]; rfl, hack, ?_⟩
  intro r hr
  rcases List.mem_append.mp hr with hold | hr
  · exact (hall r hold).step h
  · exact hnew r hr

/-- A step that neither starts a write nor ends one. -/
theorem Streamed.quiet (hs : Streamed env c params w) (h : w.system.step env a = some s')
    (hrun : Run (System.step env) anyStep {} s') (hsession : OneSession env c params s')
    (hwrites : (s'.clients c).writes = (w.system.clients c).writes)
    (hbuffer : (s'.clients c).writeBuffer = (w.system.clients c).writeBuffer)
    (ha : writtenBy c w.system a = []) :
    Streamed env c params ⟨s', w.responses ++ starts c w.system a s',
      w.written ++ writtenBy c w.system a⟩ := by
  have hstarts : starts c w.system a s' = [] := starts_eq_nil (by rw [hwrites])
  rw [hstarts, ha]
  refine ⟨hrun, hsession, hs.more h (by simp), ?_, ?_, ?_⟩
  · dsimp only
    rw [hwrites, List.append_nil, List.append_nil]
    exact hs.wire
  · dsimp only
    rw [hwrites]
    exact hs.single
  · dsimp only
    rw [hwrites, hbuffer]
    exact hs.buffer

theorem isReplying_of_work {i : Nat} {p : Workers} {t : Thread} {e : Event} {reply : Reply}
    {rows : List Message} (hw : w.system.workers.work Op.exec i = some (p, t, e))
    (hop : e.op = .reply reply rows) : isReplying t = true := by
  obtain ⟨-, k, hprog, -⟩ := Pool.work_cases hw
  obtain ⟨pre, op, res, post⟩ := e
  obtain rfl : op = .reply reply rows := hop
  rw [isReplying, hprog]

theorem not_writeDone (ha : ∀ i error, a ≠ .writeDone c i error) : writtenBy c w.system a = [] := by
  unfold writtenBy
  split
  · rename_i d i
    exact if_neg fun hd => ha i false (by rw [hd])
  · rfl

/-- The response to a poll is started while the buffer is not in use. -/
theorem Streamed.reply (hs : Streamed env c params w) {i : Nat} (hok : InTurn c w (.work i))
    (h : w.system.step env (.work i) = some s') (hrun : Run (System.step env) anyStep {} s')
    (hsession : OneSession env c params s') {p : Workers} {t : Thread} {e : Event}
    {reply : Reply} {rows : List Message} (hw : w.system.workers.work Op.exec i = some (p, t, e))
    (ht : t.tag.client = c) (hop : e.op = .reply reply rows)
    (hclient : s'.clients c = (w.system.clients c).deliver w.system.now reply) :
    Streamed env c params ⟨s', w.responses ++ starts c w.system (.work i) s',
      w.written ++ writtenBy c w.system (.work i)⟩ := by
  have hsafe := system_safe hs.run
  obtain ⟨msgs, rfl, -, -⟩ :=
    hs.session.batch hsafe (workers_poll (System.workers_run hs.run)) hw ht hop
  obtain ⟨hi, k, hprog, hpre, -, hp⟩ := Pool.work_cases hw
  have hquiet : (w.system.clients c).writes = [] := hok t hi ht (isReplying_of_work hw hop)
  obtain ⟨hfrom, -⟩ := hs.session.threads t (List.mem_of_getElem? hi) ht
    (unanswered_of_reply hsafe hw hop)
  have hworkers : s'.workers = p := workers_of_work h hw
  obtain ⟨u, hu, htag, hhist⟩ : ∃ u, s'.workers.threads[i]? = some u ∧ u.tag = t.tag ∧
      u.hist = e :: t.hist := by
    obtain ⟨hlt, -⟩ := List.getElem?_eq_some_iff.mp hi
    refine ⟨⟨t.tag, k e.res, e :: t.hist⟩, ?_, rfl, rfl⟩
    rw [hworkers, hp]
    exact List.getElem?_set_self hlt
  have hwrites : (s'.clients c).writes = (w.system.clients c).writes ++
      [⟨replyData w.system.now (.sendMessagesToIdleConn msgs), .idleWrote (maxTimestamp msgs)⟩] := by
    rw [hclient]
    rfl
  have hstarts : starts c w.system (.work i) s' =
      [⟨replyData w.system.now (.sendMessagesToIdleConn msgs), some u⟩] := by
    unfold starts
    dsimp only
    rw [started_eq hwrites, hu]
    rfl
  have hhead : u.hist.head? = some e := by rw [hhist]; rfl
  have hrows : rowsOf ⟨replyData w.system.now (.sendMessagesToIdleConn msgs), some u⟩ = rows := by
    unfold rowsOf
    simp only [Option.bind_some, hhead, hop]
  have hbatch : Batch s' ⟨replyData w.system.now (.sendMessagesToIdleConn msgs), some u⟩ := by
    have hworkersRun := System.workers_run hrun
    obtain ⟨hstored, hnames⟩ := batch_attributed (seen_of_run hworkersRun)
      (workers_tracked hworkersRun) (List.mem_of_getElem? hu) (htag ▸ hfrom.cmd)
      (hhist ▸ List.mem_cons_self) hop
    refine ⟨u, e, msgs, rfl, hhead, hrows.symm ▸ hop, ?_, hrows.symm ▸ hstored,
      hrows.symm ▸ hnames⟩
    rw [hpre]
    rfl
  rw [hquiet, List.nil_append] at hwrites
  rw [hstarts, not_writeDone (by simp), List.append_nil]
  refine ⟨hrun, hsession, hs.more h (by simpa using hbatch), ?_, ?_, ?_⟩
  · dsimp only
    rw [hwrites, List.map_append, hs.wire, hquiet, List.map_nil, List.append_nil]
    rfl
  · dsimp only
    rw [hwrites]
    exact Nat.le_refl _
  · dsimp only
    rw [hwrites, hclient]
    simp only [List.mem_singleton, forall_eq]
    rfl

/-- The outstanding write is done, and its data is on the wire. -/
theorem Streamed.wrote (hs : Streamed env c params w) {i : Nat} {error : Bool}
    (hok : InTurn c w (.writeDone c i error)) (h : w.system.step env (.writeDone c i error) = some s')
    (hrun : Run (System.step env) anyStep {} s') (hsession : OneSession env c params s') {x : Write}
    (hx : (w.system.clients c).writes[i]? = some x)
    (hclient : s'.clients c = ApiClient.writeHandler { w.system.clients c with
      writes := (w.system.clients c).writes.eraseIdx i } error x.handler) :
    Streamed env c params ⟨s', w.responses ++ starts c w.system (.writeDone c i error) s',
      w.written ++ writtenBy c w.system (.writeDone c i error)⟩ := by
  obtain rfl : error = false := hok rfl
  obtain ⟨y, hy⟩ : ∃ y, (w.system.clients c).writes = [y] := by
    have hlt := (List.getElem?_eq_some_iff.mp hx).1
    have hsingle := hs.single
    exact List.length_eq_one_iff.mp (by omega)
  have hbuffer : (w.system.clients c).writeBuffer = y.data :=
    hs.buffer y (hy ▸ List.mem_cons_self)
  have hi : i = 0 := by
    have hlt := (List.getElem?_eq_some_iff.mp hx).1
    rw [hy, List.length_singleton] at hlt
    omega
  have hwrites : (s'.clients c).writes = [] := by
    have hnone : (w.system.clients c).writes.eraseIdx i = [] := by
      rw [hy, hi]
      rfl
    rw [hclient]
    obtain ⟨-, heq⟩ | ⟨_, -, -, heq⟩ | ⟨_, -, -, heq⟩ | ⟨-, heq⟩ :=
      ApiClient.writeHandler_cases { w.system.clients c with
        writes := (w.system.clients c).writes.eraseIdx i } false x.handler <;>
    · rw [heq]
      exact hnone
  have hstarts : starts c w.system (.writeDone c i false) s' = [] :=
    starts_eq_nil (by simp [hwrites])
  have hwritten : writtenBy c w.system (.writeDone c i false) = [y.data] := by
    rw [writtenBy, if_pos rfl, hbuffer]
  rw [hstarts, hwritten]
  refine ⟨hrun, hsession, hs.more h (by simp), ?_, ?_, ?_⟩
  · dsimp only
    rw [List.append_nil, hs.wire, hy, hwrites, List.map_nil, List.append_nil]
    rfl
  · dsimp only
    rw [hwrites]
    exact Nat.zero_le _
  · dsimp only
    rw [hwrites]
    simp

theorem streamed_step (hs : Streamed env c params w) (hok : InTurn c w a)
    (h : w.system.step env a = some s') :
    Streamed env c params ⟨s', w.responses ++ starts c w.system a s',
      w.written ++ writtenBy c w.system a⟩ := by
  have hsafe := system_safe hs.run
  have hpoll := workers_poll (System.workers_run hs.run)
  have hsession := oneSession_step hsafe hpoll hs.session h
  have hrun : Run (System.step env) anyStep {} s' := .tail hs.run trivial h
  have hclient := hs.session.client
  by_cases hdone : ∃ i error, a = .writeDone c i error
  · obtain ⟨i, error, rfl⟩ := hdone
    obtain ⟨x, hx, hs'⟩ := System.writeDone_cases (show w.system.writeDone c i error = some s' from h)
    exact hs.wrote hok h hrun hsession hx (by rw [hs', System.setClient_same])
  have hnone := not_writeDone (w := w) fun i error ha => hdone ⟨i, error, ha⟩
  cases step_touch c h with
  | none hsame => exact hs.quiet h hrun hsession (by rw [hsame]) (by rw [hsame]) hnone
  | handshake error ha hnew reads hreads heq =>
    rw [hclient.connected] at hnew
    cases hnew
  | readError ha hreads heq => exact absurd hclient.reads hreads
  | request req tasks ha hreads heq => exact absurd hclient.reads hreads
  | wrote i error x ha hx heq => exact absurd ⟨i, error, ha⟩ hdone
  | expired ha harmed heq =>
    exact hs.quiet h hrun hsession (by rw [heq]) (by rw [heq]) hnone
  | polled task ha hexpired heq =>
    obtain ⟨ping, last, hpolled, -⟩ := ApiClient.timerWaitTaskResultHandler_cases heq
    refine hs.quiet h hrun hsession ?_ ?_ hnone
    · rw [hpolled]
      rfl
    · rw [hpolled]
      rfl
  | replied i p t e reply rows ha hw ht hop heq =>
    subst ha
    exact hs.reply hok h hrun hsession hw ht hop heq

/-! ## The start -/

/-- Connection `c` has just sent an `IDLE` request with the parameters `params` of a stored
user, its first one to be accepted. -/
inductive IdleBegins (env : Extern) (c : Nat) (params : Params) (w : Line) : Prop
  | request (s₀ : System) (req : HttpReply) (hrun : Run (System.step env) anyStep {} s₀)
      (hfirst : ∀ r ∈ (s₀.clients c).received, ¬ StartsIdle env r)
      (hresource : lowercased req.resource = bytes "/v1/idle")
      (hparse : parseMeta env (s₀.clients c).requestDetails.params req.body .idle =
        some ([], params))
      (huser : Registered env params s₀.workers.state.storage)
      (hstep : Line.step env c { system := s₀ } (.readDone c (some req)) = some w)

theorem handler_startedIdle {client : ApiClient} {req : HttpReply} {now : Nat}
    (hresource : lowercased req.resource = bytes "/v1/idle")
    (hparse : parseMeta env client.requestDetails.params req.body .idle = some ([], params)) :
    ApiClient.requestFromClientReadHandler env c now { client with reads := client.reads - 1 } req =
      some (startedIdle client req params now, []) := by
  have hparams : ((ApiClient.noteRequest { client with reads := client.reads - 1 } req).setCommand
      .idle).requestDetails.params = client.requestDetails.params := rfl
  unfold ApiClient.requestFromClientReadHandler ApiClient.idleHandler
  dsimp only
  rw [if_pos hresource, hparams, hparse]
  simp [startedIdle]

/-- A fresh connection that reads has nothing else outstanding. -/
theorem Fresh.reading {s : System} (hs : Fresh s c) (hreads : (s.clients c).reads ≠ 0) :
    (s.clients c).connected = true ∧ (s.clients c).reads = 1 ∧ (s.clients c).writes = [] := by
  have hone := hs.sequential.one
  unfold outstanding at hone
  refine ⟨?_, by omega, List.length_eq_zero_iff.mp (by omega)⟩
  by_contra hclosed
  have hzero := (hs.sequential.unopened (by simpa using hclosed)).1
  unfold outstanding at hzero
  omega

/-- The acknowledgement is the first response. -/
theorem streamed_start (h : IdleBegins env c params w) : Streamed env c params w := by
  obtain ⟨s₀, req, hrun, hfirst, hresource, hparse, huser, hstep⟩ := h
  obtain ⟨s, hs, rfl⟩ := Option.map_eq_some_iff.mp hstep
  have hfresh := fresh_of_run hrun hfirst
  obtain ⟨hreads, ⟨hnone, -⟩ | ⟨r, client, tasks, hr, hh, heq⟩⟩ := System.readDone_cases
    (show s₀.readDone env c (some req) = some s from hs)
  · cases hnone
  obtain rfl := Option.some.inj hr
  obtain ⟨rfl, rfl⟩ := Prod.mk.inj (Option.some.inj
    (hh.symm.trans (handler_startedIdle (c := c) hresource hparse)))
  obtain ⟨hopen, hone, hnil⟩ := hfresh.reading hreads
  obtain ⟨hqueue, hthreads⟩ := hfresh.idle_workers (by omega)
  have hclient : s.clients c = startedIdle (s₀.clients c) req params s₀.now := by
    rw [heq, System.putTasks_clients, System.setClient_same]
  have hwrites : (s.clients c).writes = (s₀.clients c).writes ++
      [⟨buildApiOkResponse (okResponseBodyOfCmd .idle s₀.now), .idleStarted⟩] := by
    rw [hclient]
    rfl
  have hstarts : starts c s₀ (.readDone c (some req)) s =
      [⟨buildApiOkResponse (okResponseBodyOfCmd .idle s₀.now), none⟩] := by
    unfold starts
    dsimp only
    rw [started_eq hwrites]
    rfl
  rw [hnil, List.nil_append] at hwrites
  have hsession : OneSession env c params s := by
    refine ⟨?_, ?_, ?_, ?_⟩
    · rw [hclient]
      exact idleClient_started hopen hone hnil trivial trivial
    · rw [heq]
      exact huser
    · intro task htask hc
      rw [heq] at htask
      exact absurd hc (hqueue task (by simpa using htask))
    · intro t ht hc hun
      rw [heq] at ht
      rw [hthreads t ht hc] at hun
      cases hun
  refine ⟨.tail hrun trivial hs, hsession,
    ⟨okResponseBodyOfCmd .idle s₀.now, ⟨_, none⟩, [], hstarts, rfl, by simp⟩, ?_, ?_, ?_⟩
  · dsimp only
    rw [hstarts, hwrites]
    rfl
  · dsimp only
    rw [hwrites]
    exact Nat.le_refl _
  · dsimp only
    rw [hwrites, hclient]
    simp only [List.mem_singleton, forall_eq]
    rfl

theorem streamed_run {w₀ : Line} (hstart : IdleBegins env c params w₀)
    (h : Run (Line.step env c) (InTurn c) w₀ w) : Streamed env c params w := by
  refine h.invariant (streamed_start hstart) ?_
  intro w a w' hs hok hstep
  obtain ⟨s', hs', rfl⟩ := Option.map_eq_some_iff.mp hstep
  exact streamed_step hs hok hs'

end

/-! ## What the client shows -/

/-- The text of a stored message, with the names of its sender and its chat. -/
def ShownAs (s : Storage) (msg : Message) (line : Shown) : Prop :=
  ∃ u ∈ s.users, ∃ c ∈ s.chats, u.id = msg.userFrom ∧ c.id = msg.chatTo ∧
    line = .message { fromUser := u.name, toUser := c.name, message := msg.message }

/-- The size is a `size_t`, and the times are `uint64_t`s. -/
structure Response.Fits (r : Response) : Prop where
  size : r.data.length < 2 ^ 64
  clock : ∀ t ∈ r.thread, ∀ e ∈ t.hist.head?, e.pre.clock < 2 ^ 64
  times : ∀ row ∈ rowsOf r, row.ts < 2 ^ 64

/-- The response has this body, in which the client finds its messages. -/
structure Conveys (s : Storage) (tooBig : Nat → Bytes → Bool) (r : Response) (body : Bytes) :
    Prop where
  data : r.data = buildApiOkResponse body
  shown : List.Forall₂ (ShownAs s) (rowsOf r) (batchShown (GenericReader.parse tooBig) body)

section

variable {env : Extern} {c : Nat} {params : Params} {w : Line} {s : System} {r : Response}

theorem ReadAs.shown {st : Storage} {msg : Message} {entry : MsgResponse}
    (h : ReadAs st msg entry) : ShownAs st msg entry.shown := by
  obtain ⟨u, hu, hid, hname⟩ := h.sender
  obtain ⟨d, hd, hdid, hdname⟩ := h.chat
  refine ⟨u, hu, d, hd, hid, hdid, ?_⟩
  rw [MsgResponse.shown, hname, hdname, h.text]

theorem Batch.conveys (hb : Batch s r) (hc : StoresCStrings s.workers.state.storage)
    (hfits : r.Fits) (tooBig : Nat → Bytes → Bool) :
    ∃ body, Conveys s.workers.state.storage tooBig r body := by
  obtain ⟨t, e, api, hthread, hhead, -, hdata, hstored, hnames⟩ := hb
  obtain ⟨hprintable, hread⟩ := entries_of_attributed hnames fun row hrow =>
    printableRow_of_stored hc (hstored row hrow) (hfits.times row hrow)
  have hclock : e.pre.clock < 2 ^ 64 := hfits.clock t hthread e hhead
  refine ⟨_, hdata, ?_⟩
  unfold batchShown
  rw [parseMsgResponse_body hprintable (parse_messagesBody hprintable hclock tooBig)]
  dsimp only
  rw [List.forall₂_map_right_iff]
  exact hread.imp fun _ _ hentry => hentry.shown

theorem exists_forall₂ {α β : Type} {R : α → β → Prop} {as : List α} (h : ∀ a ∈ as, ∃ b, R a b) :
    ∃ bs, List.Forall₂ R as bs := by
  induction as with
  | nil => exact ⟨[], .nil⟩
  | cons a as ih =>
    obtain ⟨⟨b, hb⟩, hrest⟩ := List.forall_mem_cons.mp h
    obtain ⟨bs, hbs⟩ := ih hrest
    exact ⟨b :: bs, .cons hb hbs⟩

theorem length_le_buildApiOkResponse (body : Bytes) :
    body.length ≤ (buildApiOkResponse body).length := by
  unfold buildApiOkResponse
  rw [List.length_append]
  exact Nat.le_add_left _ _

/-- Responses that are written one after the other are decoded one after the other. -/
theorem decodeTimes_okResponses (z : Zlib) {bodies : List Bytes}
    (hsize : ∀ body ∈ bodies, body.length < 2 ^ 64) :
    decodeTimes z (bodies.map buildApiOkResponse).length (bodies.map buildApiOkResponse).flatten =
      (bodies.map fun body => .handler none (Net.Message.okResponse body).reply, []) := by
  have hvalid : ∀ m ∈ bodies.map Net.Message.okResponse, m.Valid := by
    intro m hm
    obtain ⟨body, hbody, rfl⟩ := List.mem_map.mp hm
    exact ⟨hsize body hbody, trivial⟩
  have htimes : decodeTimes z (bodies.map Net.Message.okResponse).length
      ((bodies.map Net.Message.okResponse).flatMap Net.Message.encode) =
      ((bodies.map Net.Message.okResponse).map fun m => .handler none m.reply, []) :=
    parseTimes_flatMap (fun m hm => Net.Message.decode_encode z hm) (fun _ => rfl) hvalid
  rw [List.length_map, List.flatMap_map, List.map_map] at htimes
  rw [List.length_map, ← List.flatMap_def]
  exact htimes

/-- The bodies of the responses, the first of which is the acknowledgement. -/
theorem Streamed.bodies (hs : Streamed env c params w)
    (hfits : ∀ r ∈ w.responses, r.Fits) (tooBig : Nat → Bytes → Bool) : ∃ bodies : List Bytes,
      w.responses.map (·.data) = bodies.map buildApiOkResponse ∧
      (∀ body ∈ bodies, body.length < 2 ^ 64) ∧
      List.Forall₂ (Conveys w.system.workers.state.storage tooBig) w.responses.tail bodies.tail := by
  obtain ⟨body, ack, batches, hresponses, hack, hbatches⟩ := hs.responses
  rw [hresponses] at hfits
  obtain ⟨-, hrest⟩ := List.forall_mem_cons.mp hfits
  have hclean := storesCStrings_of_run hs.run
  obtain ⟨rest, hall⟩ := exists_forall₂ fun r hr =>
    (hbatches r hr).conveys hclean (hrest r hr) tooBig
  have hdata : (ack :: batches).map (·.data) = (body :: rest).map buildApiOkResponse := by
    rw [List.map_cons, List.map_cons, hack, List.cons.injEq]
    refine ⟨rfl, List.forall₂_eq_eq_eq ▸ ?_⟩
    rw [List.forall₂_map_left_iff, List.forall₂_map_right_iff]
    exact hall.imp fun _ _ hone => hone.data
  refine ⟨body :: rest, hresponses ▸ hdata, ?_, hresponses ▸ hall⟩
  intro b hb
  have hin : buildApiOkResponse b ∈ (ack :: batches).map (·.data) := by
    rw [hdata]
    exact List.mem_map_of_mem hb
  obtain ⟨r, hr, heq⟩ := List.mem_map.mp hin
  have hsize := (hfits r hr).size
  rw [heq] at hsize
  exact Nat.lt_of_le_of_lt (length_le_buildApiOkResponse b) hsize

end

/-- Take a connection that has sent its first `IDLE` request for a stored user, and a run in
which its responses are written one at a time and without an error. However the bytes that have
been written arrive, the client reads one reply for each response, and while these come on its
idle connection it shows the messages of the responses, each once and in their order, with
their texts and the names of their senders and chats. -/
theorem idle_messages_shown (env : Extern) (c : Nat) (params : Params) (w₀ w : Line)
    (hstart : IdleBegins env c params w₀) (h : Run (Line.step env c) (InTurn c) w₀ w)
    (hfits : ∀ r ∈ w.responses, r.Fits) (z : Zlib)
    (socket : TcpClient) (hunread : socket.unread = w.written.flatten)
    (tooBig : Nat → Bytes → Bool) (server : Bytes) : ∃ replies socket',
      asyncResponses z w.written.length socket =
        some (replies.map fun reply => .handler none reply, socket') ∧
      socket'.unread = [] ∧ ∀ (client client' : Client) (as : List Client.Action),
        client.idleState = false → (∀ a ∈ as, IdleHolds a) →
        runList (Client.step (GenericReader.parse tooBig)) anyStep client as = some client' →
        idleReplies as = replies →
        List.Forall₂ (ShownAs w.system.workers.state.storage)
          ((w.responses.take w.written.length).tail.flatMap rowsOf)
          (displayedIdle (GenericReader.parse tooBig) server client as) := by
  have hs := streamed_run hstart h
  obtain ⟨bodies, hdata, hsize, hall⟩ := hs.bodies hfits tooBig
  have hwritten : w.written = (bodies.take w.written.length).map buildApiOkResponse := by
    rw [List.map_take, ← hdata, hs.wire, List.take_left]
  have hsmall : ∀ body ∈ bodies.take w.written.length, body.length < 2 ^ 64 :=
    fun body hbody => hsize body (List.mem_of_mem_take hbody)
  have hdecoded := decodeTimes_okResponses z hsmall
  rw [← hwritten] at hdecoded
  obtain ⟨socket', hcalls, hrest⟩ := asyncResponses_yields z w.written.length _ socket hunread
  rw [hdecoded] at hcalls hrest
  refine ⟨(bodies.take w.written.length).map fun body => (Net.Message.okResponse body).reply,
    socket', ?_, hrest, ?_⟩
  · rw [hcalls, List.map_map]
    rfl
  · intro client client' as hstate hholds hclient hreplies
    rw [displayedIdle_start hstate hholds hclient, hreplies, ← List.map_tail, List.flatMap_map,
      List.tail_take_eq_take_tail, List.tail_take_eq_take_tail]
    exact List.rel_flatMap (List.forall₂_take _ hall) fun _ _ hone => hone.shown

namespace Sample

/-- A client that waits for a reply on its idle connection. -/
def waiting : Client := { user := [], password := [], httpIdle := { reads := 1 }, idleIsOpen := true }

def readIdle (replies : List HttpReply) : List Client.Action :=
  replies.map fun reply => .idleRead .current (some reply)

def repliesOf (outcomes : List Net.Outcome) : List HttpReply :=
  outcomes.filterMap fun
    | .handler none reply => some reply
    | _ => none

theorem repliesOf_map (replies : List HttpReply) :
    repliesOf (replies.map fun reply => .handler none reply) = replies := by
  unfold repliesOf
  rw [List.filterMap_map]
  exact List.filterMap_some

theorem idleReplies_readIdle (replies : List HttpReply) :
    idleReplies (readIdle replies) = replies := by
  unfold idleReplies readIdle
  rw [List.filterMap_map]
  exact List.filterMap_some

def lineFits (w : Line) : Bool :=
  w.responses.all fun r => r.data.length < 2 ^ 64 ∧
    (∀ t ∈ r.thread, ∀ e ∈ t.hist.head?, e.pre.clock < 2 ^ 64) ∧ ∀ row ∈ rowsOf r, row.ts < 2 ^ 64

theorem fits_of_lineFits {w : Line} (h : lineFits w = true) : ∀ r ∈ w.responses, r.Fits := by
  intro r hr
  obtain ⟨hsize, hclock, htimes⟩ := of_decide_eq_true (List.all_eq_true.mp h r hr)
  exact ⟨hsize, hclock, htimes⟩

/-- Amy's `IDLE` request on connection 1, two messages for her and a poll that brings them; `p`
checks what has been written. -/
def idleLine (p : Line → Bool) : Bool :=
  (runList (System.step idleExt) anyStep {} (amyRegisters ++ [.handshake 1 false])).any
    fun s₀ => (s₀.clients 1).received = [] && Registered idleExt amy s₀.workers.state.storage &&
      parseMeta idleExt (s₀.clients 1).requestDetails.params amyIdles.body .idle = some ([], amy) &&
      (Line.step idleExt 1 { system := s₀ } (.readDone 1 (some amyIdles))).any fun w₀ =>
        (runList (Line.step idleExt 1) (InTurn 1) w₀ (pollAfter noteAndHello 4 11)).any p

/-- The newer message comes first. -/
def noteAndHelloShown : List Shown :=
  [.message { fromUser := bytes "bob", toUser := bytes "amy", message := bytes "hello" },
    .message { fromUser := bytes "amy", toUser := bytes "amy", message := bytes "note" }]

theorem exists_idleLine {p : Line → Bool} (h : idleLine p = true) :
    ∃ w₀ w, IdleBegins idleExt 1 amy w₀ ∧ Run (Line.step idleExt 1) (InTurn 1) w₀ w ∧
      p w = true := by
  obtain ⟨s₀, hlist, hp⟩ := (Option.any_eq_true _ _).mp h
  simp only [Bool.and_eq_true, decide_eq_true_eq] at hp
  obtain ⟨⟨⟨hnone, huser⟩, hparse⟩, hrest⟩ := hp
  obtain ⟨w₀, hstep, hp⟩ := (Option.any_eq_true _ _).mp hrest
  obtain ⟨w, hrun, hp⟩ := exists_run hp
  refine ⟨w₀, w, ?_, hrun, hp⟩
  exact .request s₀ amyIdles (Run.of_runList .refl hlist) (by simp [hnone]) (by decide) hparse
    huser hstep

end Sample

theorem idle_messages_shown_two_senders : ∃ w : Line,
    List.Forall₂ (ShownAs w.system.workers.state.storage) (w.responses.tail.flatMap rowsOf)
      Sample.noteAndHelloShown := by
  have hlist : Sample.idleLine (fun w => Sample.lineFits w && decide (w.written.length = 2) &&
      decide (w.responses.length = 2) &&
      (asyncResponses Net.Sample.outOfMemory 2 (Sample.inTwoSegments w.written.flatten)).any
        fun done => (runList (Client.step (GenericReader.parse fun _ _ => false)) anyStep
          Sample.waiting (Sample.readIdle (Sample.repliesOf done.1))).isSome &&
          ((Sample.repliesOf done.1).all fun reply => isError (some reply) = false) &&
          decide (displayedIdle (GenericReader.parse fun _ _ => false) [] Sample.waiting
            (Sample.readIdle (Sample.repliesOf done.1)) = Sample.noteAndHelloShown)) = true := by
    decide +kernel
  obtain ⟨w₀, w, hstart, hrun, hfacts⟩ := Sample.exists_idleLine hlist
  simp only [Bool.and_eq_true, decide_eq_true_eq] at hfacts
  obtain ⟨⟨⟨hfits, htwo⟩, hlen⟩, hany⟩ := hfacts
  obtain ⟨⟨outcomes, socket⟩, hcalls, hclient⟩ := (Option.any_eq_true _ _).mp hany
  obtain ⟨replies, socket', hread, -, hshown⟩ := idle_messages_shown Sample.idleExt 1 Sample.amy w₀ w
    hstart hrun (Sample.fits_of_lineFits hfits) Net.Sample.outOfMemory
    (Sample.inTwoSegments w.written.flatten)
    ((Sample.unread_inTwoSegments _).trans (List.append_nil _)) (fun _ _ => false) []
  rw [htwo, hcalls] at hread
  obtain ⟨rfl, -⟩ := Prod.mk.inj (Option.some.inj hread)
  simp only [Sample.repliesOf_map, Bool.and_eq_true, decide_eq_true_eq] at hclient
  obtain ⟨⟨hruns, hok⟩, hlines⟩ := hclient
  obtain ⟨client', hclient⟩ := Option.isSome_iff_exists.mp hruns
  have hholds : ∀ a ∈ Sample.readIdle replies, IdleHolds a := by
    intro a ha
    obtain ⟨reply, hreply, rfl⟩ := List.mem_map.mp ha
    have hnot : isError (some reply) = false := by simpa using List.all_eq_true.mp hok reply hreply
    exact hnot
  have hall := hshown Sample.waiting client' _ rfl hholds hclient (Sample.idleReplies_readIdle replies)
  rw [htwo, List.take_of_length_le (Nat.le_of_eq hlen), hlines] at hall
  exact ⟨w, hall⟩

end O2Chat.Server
