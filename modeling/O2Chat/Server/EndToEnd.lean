import O2Chat.Common.WriterSpec
import O2Chat.Server.Batches
import O2Chat.Server.CStrings
import O2Chat.Server.Carried

/-!
# From the bytes of a client to the tasks of the server

The server with the sockets of its connections: a read takes what `asyncResponse` makes of the
bytes that arrive. The reads of a connection share one buffer; once a read has started while
another was outstanding, what they make of the bytes is left open. The bodies are parsed by
rapidjson's reader, so nothing is assumed of it.
-/
namespace O2Chat.Client

open O2Chat.Common

/-! ## The documents that the client writes -/

/-- The calls that write a value. -/
def Value.doc : Value → Writer.Doc
  | .string s => .string s
  | .uint64 n => .uint64 (UInt64.ofNat n)

def Members.doc (members : Members) : Writer.Doc := .object (members.map fun m => (m.1, m.2.doc))

/-- The numbers are `uint64_t`. -/
def Value.Sized : Value → Prop
  | .string _ => True
  | .uint64 n => n < 2 ^ 64

/-- The names are C strings. -/
def Members.Writable (members : Members) : Prop := ∀ m ∈ members, 0 ∉ bytes m.1 ∧ m.2.Sized

theorem Value.doc_eq {value : Value} (h : value.Sized) :
    value.doc.text = value.text ∧ value.doc.value = value.json := by
  cases value with
  | string s => exact ⟨rfl, rfl⟩
  | uint64 n =>
    have hn : (UInt64.ofNat n).toNat = n := UInt64.toNat_ofNat_of_lt h
    constructor
    · show Writer.uint64 (UInt64.ofNat n).toNat = Writer.uint64 n
      rw [hn]
    · show Json.int (UInt64.ofNat n).toNat = Json.int n
      rw [hn]

theorem Members.doc_eq {members : Members} (h : members.Writable) :
    members.doc.text = members.text ∧ members.doc.value = members.json := by
  constructor
  · rw [Members.doc, Writer.Doc.text, Writer.Doc.memberTexts_eq, List.map_map, Members.text]
    refine congrArg Writer.object (List.map_congr_left fun m hm => ?_)
    simp [(Value.doc_eq (h m hm).2).1]
  · rw [Members.doc, Writer.Doc.value, Writer.Doc.memberValues_eq, List.map_map, Members.json]
    refine congrArg Json.object (List.map_congr_left fun m hm => ?_)
    simp [(Value.doc_eq (h m hm).2).2, Server.cstr_eq (h m hm).1]

/-- The reader reads back the members that the client has written. -/
theorem Members.parse_text {members : Members} (h : members.Writable)
    (tooBig : Nat → Bytes → Bool) :
    GenericReader.parse tooBig members.text = some members.json := by
  obtain ⟨htext, hvalue⟩ := Members.doc_eq h
  rw [← htext, ← hvalue]
  exact Writer.parse_text tooBig members.doc

theorem writable_nil : Members.Writable [] := by simp [Members.Writable]

theorem writable_cons {name : String} {value : Value} {members : Members} (hname : 0 ∉ bytes name)
    (hvalue : value.Sized) (h : members.Writable) :
    Members.Writable ((name, value) :: members) :=
  List.forall_mem_cons.mpr ⟨⟨hname, hvalue⟩, h⟩

theorem writable_append {members rest : Members} (h : members.Writable) (hrest : rest.Writable) :
    Members.Writable (members ++ rest) := List.forall_mem_append.mpr ⟨h, hrest⟩

theorem writable_userPassBody (user pass : Bytes) : (buildUserPassBody user pass).Writable :=
  writable_cons (by decide) trivial (writable_cons (by decide) trivial writable_nil)

theorem writable_userSendMsgBody {uid ts : Nat} (huid : uid < 2 ^ 64) (hts : ts < 2 ^ 64)
    (toUser msg pass : Bytes) : (buildUserSendMsgBody uid ts toUser msg pass).Writable := by
  have hheartbit : Members.Writable (if ts ≠ 0 then [("heartbit", .uint64 ts)] else []) := by
    split
    · exact writable_cons (by decide) hts writable_nil
    · exact writable_nil
  have hrest : Members.Writable
      [("to", .string toUser), ("message", .string msg), ("password", .string pass)] :=
    writable_cons (by decide) trivial
      (writable_cons (by decide) trivial (writable_cons (by decide) trivial writable_nil))
  exact writable_append (writable_append (writable_cons (by decide) huid writable_nil) hheartbit) hrest

theorem writable_userHistoryMsgBody {uid count : Nat} (huid : uid < 2 ^ 64) (hcount : count < 2 ^ 64)
    (name pass : Bytes) : (buildUserHistoryMsgBody uid name count pass).Writable :=
  writable_cons (by decide) huid (writable_cons (by decide) trivial
    (writable_cons (by decide) hcount (writable_cons (by decide) trivial writable_nil)))

theorem writable_groupsMsgBody {uid : Nat} (huid : uid < 2 ^ 64)
    (groupname username message pass : Bytes) :
    (buildGroupsMsgBody uid groupname username message pass).Writable := by
  have hoption {name : String} (hname : 0 ∉ bytes name) (s : Bytes) :
      Members.Writable (if s ≠ [] then [(name, .string s)] else []) := by
    split
    · exact writable_cons hname trivial writable_nil
    · exact writable_nil
  have hfirst : Members.Writable [("uid", .uint64 uid), ("chatname", .string groupname)] :=
    writable_cons (by decide) huid (writable_cons (by decide) trivial writable_nil)
  exact writable_append (writable_append (writable_append hfirst (hoption (by decide) username))
    (hoption (by decide) message)) (writable_cons (by decide) trivial writable_nil)

namespace Request

open O2Chat.Server

theorem writable {r : Request} (h : r.ArgumentsOk) : r.members.Writable := by
  have hsize {n : Nat} (hn : n < 2 ^ 32) : n < 2 ^ 64 := Nat.lt_trans hn (by decide)
  cases r with
  | userCreate user pass => exact writable_userPassBody user pass
  | userLogin user pass => exact writable_userPassBody user pass
  | messageSend uid toUser msg pass =>
    exact writable_userSendMsgBody (hsize h.1) (by decide) toUser msg pass
  | messageSendChat uid chat msg pass =>
    exact writable_groupsMsgBody (hsize h.1) chat [] msg pass
  | userHistory uid user count pass =>
    exact writable_userHistoryMsgBody (hsize h.1) (hsize h.2.2.1) user pass
  | userStatus uid user pass => exact writable_userHistoryMsgBody (hsize h.1) (by decide) user pass
  | chatCreate uid chat pass => exact writable_groupsMsgBody (hsize h.1) chat [] [] pass
  | chatAdduser uid chat adduser pass => exact writable_groupsMsgBody (hsize h.1) chat adduser [] pass
  | idle uid heartbit pass => exact writable_userSendMsgBody (hsize h.1) (hsize h.2.1) [] [] pass

/-- The server's reader makes of the body what the client has put in. -/
theorem parse_body {r : Request} (h : r.ArgumentsOk) (tooBig : Nat → Bytes → Bool) :
    GenericReader.parse tooBig r.body = some r.members.json :=
  Members.parse_text (writable h) tooBig

end Request

end O2Chat.Client

namespace O2Chat.Server

open O2Chat.Common O2Chat.Db O2Chat.Client O2Chat.Net O2Chat.Lib.Interleaving O2Chat.Lib.Runs
  O2Chat.Lib.Stream

section

variable {env : Extern} {r : Request}

/-! ## One request -/

/-- What a request of the client puts into the queue. The worker reads the client's values. -/
structure Enqueued (env : Extern) (c : Nat) (r : Request) (tasks : List Task) : Prop where
  accepted : r.Accepted env → r.cmd ≠ .idle → ∃ task, tasks = [task] ∧ task.cmd = r.cmd ∧
    task.client = c ∧ readParams task = readOf r.cmd r.params
  idle : r.cmd = .idle → tasks = []
  refused : ¬ r.Accepted env → tasks = []

theorem asyncResponse_request (z : Zlib) (r : Request) (hsize : r.body.length < 2 ^ 64)
    (rest : Bytes) : Yields (asyncResponse z) (r.text ++ rest) (.handler none (readAs r)) rest := by
  have hvalid : (Message.request (cmd2string r.cmd) (bytes "application/json") r.body).Valid := by
    have hline : ∀ cmd : Cmd, 32 ∉ cmd2string cmd ∧ CR ∉ cmd2string cmd ∧ LF ∉ cmd2string cmd := by
      intro cmd
      cases cmd <;> decide +kernel
    obtain ⟨hspace, hcr, hlf⟩ := hline r.cmd
    refine ⟨hsize, hspace, hcr, hlf, by decide, by decide, ?_⟩
    intro b hb
    obtain rfl : 97 = b := Option.some.inj hb
    decide
  have hdecode := Message.decode_encode z hvalid rest
  have hyields := asyncResponse_yields z (r.text ++ rest)
  have htext : r.text ++ rest =
    (Message.request (cmd2string r.cmd) (bytes "application/json") r.body).encode ++ rest := rfl
  rw [htext, hdecode] at hyields
  exact hyields

/-- Whatever was requested before, an accepted request leaves its own values in the parameters
that its worker reads. -/
theorem parseMeta_again (hargs : r.ArgumentsOk) (hparse : env.parse r.body = some r.members.json)
    (params : Params) : ∃ err params', parseMeta env params r.body r.cmd = some (err, params') ∧
      (err = [] ↔ r.Accepted env) ∧
      (err = [] → r.cmd ≠ .idle → readOf r.cmd params' = readOf r.cmd r.params) := by
  have hbody : cstr r.body = r.body := cstr_eq (members_ne_zero _)
  have herr := parseMeta_err env params {} r.body r.cmd
  by_cases hok : r.Accepted env
  · have hfresh := parseMeta_request hargs hparse hok
    rw [hfresh] at herr
    obtain ⟨⟨err, params'⟩, hmeta, rfl⟩ := Option.map_eq_some_iff.mp herr
    refine ⟨[], params', hmeta, iff_of_true rfl hok, fun _ hidle => ?_⟩
    obtain ⟨doc, hdoc, hfill⟩ := parseMeta_accepted hmeta
    obtain ⟨doc', hdoc', hfill'⟩ := parseMeta_accepted hfresh
    rw [hbody, hparse] at hdoc hdoc'
    obtain rfl := Option.some.inj hdoc
    obtain rfl := Option.some.inj hdoc'
    rw [hfill, hfill', readOf_fill hidle]
    cases r with
    | userHistory uid user count pass =>
      obtain ⟨-, -, hcount, -⟩ := hargs
      obtain ⟨-, -, hvcount, -⟩ := userHistoryMsgBody_values uid user count pass
      have hfound := findUint_json hvcount hcount
      refine .inr (.inl ?_)
      show (uintOf _ "count").isSome = true
      rw [uintOf, Request.members, hfound]
      rfl
    | _ => exact .inl (by simp [Request.cmd])
  · obtain ⟨weak, hweak⟩ := parseMeta_weak hargs hparse hok
    have hne : bytes "weak password" ≠ [] := by decide
    rw [hweak] at herr
    obtain ⟨⟨err, params'⟩, hmeta, rfl⟩ := Option.map_eq_some_iff.mp herr
    exact ⟨_, params', hmeta, iff_of_false hne hok, fun hnil => absurd hnil hne⟩

/-- On a connection in any state. -/
theorem handler_enqueues (hargs : r.ArgumentsOk) (hparse : env.parse r.body = some r.members.json)
    (c now : Nat) (client : ApiClient) : ∃ client' tasks,
    client.requestFromClientReadHandler env c now (readAs r) = some (client', tasks) ∧
      Enqueued env c r tasks := by
  obtain ⟨err, params, hmeta, hok, hread⟩ :=
    parseMeta_again hargs hparse client.requestDetails.params
  have hbody : (readAs r).body = r.body := rfl
  have hresource : lowercased (readAs r).resource = cmd2string r.cmd := lowercased_route r.cmd
  have hparams (cmd : Cmd) : ((client.noteRequest (readAs r)).setCommand cmd).requestDetails.params =
      client.requestDetails.params := rfl
  unfold ApiClient.requestFromClientReadHandler
  dsimp only
  by_cases hidle : r.cmd = .idle
  · have hnone : Enqueued env c r [] := ⟨fun _ hnot => absurd hidle hnot, fun _ => rfl, fun _ => rfl⟩
    have hroute : cmd2string r.cmd = bytes "/v1/idle" := by rw [hidle, cmd2string]
    rw [hidle] at hmeta
    rw [hresource, if_pos hroute]
    unfold ApiClient.idleHandler
    dsimp only
    rw [hparams, hbody, hmeta]
    dsimp only
    split
    · exact ⟨_, _, rfl, hnone⟩
    · exact ⟨_, _, rfl, hnone⟩
  · have htype : ApiClient.allowedContentType ((readAs r).getHeader (bytes "Content-Type")) = true :=
      rfl
    rw [hresource, if_neg (cmd2string_ne_idle hidle), route_request hidle]
    dsimp only
    unfold ApiClient.v1Handler ApiClient.handlerImpl
    rw [if_pos htype, hparams, hbody, hmeta]
    dsimp only
    by_cases herr : err = []
    · rw [if_neg (not_not.mpr herr)]
      refine ⟨_, _, rfl, fun _ _ => ⟨_, rfl, ?_⟩, fun h => absurd h hidle,
        fun hnot => absurd (hok.mp herr) hnot⟩
      have hvalues := hread herr hidle
      split
      · exact ⟨rfl, rfl, hvalues⟩
      · exact ⟨rfl, rfl, hvalues⟩
    · rw [if_pos herr]
      exact ⟨_, _, rfl, fun hyes _ => absurd (hok.mpr hyes) herr, fun _ => rfl, fun _ => rfl⟩

end

/-! ## The server and its sockets -/

/-- `overlapped`: a second `asyncResponse` of the connection was called before the first had
completed, and two reads share one buffer. `enqueued` is a history variable: what each request of
a connection has put into the queue. -/
structure Wire where
  server : System := {}
  sockets : Nat → TcpClient
  overlapped : Nat → Bool := fun _ => false
  enqueued : Nat → List (List Task) := fun _ => []

inductive WireAction
  /-- `asyncResponse` of a connection completes -/
  | read (c : Nat)
  /-- `asyncResponse` of a connection whose reads have overlapped completes somehow -/
  | garbled (c : Nat) (req : Option HttpReply) (client : TcpClient)
  /-- anything else that happens in the server -/
  | other (a : Action)

namespace Wire

def setSocket (w : Wire) (c : Nat) (client : TcpClient) : Wire :=
  { w with sockets := fun d => if d = c then client else w.sockets d }

def noteTasks (w : Wire) (c : Nat) (tasks : List Task) : Wire :=
  { w with enqueued := fun d => if d = c then w.enqueued c ++ [tasks] else w.enqueued d }

/-- The server has made a step. -/
def advance (w : Wire) (s : System) : Wire :=
  { w with
    server := s
    overlapped := fun c => w.overlapped c || decide (1 < (s.clients c).reads) }

/-- A socket has the bytes that will have arrived when they are read. -/
def step (env : Extern) (z : Zlib) (w : Wire) : WireAction → Option Wire
  | .read c =>
    if w.overlapped c = true then none
    else match asyncResponse z (w.sockets c) with
    | some (.handler none reply, client) =>
      (w.server.step env (.readDone c (some reply))).map fun s =>
        ((w.advance s).setSocket c client).noteTasks c (s.queue.drop w.server.queue.length)
    | some (.handler (some _) _, client) =>
      (w.server.step env (.readDone c none)).map fun s => (w.advance s).setSocket c client
    | _ => none
  | .garbled c req client =>
    if w.overlapped c = false then none
    else (w.server.step env (.readDone c req)).map fun s =>
      let w' := (w.advance s).setSocket c client
      if req = none then w' else w'.noteTasks c (s.queue.drop w.server.queue.length)
  | .other (.readDone _ _) => none
  | .other a => (w.server.step env a).map w.advance

/-- Connection `c` has at most one read outstanding. -/
def ReadsAlone (c : Nat) (w : Wire) (_ : WireAction) : Prop := (w.server.clients c).reads ≤ 1

instance (c : Nat) (w : Wire) (a : WireAction) : Decidable (ReadsAlone c w a) :=
  inferInstanceAs (Decidable (_ ≤ _))

section

variable {env : Extern} {z : Zlib} {w w' : Wire} {c d : Nat}

theorem step_read (h : w.step env z (.read d) = some w') :
    w.overlapped d = false ∧ ∃ error reply client s,
      asyncResponse z (w.sockets d) = some (.handler error reply, client) ∧
      w.server.step env (.readDone d (if error = none then some reply else none)) = some s ∧
      w'.server = s ∧ w'.overlapped = (w.advance s).overlapped ∧
      w'.sockets = (w.setSocket d client).sockets ∧
      w'.enqueued = if error = none then
        (w.noteTasks d (s.queue.drop w.server.queue.length)).enqueued else w.enqueued := by
  obtain ⟨halone, hread⟩ := Option.ite_none_left_eq_some.mp h
  refine ⟨by simpa using halone, ?_⟩
  split at hread
  · rename_i reply client hcall
    obtain ⟨s, hs, rfl⟩ := Option.map_eq_some_iff.mp hread
    exact ⟨none, reply, client, s, hcall, hs, rfl, rfl, rfl, rfl⟩
  · rename_i code reply client hcall
    obtain ⟨s, hs, rfl⟩ := Option.map_eq_some_iff.mp hread
    exact ⟨some code, reply, client, s, hcall, hs, rfl, rfl, rfl, rfl⟩
  · cases hread

theorem step_garbled {req : Option HttpReply} {client : TcpClient}
    (h : w.step env z (.garbled d req client) = some w') :
    w.overlapped d = true ∧ ∃ s, w.server.step env (.readDone d req) = some s ∧
      w'.server = s ∧ w'.overlapped = (w.advance s).overlapped ∧
      w'.sockets = (w.setSocket d client).sockets ∧
      w'.enqueued = if req = none then w.enqueued else
        (w.noteTasks d (s.queue.drop w.server.queue.length)).enqueued := by
  obtain ⟨hover, hread⟩ := Option.ite_none_left_eq_some.mp h
  obtain ⟨s, hs, rfl⟩ := Option.map_eq_some_iff.mp hread
  refine ⟨by simpa using hover, s, hs, ?_⟩
  by_cases hreq : req = none
  · rw [if_pos hreq, if_pos hreq]
    exact ⟨rfl, rfl, rfl, rfl⟩
  · rw [if_neg hreq, if_neg hreq]
    exact ⟨rfl, rfl, rfl, rfl⟩

theorem step_other {a : Action} (h : w.step env z (.other a) = some w') :
    (∀ d req, a ≠ .readDone d req) ∧ ∃ s, w.server.step env a = some s ∧ w' = w.advance s := by
  unfold step at h
  cases a with
  | readDone d req => cases h
  | _ =>
    obtain ⟨s, hs, rfl⟩ := Option.map_eq_some_iff.mp h
    exact ⟨by simp, s, hs, rfl⟩

/-- Every step is one of the server. -/
theorem step_server {a : WireAction} (h : w.step env z a = some w') :
    (∃ b, w.server.step env b = some w'.server) ∧
      w'.overlapped = (w.advance w'.server).overlapped := by
  cases a with
  | read d =>
    obtain ⟨-, error, reply, client, s, -, hs, rfl, hover, -⟩ := step_read h
    exact ⟨⟨_, hs⟩, hover⟩
  | garbled d req client =>
    obtain ⟨-, s, hs, rfl, hover, -⟩ := step_garbled h
    exact ⟨⟨_, hs⟩, hover⟩
  | other a =>
    obtain ⟨-, s, hs, rfl⟩ := step_other h
    exact ⟨⟨_, hs⟩, rfl⟩

/-- The server with its sockets runs as the server does. -/
theorem server_run {w₀ : Wire} {ok : Wire → WireAction → Prop}
    (h : Run (Wire.step env z) ok w₀ w) : Run (System.step env) anyStep w₀.server w.server := by
  refine h.map Wire.server fun w a w' _ hstep => ?_
  obtain ⟨⟨b, hb⟩, -⟩ := step_server hstep
  exact .tail .refl trivial hb

/-- Reads that have never overlapped do so in a step that leaves two of them outstanding. -/
theorem overlapped_step {a : WireAction} (h : w.step env z a = some w')
    (halone : w.overlapped c = false) (hover : w'.overlapped c = true) :
    1 < (w'.server.clients c).reads := by
  rw [(step_server h).2, advance] at hover
  simpa [halone] using hover

end

end Wire

/-! ## A connection of a client -/

section

variable {env : Extern} {z : Zlib} {w w' : Wire} {c : Nat} {rs : List Request} {k : Nat}

/-- The first `k` requests that the client has written have been read, and reads have not
overlapped before now. -/
structure Progress (env : Extern) (c : Nat) (rs : List Request) (w : Wire) (k : Nat) : Prop where
  le : k ≤ rs.length
  alone : w.overlapped c = true → 1 < (w.server.clients c).reads
  received : (w.server.clients c).received = ((rs.take k).map readAs).reverse
  unread : (w.sockets c).unread = (rs.drop k).flatMap Request.text
  enqueued : List.Forall₂ (Enqueued env c) (rs.take k) (w.enqueued c)

/-- What a client may write: any of its requests, with bodies whose size is a `size_t`. -/
structure Writes (env : Extern) (r : Request) : Prop where
  args : r.ArgumentsOk
  size : r.body.length < 2 ^ 64
  parse : env.parse r.body = some r.members.json

theorem other_received {a : Action} {s s' : System} (h : s.step env a = some s')
    (hother : ∀ req, a ≠ .readDone c (some req)) :
    (s'.clients c).received = (s.clients c).received := by
  obtain hsame | ⟨req, ha, -⟩ := received_step (c := c) h
  · exact hsame
  · exact absurd ha (hother _)

/-- The next request is read as it was written. -/
theorem Progress.next (hp : Progress env c rs w k) (hwrites : ∀ r ∈ rs, Writes env r)
    (hk : k < rs.length) : ∃ client, asyncResponse z (w.sockets c) =
      some (.handler none (readAs rs[k]), client) ∧
      client.unread = (rs.drop (k + 1)).flatMap Request.text := by
  have hunread := hp.unread
  rw [List.drop_eq_getElem_cons hk, List.flatMap_cons] at hunread
  have hsize := (hwrites rs[k] (List.getElem_mem hk)).size
  exact asyncResponse_request z rs[k] hsize _ (w.sockets c) hunread

theorem Progress.apart (hp : Progress env c rs w k) {a : WireAction} (hok : Wire.ReadsAlone c w a) :
    w.overlapped c = false := by
  rw [Bool.eq_false_iff]
  exact fun hover => absurd (hp.alone hover) (Nat.not_lt.mpr hok)

theorem Progress.read (hp : Progress env c rs w k) (hwrites : ∀ r ∈ rs, Writes env r)
    (h : w.step env z (.read c) = some w') : ∃ k', Progress env c rs w' k' := by
  obtain ⟨hapart, error, reply, client, s, hread, hs, rfl, -, hsockets, henqueued⟩ :=
    Wire.step_read h
  have halone := Wire.overlapped_step h hapart
  have hsocket : w'.sockets c = client := by simp [hsockets, Wire.setSocket]
  obtain hk | hk := Nat.lt_or_ge k rs.length
  · obtain ⟨client', hnext, hrest⟩ := hp.next (z := z) hwrites hk
    obtain ⟨houtcome, rfl⟩ := Prod.mk.inj (Option.some.inj (hread.symm.trans hnext))
    obtain ⟨rfl, rfl⟩ := Outcome.handler.inj houtcome
    rw [if_pos rfl] at hs henqueued
    have htake : rs.take (k + 1) = rs.take k ++ [rs[k]] := (List.take_append_getElem hk).symm
    have hdone : w.server.readDone env c (some (readAs rs[k])) = some w'.server := hs
    obtain ⟨-, ⟨hnone, -⟩ | ⟨r, apiClient, tasks, hr, hh, heq⟩⟩ := System.readDone_cases hdone
    · cases hnone
    obtain rfl := Option.some.inj hr
    have hone : Enqueued env c rs[k] tasks := by
      have hwrite := hwrites rs[k] (List.getElem_mem hk)
      obtain ⟨_, tasks', hh', htasks⟩ := handler_enqueues hwrite.args hwrite.parse c w.server.now
        { w.server.clients c with reads := (w.server.clients c).reads - 1 }
      obtain ⟨-, rfl⟩ := Prod.mk.inj (Option.some.inj (hh.symm.trans hh'))
      exact htasks
    refine ⟨k + 1, hk, halone, ?_, by rw [hsocket, hrest], ?_⟩
    · rw [received_readDone hs, hp.received, htake, List.map_append, List.reverse_append]
      rfl
    · have hqueue : w'.server.queue.drop w.server.queue.length = tasks := by
        rw [heq]
        simp
      rw [henqueued, hqueue, htake]
      simpa [Wire.noteTasks] using List.rel_append hp.enqueued (.cons hone .nil)
  · -- All requests have been read: the read ends with an error.
    have hempty : (w.sockets c).unread = [] := by
      rw [hp.unread, List.drop_eq_nil_of_le hk]
      rfl
    obtain ⟨client', hend, hrest⟩ := asyncResponse_yields z [] (w.sockets c) hempty
    obtain ⟨houtcome, rfl⟩ := Prod.mk.inj (Option.some.inj (hread.symm.trans hend))
    have herror : error ≠ none := by
      rintro rfl
      have hmessage : (decode z []).1 = .handler (some .eof) {} := rfl
      rw [hmessage] at houtcome
      cases houtcome
    rw [if_neg herror] at hs henqueued
    refine ⟨k, hp.le, halone, ?_, ?_, henqueued ▸ hp.enqueued⟩
    · rw [other_received hs (by simp)]
      exact hp.received
    · rw [hsocket, hrest, List.drop_eq_nil_of_le hk]
      rfl

/-- What happens elsewhere keeps the requests of the connection. -/
theorem Progress.elsewhere (hp : Progress env c rs w k) {a : Action}
    (hs : w.server.step env a = some w'.server) (hother : ∀ req, a ≠ .readDone c (some req))
    (halone : w'.overlapped c = true → 1 < (w'.server.clients c).reads)
    (hsocket : w'.sockets c = w.sockets c) (henqueued : w'.enqueued c = w.enqueued c) :
    Progress env c rs w' k := by
  refine ⟨hp.le, halone, ?_, ?_, ?_⟩
  · rw [other_received hs hother]
    exact hp.received
  · rw [hsocket]
    exact hp.unread
  · rw [henqueued]
    exact hp.enqueued

theorem Progress.step {a : WireAction} (hp : Progress env c rs w k)
    (hwrites : ∀ r ∈ rs, Writes env r) (hok : Wire.ReadsAlone c w a)
    (h : w.step env z a = some w') : ∃ k', Progress env c rs w' k' := by
  have hapart := hp.apart hok
  have halone := Wire.overlapped_step h hapart
  cases a with
  | read d =>
    by_cases hd : c = d
    · subst hd
      exact hp.read hwrites h
    obtain ⟨-, error, reply, client, s, -, hs, rfl, -, hsockets, henqueued⟩ := Wire.step_read h
    refine ⟨k, hp.elsewhere hs (by simp [Ne.symm hd]) halone ?_ ?_⟩
    · simp [hsockets, Wire.setSocket, hd]
    · rw [henqueued]
      split
      · simp [Wire.noteTasks, hd]
      · rfl
  | garbled d req client =>
    obtain ⟨hover, s, hs, rfl, -, hsockets, henqueued⟩ := Wire.step_garbled h
    have hd : c ≠ d := by
      rintro rfl
      rw [hapart] at hover
      cases hover
    refine ⟨k, hp.elsewhere hs (by simp [Ne.symm hd]) halone ?_ ?_⟩
    · simp [hsockets, Wire.setSocket, hd]
    · rw [henqueued]
      split
      · rfl
      · simp [Wire.noteTasks, hd]
  | other a =>
    obtain ⟨hother, s, hs, rfl⟩ := Wire.step_other h
    exact ⟨k, hp.elsewhere hs (fun req => hother c (some req)) halone rfl rfl⟩

end

/-- However the bytes of any requests of a client arrive, and whatever else the server does, as
long as the connection has at most one read outstanding: the requests that have been read are the
first ones the client has written, each has put the one task that it means, or none when it is
refused or starts the polling, and the next one can be read. -/
theorem requests_arrive (env : Extern) (tooBig : Nat → Bytes → Bool)
    (hparse : env.parse = GenericReader.parse tooBig) (z : Zlib) (c : Nat) (rs : List Request)
    (hargs : ∀ r ∈ rs, r.ArgumentsOk ∧ r.body.length < 2 ^ 64) (sockets : Nat → TcpClient)
    (hsent : (sockets c).unread = rs.flatMap Request.text) (w : Wire)
    (h : Run (Wire.step env z) (Wire.ReadsAlone c) { sockets } w) :
    ∃ k, k ≤ rs.length ∧ (w.server.clients c).received = ((rs.take k).map readAs).reverse ∧
      List.Forall₂ (Enqueued env c) (rs.take k) (w.enqueued c) ∧
      (k < rs.length → (w.server.clients c).reads = 1 → ∃ w', w.step env z (.read c) = some w') := by
  have hwrites : ∀ r ∈ rs, Writes env r := by
    intro r hr
    obtain ⟨hok, hsize⟩ := hargs r hr
    exact ⟨hok, hsize, by rw [hparse]; exact Request.parse_body hok tooBig⟩
  have hstart : ∃ k, Progress env c rs { sockets } k :=
    ⟨0, Nat.zero_le _, fun hover => Bool.noConfusion hover, rfl, hsent, .nil⟩
  obtain ⟨k, hp⟩ := h.invariant (I := fun w => ∃ k, Progress env c rs w k) hstart
    fun _ _ _ ⟨_, hp⟩ hok hstep => hp.step hwrites hok hstep
  refine ⟨k, hp.le, hp.received, hp.enqueued, fun hk hreads => ?_⟩
  obtain ⟨client, hread, -⟩ := hp.next (z := z) hwrites hk
  have hwrite := hwrites rs[k] (List.getElem_mem hk)
  obtain ⟨apiClient, tasks, hh, -⟩ := handler_enqueues hwrite.args hwrite.parse c w.server.now
    { w.server.clients c with reads := (w.server.clients c).reads - 1 }
  have hdone : w.server.step env (.readDone c (some (readAs rs[k]))) =
      some ((w.server.setClient c apiClient).putTasks tasks) := by
    have hsome : (w.server.clients c).reads ≠ 0 := by omega
    show w.server.readDone env c (some (readAs rs[k])) = _
    unfold System.readDone
    rw [if_neg hsome]
    dsimp only
    rw [hh]
    rfl
  have hapart : ¬ w.overlapped c = true := fun hover => by
    have hmany := hp.alone hover
    omega
  unfold Wire.step
  dsimp only
  rw [if_neg hapart, hread]
  dsimp only
  rw [hdone]
  exact ⟨_, rfl⟩

namespace Sample

def readerExt : Extern := .sample (GenericReader.parse fun _ _ => false)

/-- A message and a history with a count, written one after the other. -/
def pipelined : List Request :=
  [greeting, .userHistory 1 (bytes "bob") 5 (bytes "password")]

/-- Both requests in two segments, the cut in the first one. -/
def pipelinedSockets : Nat → TcpClient := fun _ =>
  let text := pipelined.flatMap Request.text
  ⟨[], [text.take 20, text.drop 20]⟩

end Sample

theorem requests_arrive_pipelined : ∃ w,
    Run (Wire.step Sample.readerExt Net.Sample.outOfMemory) (Wire.ReadsAlone 0)
      { sockets := Sample.pipelinedSockets } w ∧ (w.server.clients 0).received.length = 2 ∧
    List.Forall₂ (Enqueued Sample.readerExt 0) Sample.pipelined (w.enqueued 0) := by
  -- The second request is read when the first one has been answered.
  have hlist : (runList (Wire.step Sample.readerExt Net.Sample.outOfMemory) (Wire.ReadsAlone 0)
      { sockets := Sample.pipelinedSockets } [.other (.handshake 0 false), .read 0,
        .other .getTask, .other (.work 0), .other (.work 0), .other (.writeDone 0 0 false),
        .read 0]).any
      (fun w => (w.server.clients 0).received.length = 2) = true := by decide +kernel
  obtain ⟨w, hrun, hw⟩ := exists_run hlist
  have hlen : (w.server.clients 0).received.length = 2 := of_decide_eq_true hw
  have hargs : ∀ r ∈ Sample.pipelined, r.ArgumentsOk ∧ r.body.length < 2 ^ 64 := by
    have hfirst : Sample.greeting.ArgumentsOk := ⟨by decide, by decide, by decide, by decide⟩
    have hsecond : (Request.userHistory 1 (bytes "bob") 5 (bytes "password")).ArgumentsOk :=
      ⟨by decide, by decide, by decide, by decide⟩
    exact List.forall_mem_cons.mpr ⟨⟨hfirst, by decide⟩, List.forall_mem_cons.mpr
      ⟨⟨hsecond, by decide⟩, by simp⟩⟩
  obtain ⟨k, hk, hreceived, htasks, -⟩ := requests_arrive Sample.readerExt (fun _ _ => false) rfl
    Net.Sample.outOfMemory 0 Sample.pipelined hargs Sample.pipelinedSockets (by decide +kernel) w hrun
  have htwo : k = 2 := by
    rw [hreceived, List.length_reverse, List.length_map, List.length_take, Nat.min_eq_left hk] at hlen
    exact hlen
  subst htwo
  exact ⟨w, hrun, hlen, htasks⟩

/-! ## Messages on their way to a client -/

theorem writable_entryMembers {api : ApiMessage} (h : Printable api) :
    (entryMembers api).Writable :=
  writable_cons (by decide) trivial (writable_cons (by decide) trivial
    (writable_cons (by decide) trivial (writable_cons (by decide) h.ts writable_nil)))

/-- The calls that write a batch. -/
def messagesDoc (api : List ApiMessage) (now : Nat) : Writer.Doc :=
  .object [("server_ts", .uint64 (UInt64.ofNat now)),
    ("msgs", .array (api.map fun a => (entryMembers a).doc))]

theorem messagesDoc_eq {api : List ApiMessage} {now : Nat} (h : ∀ a ∈ api, Printable a)
    (hnow : now < 2 ^ 64) : (messagesDoc api now).text = okResponseBodyOfMessages api now ∧
      (messagesDoc api now).value = messagesJson api now := by
  have hts : (UInt64.ofNat now).toNat = now := UInt64.toNat_ofNat_of_lt hnow
  have hkeys : cstr (bytes "server_ts") = bytes "server_ts" ∧ cstr (bytes "msgs") = bytes "msgs" := by
    decide
  have hentries : ∀ a ∈ api, (entryMembers a).doc.text = messageObject a ∧
      (entryMembers a).doc.value = (entryMembers a).json := by
    intro a ha
    exact Members.doc_eq (writable_entryMembers (h a ha))
  constructor
  · have hmap : api.map (fun a => (entryMembers a).doc.text) = api.map messageObject :=
      List.map_congr_left fun a ha => (hentries a ha).1
    simp [messagesDoc, Writer.Doc.text, Writer.Doc.memberTexts, Writer.Doc.elementTexts_eq, hts,
      Function.comp_def, hmap, okResponseBodyOfMessages]
  · have hmap : api.map (fun a => (entryMembers a).doc.value) =
        api.map fun a => (entryMembers a).json :=
      List.map_congr_left fun a ha => (hentries a ha).2
    simp [messagesDoc, Writer.Doc.value, Writer.Doc.memberValues, Writer.Doc.elementValues_eq, hts,
      Function.comp_def, hmap, hkeys, messagesJson]

/-- The reader makes of the body of a batch what the writer has written. -/
theorem parse_messagesBody {api : List ApiMessage} {now : Nat} (h : ∀ a ∈ api, Printable a)
    (hnow : now < 2 ^ 64) (tooBig : Nat → Bytes → Bool) :
    GenericReader.parse tooBig (okResponseBodyOfMessages api now) = some (messagesJson api now) := by
  obtain ⟨htext, hvalue⟩ := messagesDoc_eq h hnow
  rw [← htext, ← hvalue]
  exact Writer.parse_text tooBig _

/-- The names and the text of a stored message are C strings. -/
theorem printableRow_of_stored {st : Storage} {row : Db.Message} (hc : StoresCStrings st)
    (hstored : IsStored st row) (hts : row.ts < 2 ^ 64) : PrintableRow st row := by
  obtain ⟨msg, hmsg, hbody⟩ := hstored
  refine ⟨hts, fun u hu _ => hc.users u hu, fun d hd _ => hc.chats d hd, ?_⟩
  rw [← message_eq_of_body hbody]
  exact hc.messages msg hmsg

/-- In every reachable store, whatever the server does while it looks up the names, and however
the bytes of the response arrive, with times and a size that fit in 64 bits: the client decodes
it, leaves what follows it, and reads one entry for each message. -/
theorem messages_reach_client (env : Extern) (s s' : System)
    (h : Run (System.step env) anyStep {} s) (msgs : List Db.Message)
    (hstored : ∀ msg ∈ msgs, IsStored s.workers.state.storage msg)
    (hts : ∀ msg ∈ msgs, msg.ts < 2 ^ 64)
    (hist : List Event) (api : List ApiMessage) (hr : Reads env s (toApiFormat msgs) s' hist (.pure api))
    (now : Nat) (hnow : now < 2 ^ 64) (hsize : (okResponseBodyOfMessages api now).length < 2 ^ 64)
    (z : Zlib) (tooBig : Nat → Bytes → Bool) (client : TcpClient) (rest : Bytes)
    (hunread : client.unread = buildApiOkResponse (okResponseBodyOfMessages api now) ++ rest) :
    ∃ reply client' entries, asyncResponse z client = some (.handler none reply, client') ∧
      client'.unread = rest ∧ reply.status = 200 ∧
      parseMsgResponse (GenericReader.parse tooBig) reply.body = some (.ok entries) ∧
      List.Forall₂ (ReadAs s.workers.state.storage) msgs entries := by
  have hsafe : s.workers.Safe env := workers_safe (System.workers_run h)
  have hall := toApiFormat_attributed hsafe.inv (hr.seen hsafe) hstored hr.follows
  have hc := storesCStrings_of_run h
  obtain ⟨hprintable, hread⟩ := entries_of_attributed hall fun msg hmsg =>
    printableRow_of_stored hc (hstored msg hmsg) (hts msg hmsg)
  have hvalid : (Net.Message.okResponse (okResponseBodyOfMessages api now)).Valid := ⟨hsize, trivial⟩
  have hyields := asyncResponse_yields z
    ((Net.Message.okResponse (okResponseBodyOfMessages api now)).encode ++ rest)
  rw [Net.Message.decode_encode z hvalid rest] at hyields
  obtain ⟨client', hdecoded, hrest⟩ := hyields client hunread
  exact ⟨_, client', _, hdecoded, hrest, rfl,
    parseMsgResponse_body hprintable (parse_messagesBody hprintable hnow tooBig), hread⟩

namespace Sample

def inTwoSegments (text : Bytes) : TcpClient := ⟨[], [text.take 9, text.drop 9]⟩

theorem unread_inTwoSegments (text : Bytes) : (inTwoSegments text).unread = text ++ [] := by
  show [] ++ [text.take 9, text.drop 9].flatten = text ++ []
  simp

end Sample

theorem messages_reach_client_talk : ∃ s msgs api reply client' entries,
    Run (System.step Sample.talkExt) anyStep {} s ∧ s.workers.state.storage.messages = msgs ∧
      msgs.map (·.userFrom) = [1, 2] ∧
      asyncResponse Net.Sample.outOfMemory
        (Sample.inTwoSegments (buildApiOkResponse (okResponseBodyOfMessages api 7))) =
        some (.handler none reply, client') ∧
      parseMsgResponse (GenericReader.parse fun _ _ => false) reply.body = some (.ok entries) ∧
      List.Forall₂ (ReadAs s.workers.state.storage) msgs entries := by
  have hlist : (runList (System.step Sample.talkExt) anyStep {} Sample.talk).any
      (fun s => s.workers.state.storage.messages.map (·.userFrom) = [1, 2] ∧
        (∀ msg ∈ s.workers.state.storage.messages, msg.ts < 2 ^ 64) ∧
        (okResponseBodyOfMessages (s.workers.state.storage.messages.map (apiNow s)) 7).length <
          2 ^ 64) = true := by decide +kernel
  obtain ⟨s, hrun, hfacts⟩ := exists_run hlist
  obtain ⟨hsenders, hts, hsize⟩ := of_decide_eq_true hfacts
  obtain ⟨hist, hreads⟩ :=
    reads_toApiFormat Sample.talkExt s s.workers.state.storage.messages
  obtain ⟨reply, client', entries, hdecoded, -, -, hentries, hread⟩ := messages_reach_client
    Sample.talkExt s s hrun _ (fun msg hmsg => ⟨msg, hmsg, rfl⟩) hts hist _ hreads 7 (by decide)
    hsize Net.Sample.outOfMemory (fun _ _ => false) _ [] (Sample.unread_inTwoSegments _)
  exact ⟨s, _, _, reply, client', entries, hrun, rfl, hsenders, hdecoded, hentries, hread⟩

end O2Chat.Server
