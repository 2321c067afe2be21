import O2Chat.Net.RoundTrip
import O2Chat.Server.ApiClient

/-!
# The client's requests at the server

The client writes a request, the server reads it, routes it and parses its body. The two
programs agree for every request of the client: the server's parameters are the values
that the client has put in. Of rapidjson it is assumed that it reads the body back.
-/
namespace O2Chat.Server

open O2Chat.Common O2Chat.Client O2Chat.Net O2Chat.Lib.Stream

/-! ## Texts of the writer -/

theorem cstr_eq {s : Bytes} (h : 0 ∉ s) : cstr s = s := by
  unfold cstr
  rw [List.takeWhile_eq_self_iff]
  intro b hb
  simp only [ne_eq, decide_eq_true_eq]
  intro hzero
  exact h (hzero ▸ hb)

theorem escape_ne_zero : ∀ b : UInt8, 0 ∉ Writer.escape b := forall_byte (by decide +kernel)

theorem string_ne_zero (s : Bytes) : 0 ∉ Writer.string s := by
  unfold Writer.string
  simp only [List.cons_append, List.mem_cons, List.mem_append, List.mem_flatMap, List.not_mem_nil,
    or_false, not_or, not_exists, not_and]
  exact ⟨by decide, fun b _ => escape_ne_zero b, by decide⟩

theorem decimal_ne_zero (n : Nat) : 0 ∉ decimal n := by
  intro hzero
  have hdigit := isDigit_of_mem_decimal 0 hzero
  revert hdigit
  decide

theorem value_ne_zero (value : Value) : 0 ∉ value.text := by
  cases value with
  | string s => exact string_ne_zero s
  | uint64 n => exact decimal_ne_zero n

theorem join_ne_zero {parts : List Bytes} (h : ∀ part ∈ parts, 0 ∉ part) : 0 ∉ join parts [44] := by
  induction parts with
  | nil => simp [join]
  | cons part parts ih =>
    have hpart := h part List.mem_cons_self
    have hrest := ih fun p hp => h p (List.mem_cons_of_mem _ hp)
    cases parts with
    | nil => simpa [join] using hpart
    | cons next parts =>
      unfold join at hrest ⊢
      rw [List.intercalate_cons_cons]
      simp only [List.mem_append, List.mem_singleton, not_or]
      exact ⟨⟨hpart, by decide⟩, hrest⟩

/-- The text of an object is a C string when those of its members are. -/
theorem object_ne_zero {members : List (String × Bytes)} (h : ∀ m ∈ members, 0 ∉ m.2) :
    0 ∉ Writer.object members := by
  have hmembers : 0 ∉ join (members.map fun m => Writer.string (bytes m.1) ++ 58 :: m.2) [44] := by
    refine join_ne_zero fun part hpart => ?_
    obtain ⟨m, hm, rfl⟩ := List.mem_map.mp hpart
    simp only [List.mem_append, List.mem_cons, not_or]
    exact ⟨string_ne_zero _, by decide, h m hm⟩
  unfold Writer.object
  simp only [List.cons_append, List.mem_cons, List.mem_append, List.not_mem_nil, or_false, not_or]
  exact ⟨by decide, hmembers, by decide⟩

theorem array_ne_zero {elements : List Bytes} (h : ∀ e ∈ elements, 0 ∉ e) :
    0 ∉ Writer.array elements := by
  have hjoin := join_ne_zero h
  unfold Writer.array
  simp only [List.cons_append, List.mem_cons, List.mem_append, List.not_mem_nil, or_false, not_or]
  exact ⟨by decide, hjoin, by decide⟩

theorem members_ne_zero (members : Members) : 0 ∉ members.text := by
  refine object_ne_zero fun m hm => ?_
  obtain ⟨v, -, rfl⟩ := List.mem_map.mp hm
  exact value_ne_zero v.2

/-! ## Reading the members back -/

/-- A string argument: not empty, and a C string. -/
def IsText (s : Bytes) : Prop := s ≠ [] ∧ 0 ∉ s

instance (s : Bytes) : Decidable (IsText s) := inferInstanceAs (Decidable (_ ∧ _))

theorem findMember_json (members : Members) (key : String) : members.json.findMember (bytes key) =
    some ((members.find? (bytes ·.1 = bytes key)).map (·.2.json)) := by
  show some (Option.map _ (List.find? _ (members.map _))) = _
  rw [List.find?_map, Option.map_map]
  rfl

theorem findString_member {doc value : Json} {key : String} {s : Bytes}
    (h : doc.findMember (bytes key) = some (some value)) (hs : value.getString = some s)
    (hne : s ≠ []) : findRequiredStringParam doc key = some (.ok s) := by
  unfold findRequiredStringParam
  rw [h]
  dsimp only
  rw [hs]
  cases s with
  | nil => exact absurd rfl hne
  | cons b s => rfl

theorem findUint_member {doc value : Json} {key : String} {n : Nat}
    (h : doc.findMember (bytes key) = some (some value)) (hn : value.getUint = some n) :
    findRequiredUintParam doc key = some (.ok n) := by
  unfold findRequiredUintParam
  rw [h]
  dsimp only
  rw [hn]

/-- The value that the client has put under a key. -/
def valueOf (members : Members) (key : String) : Option Value :=
  (members.find? (bytes ·.1 = bytes key)).map (·.2)

theorem valueOf_cons (k key : String) (value : Value) (members : Members) :
    valueOf ((k, value) :: members) key =
      if bytes k = bytes key then some value else valueOf members key := by
  unfold valueOf
  rw [List.find?_cons]
  by_cases h : bytes k = bytes key <;> simp [h]

theorem findMember_valueOf {members : Members} {key : String} {value : Value}
    (h : valueOf members key = some value) :
    members.json.findMember (bytes key) = some (some value.json) := by
  obtain ⟨m, hm, rfl⟩ := Option.map_eq_some_iff.mp h
  rw [findMember_json, hm, Option.map_some]

theorem findString_json {members : Members} {key : String} {s : Bytes}
    (h : valueOf members key = some (.string s)) (hs : IsText s) :
    findRequiredStringParam members.json key = some (.ok s) := by
  refine findString_member (findMember_valueOf h) ?_ hs.1
  rw [Value.json, Json.getString, cstr_eq hs.2, cstr_eq hs.2]

theorem getUint_natCast {n : Nat} (hn : n < 2 ^ 32) : (Json.int n).getUint = some n := by
  have hlt : (n : Int) < 2 ^ 32 := by exact_mod_cast hn
  have hpos : 0 ≤ (n : Int) := Int.natCast_nonneg n
  rw [Json.getUint, if_pos ⟨hpos, hlt⟩, Int.toNat_natCast]

theorem findUint_json {members : Members} {key : String} {n : Nat}
    (h : valueOf members key = some (.uint64 n)) (hn : n < 2 ^ 32) :
    findRequiredUintParam members.json key = some (.ok n) :=
  findUint_member (findMember_valueOf h) (getUint_natCast hn)

/-- A member that the client has left out. -/
theorem findUint_missing {members : Members} {key : String}
    (h : valueOf members key = none) : ∃ err,
      findRequiredUintParam members.json key = some (.error err) := by
  have hnone := Option.map_eq_none_iff.mp h
  unfold findRequiredUintParam
  rw [findMember_json, hnone]
  exact ⟨_, rfl⟩

end O2Chat.Server

namespace O2Chat.Client.Request

open O2Chat.Common O2Chat.Server

/-- The server's parameters that have the values of the client. -/
def params : Request → Params
  | .userCreate user pass => { user, password := pass }
  | .userLogin user pass => { user, password := pass }
  | .messageSend uid toUser message pass => { uid, toUser, message, password := pass }
  | .messageSendChat uid chat message pass => { uid, chatName := chat, message, password := pass }
  | .userHistory uid user count pass => { uid, user, count, password := pass }
  | .userStatus uid user pass => { uid, user, password := pass }
  | .chatCreate uid chat pass => { uid, chatName := chat, password := pass }
  | .chatAdduser uid chat adduser pass =>
    { uid, chatName := chat, chatAdduser := adduser, password := pass }
  | .idle uid heartbit pass => { uid, ts := heartbit, password := pass }

/-- The arguments are C strings that are not empty, and numbers of 32 bits. -/
def ArgumentsOk : Request → Prop
  | .userCreate user pass => IsText user ∧ IsText pass
  | .userLogin user pass => IsText user ∧ IsText pass
  | .messageSend uid toUser msg pass => uid < 2 ^ 32 ∧ IsText toUser ∧ IsText msg ∧ IsText pass
  | .messageSendChat uid chat msg pass => uid < 2 ^ 32 ∧ IsText chat ∧ IsText msg ∧ IsText pass
  | .userHistory uid user count pass => uid < 2 ^ 32 ∧ IsText user ∧ count < 2 ^ 32 ∧ IsText pass
  | .userStatus uid user pass => uid < 2 ^ 32 ∧ IsText user ∧ IsText pass
  | .chatCreate uid chat pass => uid < 2 ^ 32 ∧ IsText chat ∧ IsText pass
  | .chatAdduser uid chat adduser pass =>
    uid < 2 ^ 32 ∧ IsText chat ∧ IsText adduser ∧ IsText pass
  | .idle uid heartbit pass => uid < 2 ^ 32 ∧ heartbit < 2 ^ 32 ∧ IsText pass

/-- `password_check` accepts the password of a new user. -/
def Accepted (env : Extern) : Request → Prop
  | .userCreate _ pass => passwordCheck pass (minPassLen env) = true
  | _ => True

end O2Chat.Client.Request

namespace O2Chat.Server

open O2Chat.Common O2Chat.Client O2Chat.Net O2Chat.Lib.Stream

section

variable {env : Extern} {r : Request}

theorem valueOf_nil (key : String) : valueOf [] key = none := rfl

theorem required_found {α : Type} (value : α) (params : Params) (k : α → Option (Bytes × Params)) :
    required (some (.ok value)) params k = k value := rfl

theorem optional_found {α : Type} (value : α) (k : Option α → Option (Bytes × Params)) :
    optional (some (.ok value)) k = k (some value) := rfl

theorem optional_missing {α : Type} (err : Bytes) (k : Option α → Option (Bytes × Params)) :
    optional (some (.error err)) k = k none := rfl

theorem userPassBody_values (user pass : Bytes) :
    valueOf (buildUserPassBody user pass) "user" = some (.string user) ∧
      valueOf (buildUserPassBody user pass) "password" = some (.string pass) := by
  simp +decide [buildUserPassBody, valueOf_cons]

theorem userSendMsgBody_values (uid ts : Nat) (toUser msg pass : Bytes) :
    valueOf (buildUserSendMsgBody uid ts toUser msg pass) "uid" = some (.uint64 uid) ∧
      valueOf (buildUserSendMsgBody uid ts toUser msg pass) "heartbit" =
        (if ts = 0 then none else some (.uint64 ts)) ∧
      valueOf (buildUserSendMsgBody uid ts toUser msg pass) "to" = some (.string toUser) ∧
      valueOf (buildUserSendMsgBody uid ts toUser msg pass) "message" = some (.string msg) ∧
      valueOf (buildUserSendMsgBody uid ts toUser msg pass) "password" = some (.string pass) := by
  by_cases hts : ts = 0 <;> simp +decide [buildUserSendMsgBody, valueOf_cons, valueOf_nil, hts]

theorem userHistoryMsgBody_values (uid : Nat) (name : Bytes) (count : Nat) (pass : Bytes) :
    valueOf (buildUserHistoryMsgBody uid name count pass) "uid" = some (.uint64 uid) ∧
      valueOf (buildUserHistoryMsgBody uid name count pass) "user" = some (.string name) ∧
      valueOf (buildUserHistoryMsgBody uid name count pass) "count" = some (.uint64 count) ∧
      valueOf (buildUserHistoryMsgBody uid name count pass) "password" = some (.string pass) := by
  simp +decide [buildUserHistoryMsgBody, valueOf_cons]

theorem groupsMsgBody_values (uid : Nat) (groupname username message pass : Bytes) :
    valueOf (buildGroupsMsgBody uid groupname username message pass) "uid" = some (.uint64 uid) ∧
      valueOf (buildGroupsMsgBody uid groupname username message pass) "chatname" =
        some (.string groupname) ∧
      (username ≠ [] → valueOf (buildGroupsMsgBody uid groupname username message pass) "adduser" =
        some (.string username)) ∧
      (message ≠ [] → valueOf (buildGroupsMsgBody uid groupname username message pass) "message" =
        some (.string message)) ∧
      valueOf (buildGroupsMsgBody uid groupname username message pass) "password" =
        some (.string pass) := by
  by_cases huser : username = [] <;> by_cases hmsg : message = [] <;>
    simp +decide [buildGroupsMsgBody, valueOf_cons, huser, hmsg]

/-- A request whose password is good enough is accepted with the client's values. -/
theorem parseMeta_request (hargs : r.ArgumentsOk) (hparse : env.parse r.body = some r.members.json)
    (hok : r.Accepted env) : parseMeta env {} r.body r.cmd = some ([], r.params) := by
  have hbody : cstr r.body = r.body := cstr_eq (members_ne_zero _)
  unfold parseMeta
  rw [hbody, hparse]
  dsimp only
  cases r with
  | userCreate user pass =>
    obtain ⟨huser, hpass⟩ := hargs
    obtain ⟨hvuser, hvpass⟩ := userPassBody_values user pass
    have hcheck : passwordCheck pass (minPassLen env) = true := hok
    simp only [Request.cmd, Request.members, reduceCtorEq, true_or, true_and, if_true, if_false,
      findString_json hvpass hpass, findString_json hvuser huser, required_found, hcheck]
    rfl
  | userLogin user pass =>
    obtain ⟨huser, hpass⟩ := hargs
    obtain ⟨hvuser, hvpass⟩ := userPassBody_values user pass
    simp only [Request.cmd, Request.members, reduceCtorEq, or_true, false_and, if_true, if_false,
      findString_json hvpass hpass, findString_json hvuser huser, required_found]
    rfl
  | messageSend uid toUser msg pass =>
    obtain ⟨huid, hto, hmsg, hpass⟩ := hargs
    obtain ⟨hvuid, -, hvto, hvmsg, hvpass⟩ := userSendMsgBody_values uid 0 toUser msg pass
    simp only [Request.cmd, Request.members, reduceCtorEq, true_or, or_self, if_true, if_false,
      findString_json hvpass hpass, findUint_json hvuid huid, findString_json hvmsg hmsg,
      findString_json hvto hto, required_found]
    rfl
  | messageSendChat uid chat msg pass =>
    obtain ⟨huid, hchat, hmsg, hpass⟩ := hargs
    obtain ⟨hvuid, hvchat, -, hvmsg, hvpass⟩ := groupsMsgBody_values uid chat [] msg pass
    simp only [Request.cmd, Request.members, reduceCtorEq, or_true, or_self, if_true, if_false,
      findString_json hvpass hpass, findUint_json hvuid huid, findString_json (hvmsg hmsg.1) hmsg,
      findString_json hvchat hchat, required_found]
    rfl
  | userHistory uid user count pass =>
    obtain ⟨huid, huser, hcount, hpass⟩ := hargs
    obtain ⟨hvuid, hvuser, hvcount, hvpass⟩ := userHistoryMsgBody_values uid user count pass
    simp only [Request.cmd, Request.members, reduceCtorEq, true_or, or_self, if_true, if_false,
      findString_json hvpass hpass, findUint_json hvuid huid, findString_json hvuser huser,
      findUint_json hvcount hcount, required_found, optional_found]
    rfl
  | userStatus uid user pass =>
    obtain ⟨huid, huser, hpass⟩ := hargs
    obtain ⟨hvuid, hvuser, hvcount, hvpass⟩ := userHistoryMsgBody_values uid user 0 pass
    simp only [Request.cmd, Request.members, reduceCtorEq, or_true, or_self, if_true, if_false,
      findString_json hvpass hpass, findUint_json hvuid huid, findString_json hvuser huser,
      findUint_json hvcount (by decide), required_found, optional_found]
    rfl
  | chatCreate uid chat pass =>
    obtain ⟨huid, hchat, hpass⟩ := hargs
    obtain ⟨hvuid, hvchat, -, -, hvpass⟩ := groupsMsgBody_values uid chat [] [] pass
    simp only [Request.cmd, Request.members, reduceCtorEq, true_or, or_self, if_true, if_false,
      findString_json hvpass hpass, findUint_json hvuid huid, findString_json hvchat hchat,
      required_found]
    rfl
  | chatAdduser uid chat adduser pass =>
    obtain ⟨huid, hchat, hadduser, hpass⟩ := hargs
    obtain ⟨hvuid, hvchat, hvadd, -, hvpass⟩ := groupsMsgBody_values uid chat adduser [] pass
    simp only [Request.cmd, Request.members, reduceCtorEq, or_true, or_self, if_true, if_false,
      findString_json hvpass hpass, findUint_json hvuid huid, findString_json hvchat hchat,
      findString_json (hvadd hadduser.1) hadduser, required_found]
    rfl
  | idle uid heartbit pass =>
    obtain ⟨huid, hts, hpass⟩ := hargs
    obtain ⟨hvuid, hvts, -, -, hvpass⟩ := userSendMsgBody_values uid heartbit [] [] pass
    simp only [Request.cmd, Request.members, reduceCtorEq, or_self, if_true, if_false,
      findString_json hvpass hpass, findUint_json hvuid huid, required_found]
    by_cases hzero : heartbit = 0
    · rw [if_pos hzero] at hvts
      obtain ⟨err, hmissing⟩ := findUint_missing hvts
      rw [hmissing, optional_missing, hzero]
      rfl
    · rw [if_neg hzero] at hvts
      rw [findUint_json hvts hts, optional_found]
      rfl

/-- A new user whose password is not good enough is refused. -/
theorem parseMeta_weak (hargs : r.ArgumentsOk) (hparse : env.parse r.body = some r.members.json)
    (hweak : ¬ r.Accepted env) : ∃ params,
      parseMeta env {} r.body r.cmd = some (bytes "weak password", params) := by
  have hbody : cstr r.body = r.body := cstr_eq (members_ne_zero _)
  cases r with
  | userCreate user pass =>
    obtain ⟨huser, hpass⟩ := hargs
    obtain ⟨hvuser, hvpass⟩ := userPassBody_values user pass
    have hcheck : passwordCheck pass (minPassLen env) = false := by
      simpa [Request.Accepted] using hweak
    unfold parseMeta
    rw [hbody, hparse]
    dsimp only
    simp only [Request.cmd, Request.members, true_or, true_and, if_true,
      findString_json hvpass hpass, findString_json hvuser huser, required_found, hcheck]
    exact ⟨_, rfl⟩
  | _ => exact absurd trivial hweak

/-! ## Routing -/

theorem lowercased_route (cmd : Cmd) : lowercased (cmd2string cmd) = cmd2string cmd := by
  cases cmd <;> decide +kernel

theorem route_request (hidle : r.cmd ≠ .idle) : ApiClient.route (cmd2string r.cmd) = some r.cmd := by
  apply ApiClient.route_cmd2string
  cases r with
  | idle uid heartbit pass => exact absurd rfl hidle
  | _ => simp [Request.cmd, ApiClient.routedCmds]

theorem cmd2string_ne_idle {cmd : Cmd} (hidle : cmd ≠ .idle) : cmd2string cmd ≠ bytes "/v1/idle" := by
  cases cmd with
  | idle => exact absurd rfl hidle
  | _ => decide +kernel

/-- What the handler makes of the client's request on connection `id`: the client's
command with the client's values, as a task or as the start of the polling. -/
structure Intended (env : Extern) (id now : Nat) (c : ApiClient) (r : Request) (req : HttpReply) :
    Prop where
  parsed : (∃ params, parseMeta env c.requestDetails.params req.body r.cmd = some ([], params)) ↔
    r.Accepted env
  routed : ∃ c' tasks, c.requestFromClientReadHandler env id now req = some (c', tasks) ∧
    c'.requestDetails.command = r.cmd ∧
    (r.Accepted env → c'.requestDetails.params = r.params ∧
      (r.cmd = .idle → tasks = [] ∧ c'.timerArmed = true) ∧
      (r.cmd ≠ .idle → ∃ task, tasks = [task] ∧ task.cmd = r.cmd ∧ task.request = r.params)) ∧
    (¬ r.Accepted env → tasks = [])

/-- What the client has written, as the server reads it. -/
def readAs (r : Request) : HttpReply :=
  (Message.request (cmd2string r.cmd) (bytes "application/json") r.body).reply

theorem readAs_idle {id now : Nat} {c : ApiClient} {params : Params}
    (hfresh : c.requestDetails.params = {}) (hidle : r.cmd = .idle)
    (hmeta : parseMeta env {} r.body r.cmd = some ([], params)) :
    c.requestFromClientReadHandler env id now (readAs r) = some
      ((((c.noteRequest (readAs r)).setCommand .idle).setParams params).sendOkResponseAndStartIdle
        now, []) := by
  have hset : ((c.noteRequest (readAs r)).setCommand .idle).requestDetails.params = {} := hfresh
  have hbody : (readAs r).body = r.body := rfl
  have hresource : lowercased (readAs r).resource = cmd2string r.cmd := lowercased_route r.cmd
  rw [hidle] at hmeta
  have hroute : cmd2string r.cmd = bytes "/v1/idle" := by rw [hidle, cmd2string]
  unfold ApiClient.requestFromClientReadHandler
  dsimp only
  rw [hresource, if_pos hroute]
  unfold ApiClient.idleHandler
  dsimp only
  rw [hset, hbody, hmeta]
  rfl

theorem readAs_handler {id now : Nat} {c : ApiClient} {params : Params}
    (hfresh : c.requestDetails.params = {}) (hidle : r.cmd ≠ .idle) {err : Bytes}
    (hmeta : parseMeta env {} r.body r.cmd = some (err, params)) :
    ∃ c' tasks, c.requestFromClientReadHandler env id now (readAs r) = some (c', tasks) ∧
      c'.requestDetails.command = r.cmd ∧ c'.requestDetails.params = params ∧
      (err ≠ [] → tasks = []) ∧
      (err = [] → ∃ task, tasks = [task] ∧ task.cmd = r.cmd ∧ task.request = params) := by
  have hset : ((c.noteRequest (readAs r)).setCommand r.cmd).requestDetails.params = {} := hfresh
  have hbody : (readAs r).body = r.body := rfl
  have hresource : lowercased (readAs r).resource = cmd2string r.cmd := lowercased_route r.cmd
  have htype : ApiClient.allowedContentType ((readAs r).getHeader (bytes "Content-Type")) = true := rfl
  unfold ApiClient.requestFromClientReadHandler
  dsimp only
  rw [hresource, if_neg (cmd2string_ne_idle hidle), route_request hidle]
  dsimp only
  unfold ApiClient.v1Handler ApiClient.handlerImpl
  rw [if_pos htype, hset, hbody, hmeta]
  dsimp only
  by_cases herr : err = []
  · rw [if_neg (not_not.mpr herr)]
    refine ⟨_, _, rfl, rfl, rfl, fun hnot => absurd herr hnot, fun _ => ⟨_, rfl, ?_⟩⟩
    split <;> exact ⟨rfl, rfl⟩
  · rw [if_pos herr]
    exact ⟨_, _, rfl, rfl, rfl, fun _ => rfl, fun hnone => absurd hnone herr⟩

theorem intended_request (hargs : r.ArgumentsOk) (hparse : env.parse r.body = some r.members.json)
    {id now : Nat} {c : ApiClient} (hfresh : c.requestDetails.params = {}) :
    Intended env id now c r (readAs r) := by
  by_cases hok : r.Accepted env
  · have hmeta := parseMeta_request hargs hparse hok
    refine ⟨?_, ?_⟩
    · rw [hfresh]
      exact iff_of_true ⟨_, hmeta⟩ hok
    by_cases hidle : r.cmd = .idle
    · refine ⟨_, _, readAs_idle hfresh hidle hmeta, hidle.symm, ?_, fun _ => rfl⟩
      exact fun _ => ⟨rfl, fun _ => ⟨rfl, rfl⟩, fun hnot => absurd hidle hnot⟩
    · obtain ⟨c', tasks, hh, hcommand, hparams, -, htask⟩ := readAs_handler hfresh hidle hmeta
      refine ⟨c', tasks, hh, hcommand, fun _ => ⟨hparams, ?_, fun _ => htask rfl⟩, ?_⟩
      · exact fun hidle' => absurd hidle' hidle
      · exact fun hnot => absurd hok hnot
  · obtain ⟨params, hmeta⟩ := parseMeta_weak hargs hparse hok
    have herr : bytes "weak password" ≠ [] := by decide
    have hidle : r.cmd ≠ .idle := by
      intro hidle
      cases r with
      | idle uid heartbit pass => exact hok trivial
      | _ => cases hidle
    refine ⟨?_, ?_⟩
    · rw [hfresh]
      refine iff_of_false ?_ hok
      intro ⟨params', hmeta'⟩
      have hsame := hmeta.symm.trans hmeta'
      exact herr (Prod.mk.inj (Option.some.inj hsame)).1
    · obtain ⟨c', tasks, hh, hcommand, -, hnone, -⟩ := readAs_handler hfresh hidle hmeta
      exact ⟨c', tasks, hh, hcommand, fun hyes => absurd hyes hok, fun _ => hnone herr⟩

/-- The request that the client writes for one of its commands, with any arguments, is
read by the server, routed to the same command and parsed to parameters that have the
client's values; only a password of a new user that `password_check` does not accept is
refused. It is assumed that rapidjson reads back the members that its writer has written. -/
theorem request_reaches_its_command (env : Extern) (z : Zlib) (r : Request) (hargs : r.ArgumentsOk)
    (hsize : r.body.length < 2 ^ 64) (hparse : env.parse r.body = some r.members.json)
    (id now : Nat) (c : ApiClient) (hfresh : c.requestDetails = {}) (rest : Bytes)
    (client : TcpClient) (hunread : client.unread = r.text ++ rest) :
    ∃ req client', asyncResponse z client = some (.handler none req, client') ∧
      client'.unread = rest ∧ Intended env id now c r req := by
  have hvalid : (Message.request (cmd2string r.cmd) (bytes "application/json") r.body).Valid := by
    have hline : ∀ cmd : Cmd, 32 ∉ cmd2string cmd ∧ CR ∉ cmd2string cmd ∧ LF ∉ cmd2string cmd := by
      intro cmd
      cases cmd <;> decide +kernel
    obtain ⟨hspace, hcr, hlf⟩ := hline r.cmd
    refine ⟨hsize, hspace, hcr, hlf, by decide, by decide, ?_⟩
    intro b hb
    obtain rfl : 97 = b := Option.some.inj hb
    decide
  have hdecode := Message.decode_encode z hvalid rest
  obtain ⟨client', hread, hrest⟩ := asyncResponse_yields z _ client hunread
  have htext : r.text ++ rest =
    (Message.request (cmd2string r.cmd) (bytes "application/json") r.body).encode ++ rest := rfl
  rw [htext, hdecode] at hread hrest
  exact ⟨readAs r, client', hread, hrest, intended_request hargs hparse (by rw [hfresh])⟩

end

namespace Sample

def greeting : Request := .messageSend 1 (bytes "bob") (bytes "hi") (bytes "password")

def greetingExt : Extern :=
  .sample fun text => if text = greeting.body then some greeting.members.json else none

example : greeting.body =
    bytes "\x7b\"uid\":1,\"to\":\"bob\",\"message\":\"hi\",\"password\":\"password\"\x7d" := by
  decide

end Sample

theorem request_reaches_its_command_greeting : ∃ req client',
    asyncResponse Net.Sample.outOfMemory ⟨[], [Sample.greeting.text]⟩ =
      some (.handler none req, client') ∧
      client'.unread = [] ∧ Intended Sample.greetingExt 0 0 {} Sample.greeting req := by
  have hargs : Sample.greeting.ArgumentsOk := ⟨by decide, by decide, by decide, by decide⟩
  have hparse : Sample.greetingExt.parse Sample.greeting.body = some Sample.greeting.members.json := by
    simp [Sample.greetingExt, Extern.sample]
  exact request_reaches_its_command Sample.greetingExt Net.Sample.outOfMemory Sample.greeting hargs
    (by decide) hparse 0 0 {} rfl [] _ (by simp [Source.unread])

end O2Chat.Server
