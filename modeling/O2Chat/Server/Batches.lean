import O2Chat.Client.Answers
import O2Chat.Server.Joins
import O2Chat.Server.Requested
import O2Chat.Server.SendOnce

/-!
# Messages at the client

The server looks up the names of stored messages and writes the batch, the client reads
it. The two programs agree on every batch: there is one entry for each message, with its
time, its names and its text. Of rapidjson it is assumed that it reads the body back.
-/
namespace O2Chat.Server

open O2Chat.Common O2Chat.Db O2Chat.Client O2Chat.Lib.Interleaving O2Chat.Lib.Runs

/-- What the writer is given for one message. -/
def entryMembers (api : ApiMessage) : Members :=
  [("from", .string api.from_), ("to", .string api.to_), ("message", .string api.msg),
    ("ts", .uint64 api.ts)]

/-- The document that a parser makes of the body. -/
def messagesJson (api : List ApiMessage) (now : Nat) : Json :=
  .object [(bytes "server_ts", .int now), (bytes "msgs", .array (api.map fun a => (entryMembers a).json))]

/-- What the client should get for an entry. -/
def clientEntry (api : ApiMessage) : MsgResponse where
  ts := api.ts
  fromUser := api.from_
  toUser := api.to_
  msg := api.msg

/-- The strings are C strings and the time is a `uint64_t`. -/
structure Printable (api : ApiMessage) : Prop where
  ts : api.ts < 2 ^ 64
  from_ : 0 ∉ api.from_
  to_ : 0 ∉ api.to_
  text : 0 ∉ api.msg

/-! ## Writing -/

theorem messageObject_eq (api : ApiMessage) : messageObject api = (entryMembers api).text := rfl

/-- The body of a batch is a C string. -/
theorem messagesBody_ne_zero (api : List ApiMessage) (now : Nat) :
    0 ∉ okResponseBodyOfMessages api now := by
  refine object_ne_zero fun m hm => ?_
  rcases List.mem_cons.mp hm with rfl | hm
  · exact decimal_ne_zero now
  · obtain rfl := List.mem_singleton.mp hm
    refine array_ne_zero fun e he => ?_
    obtain ⟨a, -, rfl⟩ := List.mem_map.mp he
    rw [messageObject_eq]
    exact members_ne_zero _

/-! ## Reading -/

theorem memberOr_value {α : Type} {members : Members} {name : String} {value : Value}
    {get : Json → Option α} {a default : α} (h : valueOf members name = some value)
    (hget : get value.json = some a) : memberOr members.json name get default = some a := by
  unfold memberOr
  rw [findMember_valueOf h]
  exact hget

theorem getString_value {s : Bytes} (h : 0 ∉ s) : (Value.string s).json.getString = some s := by
  rw [Value.json, Json.getString, cstr_eq h, cstr_eq h]

theorem getUint64_value {n : Nat} (h : n < 2 ^ 64) : (Value.uint64 n).json.getUint64 = some n := by
  have hlt : (n : Int) < 2 ^ 64 := by exact_mod_cast h
  have hpos : 0 ≤ (n : Int) := Int.natCast_nonneg n
  rw [Value.json, Json.getUint64, if_pos ⟨hpos, hlt⟩, Int.toNat_natCast]

theorem entryMembers_values (api : ApiMessage) :
    valueOf (entryMembers api) "ts" = some (.uint64 api.ts) ∧
      valueOf (entryMembers api) "from" = some (.string api.from_) ∧
      valueOf (entryMembers api) "to" = some (.string api.to_) ∧
      valueOf (entryMembers api) "message" = some (.string api.msg) := by
  simp +decide [entryMembers, valueOf_cons]

theorem parseMsg_entry {api : ApiMessage} (h : Printable api) :
    parseMsg (entryMembers api).json = some (.ok (clientEntry api)) := by
  obtain ⟨hts, hfrom, hto, hmsg⟩ := entryMembers_values api
  have hobject : (entryMembers api).json.isObject = true := rfl
  unfold parseMsg
  rw [hobject, if_neg Bool.true_eq_false.mp, memberOr_value hts (getUint64_value h.ts),
    memberOr_value hfrom (getString_value h.from_), memberOr_value hto (getString_value h.to_),
    memberOr_value hmsg (getString_value h.text)]
  rfl

/-- One entry after the other is read. -/
theorem parseMsgs_entries {api : List ApiMessage} (h : ∀ a ∈ api, Printable a) :
    parseMsgs (api.map fun a => (entryMembers a).json) = some (.ok (api.map clientEntry)) := by
  induction api with
  | nil => rfl
  | cons a api ih =>
    rw [List.map_cons, parseMsgs, parseMsg_entry (h a List.mem_cons_self)]
    dsimp only
    rw [ih fun b hb => h b (List.mem_cons_of_mem _ hb)]
    rfl

theorem parseMsgResponse_body {api : List ApiMessage} {now : Nat} {parse : Bytes → Option Json}
    (h : ∀ a ∈ api, Printable a)
    (hparse : parse (okResponseBodyOfMessages api now) = some (messagesJson api now)) :
    parseMsgResponse parse (okResponseBodyOfMessages api now) = some (.ok (api.map clientEntry)) := by
  have hmsgs : (messagesJson api now).findMember (bytes "msgs") =
      some (some (.array (api.map fun a => (entryMembers a).json))) := by
    have hkey : bytes "server_ts" ≠ bytes "msgs" := by decide
    simp [messagesJson, Json.findMember, hkey]
  unfold parseMsgResponse
  rw [cstr_eq (messagesBody_ne_zero api now), hparse]
  dsimp only
  rw [hmsgs]
  exact parseMsgs_entries h

/-! ## From the store to the client -/

/-- The names and the text of a stored message are C strings, its time is a `uint64_t`. -/
structure PrintableRow (s : Storage) (msg : Message) : Prop where
  ts : msg.ts < 2 ^ 64
  sender : ∀ u ∈ s.users, u.id = msg.userFrom → 0 ∉ u.name
  chat : ∀ c ∈ s.chats, c.id = msg.chatTo → 0 ∉ c.name
  text : 0 ∉ msg.message

/-- What the client has read is the message, with the names of its sender and its chat. -/
structure ReadAs (s : Storage) (msg : Message) (entry : MsgResponse) : Prop where
  ts : entry.ts = msg.ts
  sender : ∃ u ∈ s.users, u.id = msg.userFrom ∧ u.name = entry.fromUser
  chat : ∃ c ∈ s.chats, c.id = msg.chatTo ∧ c.name = entry.toUser
  text : entry.msg = msg.message

theorem printable_of_attributed {s : Storage} {msg : Message} {api : ApiMessage}
    (h : Attributed s msg api) (hrow : PrintableRow s msg) : Printable api := by
  obtain ⟨u, hu, huid, hfrom⟩ := h.sender
  obtain ⟨c, hc, hcid, hto⟩ := h.chat
  refine ⟨h.ts ▸ hrow.ts, ?_, ?_, h.text ▸ hrow.text⟩
  · rw [← hfrom]
    exact hrow.sender u hu huid
  · rw [← hto]
    exact hrow.chat c hc hcid

/-- The entries of a batch, in the order of the messages. -/
theorem entries_of_attributed {s : Storage} {msgs : List Message} {api : List ApiMessage}
    (h : List.Forall₂ (Attributed s) msgs api) (hrows : ∀ msg ∈ msgs, PrintableRow s msg) :
    (∀ a ∈ api, Printable a) ∧ List.Forall₂ (ReadAs s) msgs (api.map clientEntry) := by
  induction h with
  | nil => exact ⟨by simp, .nil⟩
  | cons hentry _ ih =>
    obtain ⟨hall, hread⟩ := ih fun msg hmsg => hrows msg (List.mem_cons_of_mem _ hmsg)
    refine ⟨?_, .cons ⟨hentry.ts, hentry.sender, hentry.chat, hentry.text⟩ hread⟩
    intro a ha
    rcases List.mem_cons.mp ha with rfl | ha
    · exact printable_of_attributed hentry (hrows _ List.mem_cons_self)
    · exact hall a ha

/-- In every reachable store, whatever the server does while it looks up the names: the
client reads the body of a batch without an error, as one entry for each message. -/
theorem batch_survives (env : Extern) (s s' : System) (h : Run (System.step env) anyStep {} s)
    (msgs : List Message) (hstored : ∀ msg ∈ msgs, IsStored s.workers.state.storage msg)
    (hrows : ∀ msg ∈ msgs, PrintableRow s.workers.state.storage msg)
    (hist : List Event) (api : List ApiMessage) (hr : Reads env s (toApiFormat msgs) s' hist (.pure api))
    (now : Nat) (parse : Bytes → Option Json)
    (hparse : parse (okResponseBodyOfMessages api now) = some (messagesJson api now)) :
    ∃ entries, parseMsgResponse parse (okResponseBodyOfMessages api now) = some (.ok entries) ∧
      List.Forall₂ (ReadAs s.workers.state.storage) msgs entries := by
  have hsafe : s.workers.Safe env := workers_safe (System.workers_run h)
  have hall := toApiFormat_attributed hsafe.inv (hr.seen hsafe) hstored hr.follows
  obtain ⟨hprintable, hread⟩ := entries_of_attributed hall hrows
  exact ⟨_, parseMsgResponse_body hprintable hparse, hread⟩

theorem batch_survives_talk : ∃ s msgs entries parse api now,
    Run (System.step Sample.talkExt) anyStep {} s ∧ s.workers.state.storage.messages = msgs ∧
      msgs.map (·.userFrom) = [1, 2] ∧
      parseMsgResponse parse (okResponseBodyOfMessages api now) = some (.ok entries) ∧
      List.Forall₂ (ReadAs s.workers.state.storage) msgs entries := by
  have hlist : (runList (System.step Sample.talkExt) anyStep {} Sample.talk).any
      (fun s => s.workers.state.storage.messages.map (·.userFrom) = [1, 2] ∧
        (∀ msg ∈ s.workers.state.storage.messages, msg.ts < 2 ^ 64 ∧ 0 ∉ msg.message) ∧
        (∀ u ∈ s.workers.state.storage.users, 0 ∉ u.name) ∧
        ∀ c ∈ s.workers.state.storage.chats, 0 ∉ c.name) = true := by decide +kernel
  obtain ⟨s, hrun, hfacts⟩ := exists_run hlist
  obtain ⟨hsenders, hmsgs, husers, hchats⟩ := of_decide_eq_true hfacts
  obtain ⟨hist, hreads⟩ :=
    reads_toApiFormat Sample.talkExt s s.workers.state.storage.messages
  have hrows : ∀ msg ∈ s.workers.state.storage.messages,
      PrintableRow s.workers.state.storage msg := by
    intro msg hmsg
    obtain ⟨hts, htext⟩ := hmsgs msg hmsg
    exact ⟨hts, fun u hu _ => husers u hu, fun c hc _ => hchats c hc, htext⟩
  obtain ⟨entries, hentries, hread⟩ := batch_survives Sample.talkExt s s hrun _
    (fun msg hmsg => ⟨msg, hmsg, rfl⟩) hrows hist _ hreads 7
    (fun text => if text = okResponseBodyOfMessages _ 7 then some (messagesJson _ 7) else none)
    (if_pos rfl)
  exact ⟨s, _, entries, _, _, 7, hrun, rfl, hsenders, hentries, hread⟩

end O2Chat.Server
