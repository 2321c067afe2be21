import O2Chat.Client.Effects
import O2Chat.Lib.Outputs

/-!
# What the client shows

The calls of `showMsg` that the handlers of `client/src/client.cpp` make, step by step. Of the
replies on the idle connection the first one is taken for the acknowledgement of the request,
whatever is in it; every other one is shown, message by message.
-/
namespace O2Chat.Client

open O2Chat.Common O2Chat.Lib.Runs O2Chat.Lib.Outputs

/-- `ui::Message`. -/
structure UiMessage where
  fromUser : Bytes
  toUser : Bytes
  message : Bytes
  deriving DecidableEq, Repr

/-- A call of `showMsg`, with a text or a message. -/
inductive Shown
  | text (msg : Bytes)
  | message (msg : UiMessage)
  deriving DecidableEq, Repr

def help : String :=
  "Commands are:\n" ++
  "   HELP\n" ++
  "   LOGIN <user> <pass>\n" ++
  "   REGISTER <user> <pass>\n" ++
  "   REGISTER_G <group>\n" ++
  "   CHAT_WITH <user>\n" ++
  "   ADD_TO_G <user> <group>\n" ++
  "   UNCHAT\n" ++
  "   HISTORY <user> [N]\n" ++
  "   HISTORY_G <group> [N]\n" ++
  "   DIRECT_MSG <user> <msg>\n" ++
  "   DIRECT_MSG_G <group> <msg>\n" ++
  "   STATUS <user>\n" ++
  "   STATUS_G <group>\n" ++
  "   QUIT\n"

def Shown.line (msg : String) : Shown := .text (bytes msg)

/-- In `onUserInput`. -/
def inputShown (c : Client) (msg : Bytes) : List Shown :=
  if c.isChatLine msg = true then []
  else match (parse msg).cmd with
  | .none => [.line "unrecognized command. type \"HELP\" for help"]
  | .unchat => [.line "switch to usual mode"]
  | .quit => [.line "Bye! Client will exit NOW"]
  | .help => [.line help]
  | .chatWithUser => [.text (bytes "chat with: " ++ (parse msg).chat)]
  | .historyGroup | .statusGroup => [.line "unsupported command"]
  | _ => []

/-- `server` is the host and the port. -/
def connectShown (server : Bytes) (error : Bool) : List Shown :=
  if error = true then [] else [.text (bytes "connected to server: " ++ server)]

def MsgResponse.shown (r : MsgResponse) : Shown :=
  .message { fromUser := r.fromUser, toUser := r.toUser, message := r.msg }

/-- The loop over a batch of messages, or the error of parsing it. -/
def batchShown (parseJson : Bytes → Option Json) (body : Bytes) : List Shown :=
  match parseMsgResponse parseJson body with
  | none => []
  | some (.error err) => [.text (bytes "error: " ++ err)]
  | some (.ok response) => response.map MsgResponse.shown

/-- How long ago the user was online. -/
def statusShown (resp : Response) : Shown :=
  let lastOnline := if resp.heartbit < resp.serverTs then resp.serverTs - resp.heartbit else 0
  if lastOnline < 5 then .line "user online"
  else .text (bytes "user was online at about " ++ decimal lastOnline ++ bytes " sceonds ago")

/-- In `onHttpRead`, with a reply. -/
def replyShown (parseJson : Bytes → Option Json) (c : Client) (reply : HttpReply) : List Shown :=
  if reply.status ≠ 200 then [.text (decimalInt reply.status), .text reply.body]
  else .line "200 OK" :: match c.lastCmd with
    | .login =>
      match parseResponseAswer parseJson reply.body with
      | some (.error err) => [.text err]
      | _ => []
    | .historyUser => batchShown parseJson reply.body
    | .statusUser =>
      match parseResponseAswer parseJson reply.body with
      | none => []
      | some (.error err) => [.text err]
      | some (.ok resp) => [statusShown resp]
    | _ => []

/-- In `onHttpIdleRead`. -/
def idleShown (parseJson : Bytes → Option Json) (c : Client) (reply : Option HttpReply) :
    List Shown :=
  if isError reply = true then [.line "connection is broken, please relogin"]
  else if c.idleState = false then []
  else batchShown parseJson ((reply.map HttpReply.body).getD [])

def shown (parseJson : Bytes → Option Json) (server : Bytes) (c : Client) : Action → List Shown
  | .input msg => c.inputShown msg
  | .httpConnect _ error => connectShown server error
  | .httpRead _ (some reply) => c.replyShown parseJson reply
  | .idleRead _ reply => c.idleShown parseJson reply
  | _ => []

/-! ## The idle connection -/

def isIdleRead : Action → Bool
  | .idleRead .. => true
  | _ => false

/-- What it shows of the replies on the idle connection. -/
def displayedIdle (parseJson : Bytes → Option Json) (server : Bytes) (c : Client)
    (as : List Action) : List Shown :=
  outputs (step parseJson)
    (fun c a => if isIdleRead a = true then c.shown parseJson server a else []) c as

/-- The replies that come on the idle connection. -/
def idleReplies (as : List Action) : List HttpReply :=
  as.filterMap fun
    | .idleRead _ reply => reply
    | _ => none

/-- The idle connection brings no error. -/
def IdleHolds : Action → Prop
  | .idleRead _ reply => isError reply = false
  | _ => True

section

variable {parseJson : Bytes → Option Json} {server : Bytes} {c c' : Client} {a : Action}
  {as : List Action}

theorem idleState_onUserInput {msg : Bytes} (h : c.onUserInput msg = some c') :
    c'.idleState = c.idleState := by
  unfold onUserInput at h
  dsimp only at h
  split at h
  · rw [← Option.some.inj h]
    rfl
  · cases hcmd : (parse msg).cmd with
    | quit => simp [hcmd] at h
    | _ =>
      simp only [hcmd, Option.some.injEq] at h
      subst h
      rfl

theorem idleState_onHttpConnect (c : Client) (error : Bool) :
    (c.onHttpConnect error).idleState = c.idleState := by
  unfold onHttpConnect
  split
  · rfl
  · split <;> rfl

theorem idleState_onHttpRead {reply : Option (Option Request × HttpReply)}
    (h : c.onHttpRead parseJson reply = some c') : c'.idleState = c.idleState := by
  cases reply with
  | none =>
    rw [← Option.some.inj h]
    rfl
  | some answer =>
    obtain ⟨rfl, -⟩ | ⟨resp, -, -, rfl⟩ := onHttpRead_cases h
    · rfl
    · unfold startIdle
      split <;> rfl

theorem idleState_httpRead {conn : Conn} {reply : Option HttpReply}
    (h : c.httpRead parseJson conn reply = some c') : c'.idleState = c.idleState := by
  unfold httpRead at h
  split at h
  · obtain ⟨http, -, hread⟩ := Option.bind_eq_some_iff.mp h
    exact (idleState_onHttpRead hread).trans rfl
  · split at h
    · obtain ⟨http, -, hread⟩ := Option.bind_eq_some_iff.mp h
      exact (idleState_onHttpRead hread).trans rfl
    · split at h
      · cases h
      · obtain ⟨http, -, hread⟩ := Option.bind_eq_some_iff.mp h
        exact (idleState_onHttpRead hread).trans rfl
  · obtain ⟨oldHttp, -, hread⟩ := Option.bind_eq_some_iff.mp h
    exact (idleState_onHttpRead hread).trans rfl

/-- Only a reply on the idle connection changes what the next one is taken for. -/
theorem idleState_step (h : c.step parseJson a = some c') (ha : isIdleRead a = false) :
    c'.idleState = c.idleState := by
  cases a with
  | input msg => exact idleState_onUserInput h
  | httpConnect conn error =>
    cases conn <;>
    · obtain ⟨http, -, rfl⟩ := Option.map_eq_some_iff.mp h
      exact idleState_onHttpConnect _ error
  | httpWrite conn error =>
    cases conn <;>
    · obtain ⟨http, -, rfl⟩ := Option.map_eq_some_iff.mp h
      unfold onHttpWrite
      split <;> rfl
  | httpRead conn reply => exact idleState_httpRead h
  | idleOpen =>
    obtain ⟨-, heq⟩ := Option.ite_none_left_eq_some.mp h
    rw [← Option.some.inj heq]
  | idleConnect conn error =>
    have hmap : ∃ c₀ : Client, c₀.idleState = c.idleState ∧ c' = c₀.onHttpIdleConnect error := by
      cases conn with
      | current =>
        obtain ⟨-, heq⟩ := Option.ite_none_left_eq_some.mp h
        obtain ⟨httpIdle, -, rfl⟩ := Option.map_eq_some_iff.mp heq
        exact ⟨{ c with httpIdle }, rfl, rfl⟩
      | replaced =>
        obtain ⟨oldIdle, -, rfl⟩ := Option.map_eq_some_iff.mp h
        exact ⟨{ c with oldIdle }, rfl, rfl⟩
    obtain ⟨c₀, hsame, rfl⟩ := hmap
    rw [← hsame]
    unfold onHttpIdleConnect
    split <;> rfl
  | idleWrite conn error =>
    cases conn <;>
    · obtain ⟨httpIdle, -, rfl⟩ := Option.map_eq_some_iff.mp h
      unfold onHttpIdleWrite
      split <;> rfl
  | idleRead => cases ha

/-- After a reply on the idle connection the next one brings messages. -/
theorem idleState_idleRead {conn : Conn} {reply : Option HttpReply}
    (h : c.step parseJson (.idleRead conn reply) = some c') (hok : isError reply = false) :
    c'.idleState = true := by
  have hread : ∀ c₀ : Client, c₀.onHttpIdleRead parseJson reply = some c' → c'.idleState = true := by
    intro c₀ hc₀
    unfold onHttpIdleRead at hc₀
    rw [if_neg (by simp [hok])] at hc₀
    split at hc₀
    · rw [← Option.some.inj hc₀]
    · rename_i hstate
      obtain ⟨-, -, rfl⟩ := Option.map_eq_some_iff.mp hc₀
      simpa using hstate
  have hstep : c.idleRead parseJson conn reply = some c' := h
  unfold idleRead at hstep
  split at hstep
  · obtain ⟨httpIdle, -, hc₀⟩ := Option.bind_eq_some_iff.mp hstep
    exact hread _ hc₀
  · obtain ⟨oldIdle, -, hc₀⟩ := Option.bind_eq_some_iff.mp hstep
    exact hread _ hc₀

/-- The messages in a reply on the idle connection. -/
def messagesOf (parseJson : Bytes → Option Json) : Action → List Shown
  | .idleRead _ (some reply) => batchShown parseJson reply.body
  | _ => []

theorem flatMap_messagesOf (parseJson : Bytes → Option Json) (as : List Action) :
    as.flatMap (messagesOf parseJson) =
      (idleReplies as).flatMap fun reply => batchShown parseJson reply.body := by
  induction as with
  | nil => rfl
  | cons a as ih =>
    rw [List.flatMap_cons, ih]
    cases a with
    | idleRead conn reply => cases reply <;> rfl
    | _ => rfl

/-- Once the request is acknowledged, every reply is shown. -/
theorem displayedIdle_acknowledged (hstate : c.idleState = true) (hholds : ∀ a ∈ as, IdleHolds a)
    (h : runList (step parseJson) anyStep c as = some c') :
    displayedIdle parseJson server c as =
      (idleReplies as).flatMap fun reply => batchShown parseJson reply.body := by
  rw [← flatMap_messagesOf]
  refine outputs_eq_flatMap (I := fun c : Client => c.idleState = true) ?_ ?_ hstate hholds h
  · intro c a c' hc ha hs
    cases hread : isIdleRead a with
    | false => exact (idleState_step hs hread).trans hc
    | true =>
      cases a with
      | idleRead conn reply => exact idleState_idleRead hs ha
      | _ => cases hread
  · intro c a hc ha
    cases a with
    | idleRead conn reply =>
      have hreply : isError reply = false := ha
      cases reply with
      | none => cases hreply
      | some reply => simp [isIdleRead, shown, idleShown, messagesOf, hreply, hc]
    | _ => rfl

/-- Before that, one reply is taken for the acknowledgement. -/
theorem displayedIdle_start (hstate : c.idleState = false) (hholds : ∀ a ∈ as, IdleHolds a)
    (h : runList (step parseJson) anyStep c as = some c') :
    displayedIdle parseJson server c as =
      (idleReplies as).tail.flatMap fun reply => batchShown parseJson reply.body := by
  induction as generalizing c with
  | nil => rfl
  | cons a as ih =>
    obtain ⟨ha, hrest⟩ := List.forall_mem_cons.mp hholds
    obtain ⟨c₁, hstep, hrun⟩ := runList_cons h
    unfold displayedIdle
    rw [outputs_cons hstep]
    cases hread : isIdleRead a with
    | false =>
      have hnone : idleReplies (a :: as) = idleReplies as := by
        cases a with
        | idleRead => cases hread
        | _ => rfl
      rw [hnone, ← ih ((idleState_step hstep hread).trans hstate) hrest hrun]
      rfl
    | true =>
      cases a with
      | idleRead conn reply =>
        have hreply : isError reply = false := ha
        cases reply with
        | none => cases hreply
        | some reply =>
          have hack : c.shown parseJson server (.idleRead conn (some reply)) = [] := by
            simp [shown, idleShown, hreply, hstate]
          rw [if_pos rfl, hack, List.nil_append]
          exact displayedIdle_acknowledged (idleState_idleRead hstep ha) hrest hrun
      | _ => cases hread

end

end O2Chat.Client
