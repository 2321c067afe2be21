import O2Chat.Common.Utils

/-!
# What the user types

`input::parse` of `client/src/apiclient_utils.cpp`. The text of a message is what the
regular expression in `get_msg_after_command` captures, with its backtracking.
-/
namespace O2Chat.Client

open O2Chat.Common

/-- `input::cmd_t`. -/
inductive InputCmd
  | none
  | help
  | unchat
  | login
  | registerUser
  | registerGroup
  | chatWithUser
  | addToGroup
  | historyUser
  | historyGroup
  | directMsgUser
  | directMsgGroup
  | statusUser
  | statusGroup
  | quit
  deriving DecidableEq, Repr

/-- The structures `login` and `reg` of `args_t`. -/
structure Account where
  name : Bytes := []
  pass : Bytes := []
  deriving DecidableEq, Repr

structure Group where
  groupname : Bytes := []
  username : Bytes := []
  deriving DecidableEq, Repr

structure History where
  name : Bytes := []
  count : Nat := 10
  deriving DecidableEq, Repr

structure Direct where
  name : Bytes := []
  message : Bytes := []
  deriving DecidableEq, Repr

/-- `input::args_t`. The structures `chat` and `status` have one field, a name. -/
structure Args where
  cmd : InputCmd := .none
  login : Account := {}
  reg : Account := {}
  chat : Bytes := []
  group : Group := {}
  history : History := {}
  direct : Direct := {}
  status : Bytes := []
  deriving DecidableEq, Repr

/-! ## `^\s*\w+\s*\w+\s*(.*)$` -/

/-- `\w`. -/
def isWord (b : UInt8) : Bool :=
  (97 ≤ b && b ≤ 122) || (65 ≤ b && b ≤ 90) || (48 ≤ b && b ≤ 57) || b = 95

/-- What may be left after `p*`, the longest match first. -/
def afterStar (p : UInt8 → Bool) (s : Bytes) : List Bytes :=
  (List.range ((s.takeWhile p).length + 1)).reverse.map s.drop

/-- What may be left after `p+`, the longest match first. -/
def afterPlus (p : UInt8 → Bool) (s : Bytes) : List Bytes :=
  (List.range (s.takeWhile p).length).reverse.map fun n => s.drop (n + 1)

/-- The `.` of the expression matches no line end. -/
def isLine (s : Bytes) : Bool := s.all fun b => b ≠ LF && b ≠ CR

def getMsgAfterCommand (line : Bytes) : Bytes :=
  let rests := (afterStar isspace line).flatMap fun s =>
    (afterPlus isWord s).flatMap fun s =>
    (afterStar isspace s).flatMap fun s =>
    (afterPlus isWord s).flatMap fun s => afterStar isspace s
  (rests.find? isLine).getD []

/-! ## `parse` -/

/-- `std::stoi` into a `size_t`; the count stays as it is when it throws. -/
def historyArgs (name : Bytes) : List Bytes → History
  | [] => { name }
  | count :: _ =>
    match stoi count with
    | .ok n => { name, count := (n % 2 ^ 64).toNat }
    | .error _ => { name }

def parse (string : Bytes) : Args :=
  match split string (bytes " ") with
  | [] => {}
  | first :: parts =>
    let cmd := lowercased first
    if cmd = bytes "help" then { cmd := .help }
    else if cmd = bytes "quit" then { cmd := .quit }
    else if cmd = bytes "unchat" then { cmd := .unchat }
    else match parts with
    | [] => {}
    | second :: parts =>
      if cmd = bytes "chat_with" then { cmd := .chatWithUser, chat := second }
      else if cmd = bytes "register_g" then
        { cmd := .registerGroup, group := { groupname := second } }
      else if cmd = bytes "history" then
        { cmd := .historyUser, history := historyArgs second parts }
      else if cmd = bytes "history_g" then
        { cmd := .historyGroup, history := historyArgs second parts }
      else if cmd = bytes "status" then { cmd := .statusUser, status := second }
      else if cmd = bytes "status_g" then { cmd := .statusGroup, status := second }
      else match parts with
      | [] => {}
      | third :: _ =>
        if cmd = bytes "login" then { cmd := .login, login := { name := second, pass := third } }
        else if cmd = bytes "register" then
          { cmd := .registerUser, reg := { name := second, pass := third } }
        else if cmd = bytes "direct_msg" then
          { cmd := .directMsgUser
            direct := { name := second, message := getMsgAfterCommand string } }
        else if cmd = bytes "add_to_g" then
          { cmd := .addToGroup, group := { username := second, groupname := third } }
        else if cmd = bytes "direct_msg_g" then
          { cmd := .directMsgGroup
            direct := { name := second, message := getMsgAfterCommand string } }
        else {}

example : parse (bytes "DIRECT_MSG bob hello there") =
    { cmd := .directMsgUser, direct := { name := bytes "bob", message := bytes "hello there" } } := by
  decide +kernel

end O2Chat.Client
