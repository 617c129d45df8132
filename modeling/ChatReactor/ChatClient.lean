import ChatReactor.ChatGroup
import ChatReactor.Lib.CheckedInt

/-!
# The chat client (`excercises/chatServer/client.cc`)

| here | there |
| --- | --- |
| `separators`, `splitLoop`, `split` | the two loops of `split`, and `split` (`client.cc:29-52`) |
| `ChatClient` | what the commands write: the messages given to `codec_.send`, the file `user.info`, `messageReceived`, `std::cout` |
| `element` | `message[i]`, which the vector does not check |
| `sign` … `quit` | the commands (`client.cc:190-261`) |
| `dispatch` | `dispatch` (`client.cc:263-291`): `perform` for `message[0][0]` |
| `onLine` | the body of the loop in `main` (`client.cc:173-177`) |

A line and its parts are texts. `atol` is `strtol`; a `std::string` ends with a NUL that `message[0][0]` may read. `write`
waits for a connection before it sends; it has one here. `arrived` is the `Success` that has come by the time `sign` looks for
one.
-/

namespace ChatReactor

open CheckedInt

/-- Why a command does not come to its end. -/
inductive ClientStop
  /-- `count` overflows -/
  | count
  /-- there is no `message[i]` -/
  | index (i : Nat)
  /-- no `Success` has come yet -/
  | waiting
  /-- `messageReceived` has been deleted -/
  | deleted
  deriving Repr, DecidableEq

/-! ## `split` -/

/-- The first loop: `count++` for each separator. -/
def separators (sep : Char) : Text → Int → Except ClientStop Int
  | [], count => .ok count
  | c :: src, count =>
    if c = sep then
      match add count 1 with
      | some count => separators sep src count
      | none => .error .count
    else separators sep src count

/-- The second loop, from the character `i` on; at its end, `res` and what is left from `i` on. -/
def splitLoop (sep : Char) : Text → Text → List Text → Int → List Text × Text
  | [], _, res, _ => (res, [])
  | c :: src, tmp, res, count =>
    if count > 0 then
      if c ≠ sep then splitLoop sep src (tmp ++ [c]) res count
      else splitLoop sep src [] (if tmp.length ≠ 0 then res ++ [tmp] else res) (count - 1)
    else (res, c :: src)

def split (src : Text) (sep : Char) : Except ClientStop (List Text) := do
  let count ← separators sep src 0
  let (res, left) := splitLoop sep src [] [] count
  return res ++ [left]

/-! ## The commands -/

inductive ClientMessage
  | signUp (m : SignUp)
  | login (m : Login)
  | pmessage (m : PMessage)
  | gmessage (m : GMessage)
  | createGroup (m : CreateGroup)
  | addGroup (m : AddGroup)
  | quit (m : Quit)
  deriving Repr, DecidableEq

/-- What `messageReceived` points to. -/
inductive Received
  | null
  | success (uid : Int)
  | deleted
  deriving Repr, DecidableEq

structure ChatClient where
  sent : List ClientMessage
  userInfo : Text
  messageReceived : Received
  disconnected : Bool
  cout : List Text
  deriving Repr, DecidableEq

/-- An integer as `<<` writes it. -/
def decimalText (v : Int) : Text := (if v < 0 then ['-'] else []) ++ Nat.toDigits 10 v.natAbs

def element (message : List Text) (i : Nat) : Except ClientStop Text := match message[i]? with
  | some t => .ok t
  | none => .error (.index i)

/-- `content += message[i] + " "` for each of them -/
def joined (words : List Text) : Text := words.flatMap (· ++ [' '])

namespace ChatClient

def write (client : ChatClient) (message : ClientMessage) : ChatClient := { client with sent := client.sent ++ [message] }

/-- `getline(in, uid)`; a file that is not there reads like an empty one. -/
def uidLine (client : ChatClient) : Text := client.userInfo.takeWhile (· ≠ '\n')

def onSuccess (client : ChatClient) (uid : Int) : ChatClient := { client with messageReceived := .success uid }

def sign (client : ChatClient) (arrived : Option Int) (message : List Text) : Except ClientStop ChatClient := do
  let name ← element message 1
  let passwd ← element message 2
  -- `user.info` has been opened, and cut, at the beginning
  let client := { client.write (.signUp ⟨name, passwd⟩) with userInfo := [] }
  let client := arrived.elim client client.onSuccess
  match client.messageReceived with
  | .null => .error .waiting
  | .deleted => .error .deleted
  | .success id =>
    .ok { client with
      userInfo := decimalText id ++ '\n' :: name ++ '\n' :: passwd ++ ['\n']
      messageReceived := .deleted }

def login (client : ChatClient) (message : List Text) : Except ClientStop ChatClient := do
  let uid ← element message 1
  let passwd ← element message 2
  return client.write (.login ⟨strtol uid, passwd⟩)

def onPrivateChat (client : ChatClient) (message : List Text) : Except ClientStop ChatClient := do
  let peerid ← element message 1
  return client.write (.pmessage ⟨atoi client.uidLine, strtol peerid, joined (message.drop 2)⟩)

def groupChat (client : ChatClient) (message : List Text) : Except ClientStop ChatClient := do
  let gid ← element message 1
  return client.write (.gmessage ⟨strtol gid, joined (message.drop 1)⟩)

/-- A command with a group. -/
def groupCommand (make : Int → ClientMessage) (client : ChatClient) (message : List Text) : Except ClientStop ChatClient := do
  let gid ← element message 1
  return client.write (make (strtol gid))

def createGroup : ChatClient → List Text → Except ClientStop ChatClient := groupCommand fun gid => .createGroup ⟨gid⟩
def addGroup : ChatClient → List Text → Except ClientStop ChatClient := groupCommand fun gid => .addGroup ⟨gid⟩

def quit (client : ChatClient) : ChatClient :=
  { client.write (.quit ⟨strtol client.uidLine⟩) with disconnected := true }

/-- The `switch`. -/
def perform (client : ChatClient) (arrived : Option Int) (message : List Text) : Char → Except ClientStop ChatClient
  | 's' => client.sign arrived message
  | 'l' => client.login message
  | 'p' => client.onPrivateChat message
  | 'c' => client.createGroup message
  | 'a' => client.addGroup message
  | 'g' => client.groupChat message
  | 'q' => .ok client.quit
  | _ => .ok { client with cout := client.cout ++ ["Wrong Type of Message!".toList] }

def dispatch (client : ChatClient) (arrived : Option Int) (message : List Text) : Except ClientStop ChatClient := do
  let first ← element message 0
  client.perform arrived message (first.headD '\x00')

def onLine (client : ChatClient) (arrived : Option Int) (line : Text) : Except ClientStop ChatClient := do
  let message ← split line ' '
  if message.length > 0 then client.dispatch arrived message else return client

end ChatClient
end ChatReactor
