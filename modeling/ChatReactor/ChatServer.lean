import Mathlib.Algebra.Group.Int.Defs
import Mathlib.Algebra.Group.Nat.Defs
import ChatReactor.Lib.Prog

/-!
# The chat server

`excercises/chatServer/server_threaded.cc`, with `mysql_connection.{h,cc}` and the messages of `msg.proto`.

| here | there |
| --- | --- |
| `Server.userinfo`, `nextId` | the table of `user.sql` (`user_id` is `auto_increment`) |
| `Server.insertId` | what `last_insert_id()` gives on the server's one MySQL connection |
| `Server.result` | `MysqlConnection::m_result`; `none` is `NULL` |
| `Server.results` | not in the source: how many results `m_result` has held, each freed when the next one comes |
| `RowPtr` | what `result_row_data` returns: a pointer into one of these results |
| `Server.lists` | the Redis lists, one for each user |
| `Server.userconnections` | `userconnections_`; a key can be absent or hold a null pointer |
| `Server.lastestRecord` | `lastestRecord_` |
| `Cmd` | what a handler does to the MySQL connection, to Redis, to the two maps and to a `TcpConnection` |
| `Outcome` | what MySQL, Redis and memory that has been freed make of a command |
| `Handler` | the body of a handler, a tree of such commands |

A handler is a `Prog`: it can run alone (`serve`) or be interleaved with others command by command, which
is finer than the calls of `MysqlConnection`. Dereferencing a null pointer is the command `abort`, which
has no result. `insertFmt` pastes name and password into its text: where they are not `Verbatim`, MySQL
finds another `INSERT` there, and the rows that it adds are the outcome's. The bytes of a stored `PMessage`
are not modelled: a list holds the messages that were serialised into it.
-/

namespace ChatReactor

abbrev Text := List Char
abbrev Conn := Nat

/-! ## Messages (msg.proto) -/

structure SignUp where
  name : Text
  passwd : Text
  deriving Repr, DecidableEq

structure Login where
  uid : Int
  passwd : Text
  deriving Repr, DecidableEq

structure Quit where
  uid : Int
  deriving Repr, DecidableEq

structure PMessage where
  uid : Int
  peerid : Int
  content : Text
  deriving Repr, DecidableEq

/-- What a server can send. -/
inductive Reply
  | success (uid : Int)
  | pmessage (m : PMessage)
  | failure (uid : Int) (erro : Text)
  deriving Repr, DecidableEq

/-! ## The MySQL connection -/

inductive UserStaus
  | offline | away | idle | online | busy
  deriving Repr, DecidableEq

structure UserInfo where
  userId : Nat
  userName : Text
  password : Text
  status : UserStaus
  deriving Repr, DecidableEq

/-- The statements of the handlers: `insertFmt`, `selectFmt`, `updateFmt` and `SELECT last_insert_id()`. -/
inductive Query
  | insert (name passwd : Text)
  | lastInsertId
  | select (uid : Int)
  | update (status : UserStaus) (uid : Int)
  deriving Repr, DecidableEq

structure Server where
  userinfo : List UserInfo
  nextId : Nat
  insertId : Nat
  result : Option (List Text)
  results : Nat
  lists : Int → List PMessage
  userconnections : Int → Option (Option Conn)
  lastestRecord : Int → Option Int
  sent : List (Conn × Reply)

inductive Outcome
  | ok
  /-- `exec` returns `-1`; `redisCommand` returns `NULL` -/
  | fail
  /-- the reply of Redis is an error: its `integer` is 0 and its `element` is `NULL` -/
  | error
  /-- the text of the statement is another `INSERT`, which adds rows with these names and passwords -/
  | rows (added : List (Text × Text))
  /-- memory that has been freed holds this text -/
  | stray (text : Text)
  deriving Repr, DecidableEq

/-- What is pasted between the quotes of `insertFmt` is stored as it is: it is ASCII without a quote, a backslash or a NUL, and
fits a `varchar(64)`. -/
def Verbatim (text : Text) : Bool :=
  text.all (fun c => c.toNat < 128 && c.toNat ≠ 39 && c.toNat ≠ 92 && c.toNat ≠ 0) && text.length ≤ 64

/-- What a `const char*` shows of a text. -/
def cText (text : Text) : Text := text.takeWhile (·.toNat ≠ 0)

structure RowPtr where
  /-- The number of the result. -/
  result : Nat
  /-- The C string that the only field points to. -/
  field : Text
  deriving Repr, DecidableEq

namespace Server

/-- The fields that `SELECT password FROM userinfo WHERE user_id = '%ld'` finds. -/
def passwords (s : Server) (uid : Int) : List Text :=
  (s.userinfo.filter fun row => (row.userId : Int) = uid).map UserInfo.password

/-- The password stored for a user. -/
def stored (s : Server) (uid : Int) : Option Text := (s.passwords uid).head?

/-- What `pwd[0]` shows of it. -/
def shown (s : Server) (uid : Int) : Option Text := (s.stored uid).map cText

/-- An `INSERT` gives its rows one id after the other; `last_insert_id()` is the first of them. -/
def insert (s : Server) (added : List (Text × Text)) : Server :=
  { s with
    userinfo := s.userinfo ++ added.zipIdx.map fun x => ⟨s.nextId + x.2, x.1.1, x.1.2, .offline⟩
    nextId := s.nextId + added.length
    insertId := if added.isEmpty then s.insertId else s.nextId }

/-- The database's side of a statement: the tables, and the result set if it has one. `none` is a failure. -/
def query (s : Server) : Outcome → Query → Option (Server × Option (List Text))
  | .ok, .insert name passwd => if Verbatim name && Verbatim passwd then some (s.insert [(name, passwd)], none) else none
  | .rows added, .insert name passwd => if Verbatim name && Verbatim passwd then none else some (s.insert added, none)
  | .ok, .lastInsertId => some (s, some [Nat.toDigits 10 s.insertId])
  | .ok, .select uid => some (s, some ((s.passwords uid).map cText))
  | .ok, .update status uid =>
    some ({ s with userinfo := s.userinfo.map fun row =>
      if (row.userId : Int) = uid then { row with status := status } else row }, none)
  | _, _ => none

/-- `MysqlConnection::exec`: a statement that fails returns `-1` and leaves the result of an earlier one in
`m_result`; one that succeeds frees it. -/
def exec (s : Server) (o : Outcome) (q : Query) : Int × Server :=
  match s.query o q with
  | some (s', result) => (0, { s' with result := result, results := s.results + 1 })
  | none => (-1, s)

/-- `MysqlConnection::result_row_data(0)`: `NULL` without a result and for an empty one. -/
def resultRowData (s : Server) : Option RowPtr := (s.result.bind List.head?).map (⟨s.results, ·⟩)

end Server

/-! ## Commands and what they do -/

inductive Cmd
  /-- `mysql_->exec`, `mysql_->exec_format` -/
  | exec (q : Query)
  /-- `mysql_->result_row_data(0)` -/
  | resultRowData
  /-- `row[0]` -/
  | field (row : RowPtr)
  /-- `LLEN`, `LRANGE uid start -1` and `LPUSH`; a `NULL` reply is `none` -/
  | llen (uid : Int)
  | lrange (uid start : Int)
  | lpush (uid : Int) (m : PMessage)
  /-- `lastestRecord_[uid]`, read and assigned, and `lastestRecord_.insert` -/
  | record (uid : Int)
  | setRecord (uid n : Int)
  | insertRecord (uid n : Int)
  /-- `userconnections_[uid]`, read and assigned, and `userconnections_.insert` -/
  | conn (uid : Int)
  | setConn (uid : Int) (conn : Conn)
  | insertConn (uid : Int) (conn : Conn)
  /-- `codec_.send` -/
  | send (conn : Conn) (m : Reply)
  /-- a null pointer is dereferenced -/
  | abort

@[reducible] def Cmd.Res : Cmd → Type
  | .exec _ => Int
  | .resultRowData => Option RowPtr
  | .field _ => Text
  | .llen _ => Option Int
  | .lrange _ _ => Option (List PMessage)
  | .lpush _ _ => Option Int
  | .record _ => Int
  | .conn _ => Option Conn
  | .abort => Empty
  | _ => Unit

namespace Server

/-- `LRANGE key start -1`; a negative index counts from the end. -/
def lrange (l : List PMessage) (start : Int) : List PMessage :=
  if start < 0 then l.drop (l.length + start).toNat else l.drop start.toNat

/-- A command on the server. `operator[]` of the two maps inserts the default where the key is missing, `insert` keeps
the entry that is there. -/
def run (s : Server) (o : Outcome) : (c : Cmd) → Option (c.Res × Server)
  | .exec q => some (s.exec o q)
  | .resultRowData => some (s.resultRowData, s)
  | .field row =>
    if row.result = s.results then some (row.field, s)
    else match o with
      | .stray text => some (text, s)
      | _ => none
  | .llen uid => some (match o with
      | .ok => some ((s.lists uid).length : Int)
      | .error => some 0
      | _ => none, s)
  | .lrange uid start => some (match o with
      | .ok => some (lrange (s.lists uid) start)
      | .error => some []
      | _ => none, s)
  | .lpush uid m => match o with
    | .ok =>
      let list := m :: s.lists uid
      some (some (list.length : Int), { s with lists := Function.update s.lists uid list })
    | .error => some (some 0, s)
    | _ => some (none, s)
  | .record uid =>
    let n := (s.lastestRecord uid).getD 0
    some (n, { s with lastestRecord := Function.update s.lastestRecord uid (some n) })
  | .setRecord uid n => some ((), { s with lastestRecord := Function.update s.lastestRecord uid (some n) })
  | .insertRecord uid n =>
    let entry := (s.lastestRecord uid).getD n
    some ((), { s with lastestRecord := Function.update s.lastestRecord uid (some entry) })
  | .conn uid =>
    let conn := (s.userconnections uid).getD none
    some (conn, { s with userconnections := Function.update s.userconnections uid (some conn) })
  | .setConn uid conn =>
    some ((), { s with userconnections := Function.update s.userconnections uid (some (some conn)) })
  | .insertConn uid conn =>
    let entry := (s.userconnections uid).getD (some conn)
    some ((), { s with userconnections := Function.update s.userconnections uid (some entry) })
  | .send conn m => some ((), { s with sent := s.sent ++ [(conn, m)] })
  | .abort => none

end Server

/-- A statement changes the tables and the result, nothing else. -/
theorem Server.exec_frame (s : Server) (o : Outcome) (q : Query) :
    (s.exec o q).2.userconnections = s.userconnections ∧ (s.exec o q).2.lastestRecord = s.lastestRecord ∧
      (s.exec o q).2.sent = s.sent ∧ (s.exec o q).2.lists = s.lists := by
  unfold Server.exec
  split
  case h_1 s' result hquery =>
    unfold Server.query at hquery
    split at hquery
    case h_1 | h_2 =>
      split at hquery <;> cases hquery
      exact ⟨rfl, rfl, rfl, rfl⟩
    all_goals
      cases hquery
      try exact ⟨rfl, rfl, rfl, rfl⟩
  case h_2 => exact ⟨rfl, rfl, rfl, rfl⟩

theorem exec_run {s s' : Server} {o : Outcome} {q : Query} {r : Int} (hrun : s.run o (.exec q) = some (r, s')) :
    s' = (s.exec o q).2 := congrArg Prod.snd (Option.some.inj hrun).symm

/-- Reading through a row changes nothing. -/
theorem field_run {s s' : Server} {o : Outcome} {row : RowPtr} {r : Text} (hrun : s.run o (.field row) = some (r, s')) :
    s' = s := by
  simp only [Server.run] at hrun
  split at hrun
  · cases hrun
    rfl
  · cases o <;> cases hrun
    rfl

/-! ## The handlers -/

abbrev Handler := Prog Cmd Cmd.Res

/-- Issue a command. -/
def issue (c : Cmd) : Handler c.Res := .call c .ret

/-- Follow a pointer. -/
def deref {α : Type} : Option α → Handler α
  | some a => .ret a
  | none => .call .abort Empty.elim

/-- `if (NULL != reply)` -/
def unlessNull {α : Type} (p : Option α) (f : α → Handler Unit) : Handler Unit := match p with
  | some a => f a
  | none => .ret ()

def isSpace (c : Char) : Bool := c = ' ' ∨ 9 ≤ c.toNat ∧ c.toNat ≤ 13

/-- The digits at the start of a text. -/
def digits (acc : Nat) : Text → Nat
  | c :: cs => if c.isDigit then digits (10 * acc + (c.toNat - 48)) cs else acc
  | [] => acc

/-- The number at the start of a text: blanks, a sign, digits. -/
def number (t : Text) : Int := match t.dropWhile isSpace with
  | '-' :: cs => -(digits 0 cs : Int)
  | '+' :: cs => digits 0 cs
  | cs => digits 0 cs

/-- `strtol(t, NULL, 10)`: a number that is not a `long` becomes the nearest one. -/
def strtol (t : Text) : Int := max (-2 ^ 63) (min (number t) (2 ^ 63 - 1))

/-- `atoi`, which is `(int) strtol(t, NULL, 10)`. -/
def atoi (t : Text) : Int := (strtol t).bmod (2 ^ 32)

/-- `ChatServer::onSignUp`. The return codes of the two statements are ignored. -/
def onSignUp (conn : Conn) (message : SignUp) : Handler Unit := do
  let _ ← issue (.exec (.insert message.name message.passwd))
  let _ ← issue (.exec .lastInsertId)
  let str ← deref (← issue .resultRowData)
  issue (.insertConn (atoi (← issue (.field str))) conn)
  issue (.insertRecord (atoi (← issue (.field str))) 0)
  issue (.send conn (.success (atoi (← issue (.field str)))))

/-- The loop of `onLogin`, from index `i` on: send `element[i]` and those after it, `count` of them. -/
def replay (conn : Conn) (element : List PMessage) : (i count : Nat) → Handler Unit
  | _, 0 => pure ()
  | i, count + 1 => do
    let pmessage ← deref element[i]?
    issue (.send conn (.pmessage pmessage))
    replay conn element (i + 1) count

/-- `ChatServer::onLogin` once the password has been found to be right. -/
def welcome (conn : Conn) (uid : Int) : Handler Unit := do
  let _ ← issue (.exec (.update .online uid))
  let lastestIndex ← issue (.record uid)
  let currentIndex ← deref (← issue (.llen uid))
  let reply1 ← issue (.lrange uid lastestIndex)
  unlessNull reply1 fun element => replay conn element 0 (currentIndex - lastestIndex).toNat
  issue (.setConn uid conn)

/-- `ChatServer::onLogin` once the text of the row has been read. -/
def comparePasswd (conn : Conn) (message : Login) (passwd : Text) : Handler Unit :=
  if passwd = message.passwd then welcome conn message.uid else pure ()

/-- `ChatServer::onLogin` once `result_row_data` has returned. -/
def checkPasswd (conn : Conn) (message : Login) (row : Option RowPtr) : Handler Unit := do
  let pwd ← deref row
  comparePasswd conn message (← issue (.field pwd))

/-- `ChatServer::onLogin` -/
def onLogin (conn : Conn) (message : Login) : Handler Unit := do
  let _ ← issue (.exec (.select message.uid))
  checkPasswd conn message (← issue .resultRowData)

/-- `ChatServer::onQuit` -/
def onQuit (_conn : Conn) (message : Quit) : Handler Unit := do
  let _ ← issue (.exec (.update .offline message.uid))
  let reply ← issue (.llen message.uid)
  unlessNull reply fun integer => issue (.setRecord message.uid integer)

/-- `ChatServer::onPMessage` -/
def onPMessage (conn : Conn) (message : PMessage) : Handler Unit := do
  let wconn ← issue (.conn message.peerid)
  unlessNull wconn fun peercon => do
    issue (.send peercon (.pmessage message))
    issue (.send conn (.success message.uid))
  let _ ← issue (.lpush message.peerid message)

/-! ## Requests -/

inductive Request
  | signUp (conn : Conn) (message : SignUp)
  | login (conn : Conn) (message : Login)
  | quit (conn : Conn) (message : Quit)
  | pmessage (conn : Conn) (message : PMessage)
  deriving Repr, DecidableEq

/-- The callback registered for each message type. -/
def handle : Request → Handler Unit
  | .signUp conn message => onSignUp conn message
  | .login conn message => onLogin conn message
  | .quit conn message => onQuit conn message
  | .pmessage conn message => onPMessage conn message

/-- The connection that a request came on. -/
def Request.conn : Request → Conn
  | .signUp conn _ | .login conn _ | .quit conn _ | .pmessage conn _ => conn

/-- What the handler of a request can read a range of, write and send. -/
def Request.Issues (q : Request) : Cmd → Prop
  | .exec (.insert _ _) | .exec .lastInsertId => ∃ conn message, q = .signUp conn message
  | .lrange uid _ => ∃ conn message, q = .login conn message ∧ uid = message.uid
  | .lpush uid m => ∃ conn, q = .pmessage conn m ∧ uid = m.peerid
  | .setRecord uid _ => ∃ conn message, q = .quit conn message ∧ uid = message.uid
  | .insertRecord _ n => (∃ conn message, q = .signUp conn message) ∧ n = 0
  | .conn uid => ∃ conn message, q = .pmessage conn message ∧ uid = message.peerid
  | .setConn uid conn => ∃ message, q = .login conn message ∧ uid = message.uid
  | .insertConn _ conn => ∃ message, q = .signUp conn message
  | .send conn (.success _) => conn = q.conn
  | .send conn (.pmessage m) => (∃ message, q = .login conn message) ∨ ∃ conn', q = .pmessage conn' m
  | .send _ (.failure _ _) => False
  | _ => True

/-- The loop only sends, on one connection, unless an index is out of range. -/
theorem replay_all {P : Cmd → Prop} {conn : Conn} (hsend : ∀ m, P (.send conn (.pmessage m))) (habort : P .abort)
    (element : List PMessage) : ∀ count i, (replay conn element i count).All P
  | 0, _ => trivial
  | count + 1, i => by
    unfold replay
    cases element[i]? with
    | none => exact ⟨habort, nofun⟩
    | some m => exact ⟨hsend m, fun _ => replay_all hsend habort element count (i + 1)⟩

theorem welcome_issues (conn : Conn) (message : Login) :
    (welcome conn message.uid).All (Request.login conn message).Issues := by
  refine ⟨trivial, fun _ => ⟨trivial, fun lastestIndex => ⟨trivial, fun reply => ?_⟩⟩⟩
  cases reply with
  | none => exact ⟨trivial, nofun⟩
  | some currentIndex =>
    refine ⟨⟨conn, message, rfl, rfl⟩, fun reply1 => ?_⟩
    have hset : (issue (.setConn message.uid conn)).All (Request.login conn message).Issues :=
      ⟨⟨message, rfl, rfl⟩, fun _ => trivial⟩
    cases reply1 with
    | none => exact hset
    | some element =>
      have hreplay := replay_all (P := (Request.login conn message).Issues) (fun _ => .inl ⟨message, rfl⟩) trivial element
      exact Prog.All.bind (fun _ => hset) (hreplay _ 0)

theorem checkPasswd_issues (conn : Conn) (message : Login) (row : Option RowPtr) :
    (checkPasswd conn message row).All (Request.login conn message).Issues := by
  cases row with
  | none => exact ⟨trivial, nofun⟩
  | some pwd =>
    refine ⟨trivial, fun passwd => ?_⟩
    change (comparePasswd conn message passwd).All _
    rw [comparePasswd]
    split
    · exact welcome_issues conn message
    · trivial

/-- A handler issues nothing else. -/
theorem handle_issues : ∀ q : Request, (handle q).All q.Issues
  | .signUp conn message => by
    refine ⟨⟨conn, message, rfl⟩, fun _ => ⟨⟨conn, message, rfl⟩, fun _ => ⟨trivial, fun row => ?_⟩⟩⟩
    cases row with
    | none => exact ⟨trivial, nofun⟩
    | some str =>
      exact ⟨trivial, fun _ => ⟨⟨message, rfl⟩, fun _ => ⟨trivial, fun _ => ⟨⟨⟨conn, message, rfl⟩, rfl⟩, fun _ =>
        ⟨trivial, fun _ => ⟨rfl, fun _ => trivial⟩⟩⟩⟩⟩⟩
  | .login conn message => ⟨trivial, fun _ => ⟨trivial, checkPasswd_issues conn message⟩⟩
  | .quit conn message => by
    refine ⟨trivial, fun _ => ⟨trivial, fun reply => ?_⟩⟩
    cases reply with
    | none => trivial
    | some integer => exact ⟨⟨conn, message, rfl, rfl⟩, fun _ => trivial⟩
  | .pmessage conn message => by
    refine ⟨⟨conn, message, rfl, rfl⟩, fun wconn => ?_⟩
    have hpush : (issue (.lpush message.peerid message)).All (Request.pmessage conn message).Issues :=
      ⟨⟨conn, rfl, rfl⟩, fun _ => trivial⟩
    cases wconn with
    | none => exact ⟨hpush.1, fun _ => trivial⟩
    | some peercon =>
      exact ⟨.inr ⟨conn, rfl⟩, fun _ => ⟨rfl, fun _ => ⟨hpush.1, fun _ => trivial⟩⟩⟩

/-- MySQL and Redis succeed. -/
def Server.succeed (s : Server) (c : Cmd) : Option (c.Res × Server) := s.run .ok c

/-- Serve a request, alone. -/
def serve (s : Server) (q : Request) : Option Server := ((handle q).run Server.succeed s).map Prod.snd

/-- Two users, and nothing stored for either. -/
def twoUsers : Server where
  userinfo := [⟨1, ['u'], ['a'], .offline⟩, ⟨2, ['v'], ['b'], .offline⟩]
  nextId := 3
  insertId := 2
  result := none
  results := 0
  lists _ := []
  userconnections _ := none
  lastestRecord _ := none
  sent := []

end ChatReactor
