import ChatReactor.SudokuServer
import ChatReactor.SudokuStat
import ChatReactor.Lib.Runs

/-!
# The Sudoku server for production (`excercises/sudoku/server_prod.cc`)

| here | there |
| --- | --- |
| `Hooks` | what the server sets on a connection: `throttle` in its context, the high water mark, whether `writeComplete` is set |
| `Config` | `numThreads_`, and the loop that each connection was given to |
| `Doing` | where the thread of an I/O loop stands: in `poll`, or in front of the next access to something shared |
| `nextLine` | a round of the loop of `onMessage`, up to `recordRequest()` |
| `Server.queue` | `threadPool_.queue_`, the tasks that wait; `queueSize()` is its length |
| `Worker` | a worker inside `solve`, in front of `send` or in front of `recordResponse` |
| `log`, `Entry` | a record of what has happened, not part of the program |

Any number of connections in any number of loops, and any number of workers. Each event makes at most one access to what the
threads share: the statistics, the queue of the pool, or the state of a connection. The high water and write complete callbacks may
come whenever their loop polls. A pool without threads runs the task in place (`ThreadPool::run`). The log and the inspector, which
could `reset` the statistics, are left out.
-/

namespace ChatReactor

open Lines SudokuServer

namespace SudokuProd

/-! ## What is set on a connection -/

structure Hooks where
  throttle : Bool
  highWaterMark : Nat
  writeCompleteCallback : Bool
  deriving DecidableEq

def lowMark : Nat := 5 * 1024 * 1024

def highMark : Nat := 10 * 1024 * 1024

/-- `onConnection` of a connection that is up. -/
def Hooks.onConnection : Hooks := { throttle := false, highWaterMark := lowMark, writeCompleteCallback := false }

/-- `SudokuServer::highWaterMark`; `none` where it sends `Bad Request!`, shuts down and calls `recordBadRequest`. -/
def Hooks.onHighWaterMark (tosend : Nat) : Option Hooks :=
  if tosend < highMark then some { throttle := true, highWaterMark := highMark, writeCompleteCallback := true } else none

/-- `SudokuServer::writeComplete` -/
def Hooks.onWriteComplete : Hooks := { throttle := false, highWaterMark := lowMark, writeCompleteCallback := false }

/-! ## Requests -/

structure Request where
  id : List UInt8
  puzzle : List UInt8
  receiveTime : Int
  deriving DecidableEq

def serverTooBusy : List UInt8 := bytesOf "ServerTooBusy"

/-- The part of `processRequest` that sets `req.id` and `req.puzzle`; `none` where it returns `false`. -/
def parseRequest (numThreads : Nat) (request : List UInt8) : Option (List UInt8 × List UInt8) :=
  let colon := request.idxOf 58
  if colon ≠ request.length then some (request.take colon, request.drop (colon + 1))
  else if 1 < numThreads then none
  else some ([], request)

/-- What a line asks for, if `processRequest` returns `true` for it. -/
def goodRequest (numThreads : Nat) (request : List UInt8) : Option (List UInt8 × List UInt8) :=
  (parseRequest numThreads request).filter fun p => p.2.length = kCells

/-- What the loop of `onMessage` finds. -/
inductive Next
  | nothing
  | line (request : List UInt8)
  | tooLong
  deriving DecidableEq

def nextLine (buf : Buffer) : Option (Next × Buffer) :=
  (lineRound (fun _ request => some (Next.line request, true)) (fun _ => Next.tooLong) Next.nothing buf).map (·.1)

/-! ## The server -/

structure Conn where
  peer : Peer
  /-- The channel of the connection is polled. -/
  reading : Bool
  buf : Buffer
  hooks : Hooks

structure Config (n L : Nat) where
  numThreads : Nat
  loopOf : Fin n → Fin L

/-- `boost::bind(&SudokuServer::solve, this, conn, req)` -/
structure Task (n : Nat) where
  conn : Fin n
  req : Request
  deriving DecidableEq

inductive Worker (n : Nat)
  | solve (task : Task n)
  | recordResponse (task : Task n) (solved : Bool)
  deriving DecidableEq

inductive Doing (n : Nat)
  | poll
  /-- In `onMessage`, at the condition of its loop. -/
  | onMessage (c : Fin n) (receiveTime : Int)
  /-- In `processRequest`, in front of `queueSize()`. -/
  | processRequest (c : Fin n) (receiveTime : Int) (request : List UInt8)
  /-- In front of `threadPool_.run`. -/
  | run (c : Fin n) (req : Request)
  /-- In front of the `send` of `ServerTooBusy`. -/
  | tooBusy (c : Fin n) (req : Request)
  | recordDropped (c : Fin n) (receiveTime : Int)
  /-- In `solve`, called by `run` of a pool without threads. -/
  | recordResponse (c : Fin n) (req : Request) (solved : Bool)
  /-- In front of the `send` that comes before `shutdown`. -/
  | reject (c : Fin n) (message : List UInt8)
  | shutdown (c : Fin n)
  | recordBad (c : Fin n)
  deriving DecidableEq

/-- What has happened on a connection: a read, a line taken, a line too long, a high water mark too high, a request that `solve` has
answered or that was refused. -/
inductive Entry
  | read (chunk : List UInt8)
  | taken (request : List UInt8)
  | tooLong
  | tooHigh
  | answered (id puzzle : List UInt8)
  | refused (id puzzle : List UInt8)
  deriving DecidableEq

structure Server (n L : Nat) where
  conns : Fin n → Conn
  loops : Fin L → Doing n
  queue : List (Task n)
  workers : List (Worker n)
  stat : SudokuStat
  log : List (Fin n × Entry)

variable {n L : Nat}

def Conn.new : Conn := { peer := .new, reading := true, buf := .new, hooks := .onConnection }

/-- Nothing has happened on any connection yet. -/
def Server.init (n L : Nat) : Server n L where
  conns := fun _ => .new
  loops := fun _ => .poll
  queue := []
  workers := []
  stat := .fresh
  log := []

namespace Server

def setConn (w : Server n L) (c : Fin n) (conn : Conn) : Server n L := { w with conns := Function.update w.conns c conn }

def setLoop (w : Server n L) (l : Fin L) (d : Doing n) : Server n L := { w with loops := Function.update w.loops l d }

def note (w : Server n L) (c : Fin n) (entry : Entry) : Server n L := { w with log := w.log ++ [(c, entry)] }

def send (w : Server n L) (c : Fin n) (message : List UInt8) : Server n L :=
  w.setConn c { w.conns c with peer := (w.conns c).peer.send message }

def record (w : Server n L) (call : SudokuStat.Call) : Option (Server n L) := do
  let stat ← w.stat.call call
  return { w with stat := stat }

/-- The first half of `solve`, and whether there is a solution. -/
def solve (w : Server n L) (c : Fin n) (req : Request) : Option (Server n L × Bool) := do
  let result ← solveSudoku req.puzzle
  return ((w.send c (reply req.id result)).note c (.answered req.id req.puzzle), decide (result ≠ kNoSolution))

/-- The thread of the loop `l` goes on. -/
def go (cfg : Config n L) (w : Server n L) (l : Fin L) (now : Int) : Option (Server n L) :=
  match w.loops l with
  | .poll => none
  | .onMessage c receiveTime => do
    let (next, buf) ← nextLine (w.conns c).buf
    let w := w.setConn c { w.conns c with buf := buf }
    match next with
    | .nothing => return w.setLoop l .poll
    | .tooLong => return (w.setLoop l (.reject c idTooLong)).note c .tooLong
    | .line request =>
      let w ← w.record .recordRequest
      return (w.setLoop l (.processRequest c receiveTime request)).note c (.taken request)
  | .processRequest c receiveTime request =>
    match goodRequest cfg.numThreads request with
    | some (id, puzzle) =>
      if w.queue.length < 1000 * 1000 ∧ (w.conns c).hooks.throttle = false then
        some (w.setLoop l (.run c ⟨id, puzzle, receiveTime⟩))
      else some (w.setLoop l (.tooBusy c ⟨id, puzzle, receiveTime⟩))
    | none => some (w.setLoop l (.reject c badRequest))
  | .run c req =>
    if cfg.numThreads = 0 then do
      let (w, solved) ← w.solve c req
      return w.setLoop l (.recordResponse c req solved)
    else some { w.setLoop l (.onMessage c req.receiveTime) with queue := w.queue ++ [⟨c, req⟩] }
  | .tooBusy c req =>
    let w := (w.send c (reply req.id serverTooBusy)).note c (.refused req.id req.puzzle)
    some (w.setLoop l (.recordDropped c req.receiveTime))
  | .recordDropped c receiveTime => do
    let w ← w.record .recordDroppedRequest
    return w.setLoop l (.onMessage c receiveTime)
  | .recordResponse c req solved => do
    let w ← w.record (.recordResponse now req.receiveTime solved)
    return w.setLoop l (.onMessage c req.receiveTime)
  | .reject c message => some ((w.send c message).setLoop l (.shutdown c))
  | .shutdown c => some ((w.setConn c { w.conns c with peer := (w.conns c).peer.shutdown }).setLoop l (.recordBad c))
  | .recordBad _ => do
    let w ← w.record .recordBadRequest
    return w.setLoop l .poll

/-- A worker goes on. The order of the list has no meaning. -/
def work (w : Server n L) (i : Nat) (now : Int) : Option (Server n L) := do
  let worker ← w.workers[i]?
  let rest := w.workers.eraseIdx i
  match worker with
  | .solve task =>
    let (w, solved) ← w.solve task.conn task.req
    return { w with workers := rest ++ [.recordResponse task solved] }
  | .recordResponse task solved =>
    let w ← w.record (.recordResponse now task.req.receiveTime solved)
    return { w with workers := rest }

inductive Event (n L : Nat)
  /-- `handleRead` of the connection, up to the call of `onMessage`. -/
  | read (c : Fin n) (receiveTime : Int) (chunk : List UInt8)
  | close (c : Fin n)
  | highWaterMark (c : Fin n) (tosend : Nat)
  | writeComplete (c : Fin n)
  | go (l : Fin L) (now : Int)
  /-- A worker takes the first task of the queue. -/
  | take
  | work (i : Nat) (now : Int)

def step (cfg : Config n L) (w : Server n L) : Event n L → Option (Server n L)
  | .read c receiveTime chunk => do
    let (_, buf) ← (w.conns c).buf.readFd (some chunk)
    return ((w.setConn c { w.conns c with buf := buf }).setLoop (cfg.loopOf c) (.onMessage c receiveTime)).note c (.read chunk)
  | .close c => some (w.setConn c { w.conns c with peer := (w.conns c).peer.shutdown, reading := false })
  | .highWaterMark c tosend => match Hooks.onHighWaterMark tosend with
    | some hooks => some (w.setConn c { w.conns c with hooks := hooks })
    | none => some ((w.setLoop (cfg.loopOf c) (.reject c badRequest)).note c .tooHigh)
  | .writeComplete c => some (w.setConn c { w.conns c with hooks := .onWriteComplete })
  | .go l now => w.go cfg l now
  | .take => match w.queue with
    | task :: queue => some { w with queue := queue, workers := w.workers ++ [.solve task] }
    | [] => none
  | .work i now => w.work i now

/-- A callback of a connection begins where its loop polls; the clock is behind the first second. -/
def Event.Legal (cfg : Config n L) (w : Server n L) : Event n L → Prop
  | .read c _ _ => w.loops (cfg.loopOf c) = .poll ∧ (w.conns c).reading = true
  | .close c => w.loops (cfg.loopOf c) = .poll ∧ (w.conns c).reading = true
  | .highWaterMark c _ => w.loops (cfg.loopOf c) = .poll
  | .writeComplete c => w.loops (cfg.loopOf c) = .poll
  | .go l now => w.loops l ≠ .poll ∧ 1 ≤ secondsSinceEpoch now
  | .take => w.queue ≠ [] ∧ w.workers.length < cfg.numThreads
  | .work i now => i < w.workers.length ∧ 1 ≤ secondsSinceEpoch now

instance (cfg : Config n L) (w : Server n L) : (e : Event n L) → Decidable (e.Legal cfg w)
  | .read .. | .close _ | .go .. | .take | .work .. => inferInstanceAs (Decidable (_ ∧ _))
  | .highWaterMark _ _ | .writeComplete _ => inferInstanceAs (Decidable (_ = _))

abbrev Steps (cfg : Config n L) := Run (step cfg) fun w e => Event.Legal cfg w e

end Server
end SudokuProd
end ChatReactor
