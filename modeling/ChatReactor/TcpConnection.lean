import ChatReactor.Poller
import ChatReactor.Lib.Runs
import ChatReactor.Lib.TaskQueue

/-!
# A `TcpConnection` of a `TcpServer`, in its `EventLoop`

| here | there |
| --- | --- |
| `TcpConnection` | `state_`, the channel, `outputBuffer_` and the callbacks set (`TcpConnection.h:92-116`) |
| `slot` | the channel's entry in the poller: absent, or present with its descriptor negated or not |
| `LoopFunctor`, `queue` | the connection's functors in `pendingFunctors_` and in the batch `doPendingFunctors` runs |
| `half` | a thread inside `queueInLoop` that has not pushed its functor yet |
| `todo` | the callbacks the running `Channel::handleEvent` has still to make (`Channel.cc:42-68`) |
| `inMap`, `removals` | the connection's entry in `TcpServer::connections_`, and `removeConnectionInLoop` functors queued in the server's loop |
| `wire`, `shutdownWrites` | what the socket got: the bytes `::write` took, and the calls of `shutdownWrite` |
| `accepted`, `ran`, `closeCalls`, `destroyed` | records of what has happened, not part of the program |

User code runs in the callbacks: what it does to the connection are the events `send`, `shutdown` and `forceClose` of the
loop's thread, which may come at any time, as those of other threads do. Results of `::write`
and `readFd` are parameters of the events. A failed assert is `none`. `inputBuffer_` only passes its bytes to the user.
-/

namespace ChatReactor

inductive StateE
  | kConnecting | kConnected | kDisconnecting | kDisconnected
deriving DecidableEq, Repr

/-- What `::write` returned: a count, or -1 with `EWOULDBLOCK`, with `EPIPE` or `ECONNRESET`
(`fault`), or with another `errno`. -/
inductive WriteResult
  | wrote (n : Nat) | wouldBlock | error | fault
deriving DecidableEq, Repr

/-- `::write` takes at most the bytes it was given. -/
def WriteResult.Legal (len : Nat) : WriteResult → Prop
  | .wrote n => n ≤ len
  | _ => True

instance (len : Nat) : ∀ r : WriteResult, Decidable (r.Legal len)
  | .wrote n => inferInstanceAs (Decidable (n ≤ len))
  | .wouldBlock | .error | .fault => .isTrue trivial

inductive LoopFunctor
  | connectEstablished | connectDestroyed | forceCloseInLoop | shutdownInLoop
  | sendInLoop (sender : Nat) (message : List UInt8)
  | writeCompleteCallback
  | highWaterMarkCallback (len : Nat)
deriving DecidableEq, Repr

/-- What the functor hands to `::write`. -/
def LoopFunctor.message : LoopFunctor → List UInt8
  | .sendInLoop _ message => message
  | _ => []

structure TcpConnection where
  state : StateE
  events : BitVec 32
  /-- `some true` if the poller polls the descriptor. -/
  slot : Option Bool
  outputBuffer : Buffer
  hasWriteCompleteCallback : Bool
  hasHighWaterMarkCallback : Bool
  highWaterMark : Nat
  wire : List UInt8
  shutdownWrites : Nat
deriving DecidableEq, Repr

namespace TcpConnection

def isWriting (c : TcpConnection) : Bool := c.events &&& kWriteEvent != 0

/-- `Channel::update`: a new channel gets a polled entry; later the descriptor is negated if there
are no events, and stays as it is otherwise (`Poller.cc:53-84`). -/
def update (c : TcpConnection) (events : BitVec 32) : TcpConnection :=
  { c with events := events, slot := match c.slot with
    | none => some true
    | some polled => some (polled && events != kNoneEvent) }

def enableReading (c : TcpConnection) : TcpConnection := c.update (Poller.Call.enableReading.events c.events)
def enableWriting (c : TcpConnection) : TcpConnection := c.update (Poller.Call.enableWriting.events c.events)
def disableWriting (c : TcpConnection) : TcpConnection := c.update (Poller.Call.disableWriting.events c.events)
def disableAll (c : TcpConnection) : TcpConnection := c.update (Poller.Call.disableAll.events c.events)

/-- `EventLoop::removeChannel`, with the asserts of `Poller::removeChannel` on the channel's entry. -/
def removeChannel (c : TcpConnection) : Option TcpConnection := do
  check (c.events = kNoneEvent)
  check (c.slot = some false)
  return { c with slot := none }

def isOpen (c : TcpConnection) : Prop := c.state = .kConnected ∨ c.state = .kDisconnecting

instance (c : TcpConnection) : Decidable c.isOpen := inferInstanceAs (Decidable (_ ∨ _))

/-- The first half of `sendInLoop`: `(nwrote, faultError)`, zero if nothing is written directly. -/
def directWrite (c : TcpConnection) (r : WriteResult) : Nat × Bool :=
  if c.isWriting = false ∧ c.outputBuffer.readableBytes = 0 then
    match r with
    | .wrote n => (n, false)
    | .wouldBlock => (0, false)
    | .error => (0, false)
    | .fault => (0, true)
  else (0, false)

/-- A direct write of the whole message queues `writeCompleteCallback_`. -/
def directComplete (c : TcpConnection) (len : Nat) (r : WriteResult) : List LoopFunctor :=
  if c.isWriting = false ∧ c.outputBuffer.readableBytes = 0 ∧ r = .wrote len ∧ c.hasWriteCompleteCallback = true then
    [.writeCompleteCallback]
  else []

/-- The second half of `sendInLoop`, with `rest` the bytes from `nwrote` on. -/
def bufferRest (c : TcpConnection) (rest : List UInt8) : Option (TcpConnection × List LoopFunctor) := do
  let oldLen := c.outputBuffer.readableBytes
  let fs : List LoopFunctor :=
    if c.highWaterMark ≤ oldLen + rest.length ∧ oldLen < c.highWaterMark ∧ c.hasHighWaterMarkCallback = true then
      [.highWaterMarkCallback (oldLen + rest.length)]
    else []
  let buffer ← c.outputBuffer.append rest
  let c := { c with outputBuffer := buffer }
  return (if c.isWriting then c else c.enableWriting, fs)

/-- `sendInLoop` (`TcpConnection.cc:107-161`), with the functors it queues. -/
def sendInLoop (c : TcpConnection) (message : List UInt8) (r : WriteResult) :
    Option (TcpConnection × List LoopFunctor) := do
  if c.state = .kDisconnected then
    return (c, [])
  else
    let (nwrote, faultError) := c.directWrite r
    let complete := c.directComplete message.length r
    let c := { c with wire := c.wire ++ message.take nwrote }
    let remaining := message.length - nwrote
    check (remaining ≤ message.length)
    if faultError = false ∧ 0 < remaining then
      let (c, fs) ← c.bufferRest (message.drop nwrote)
      return (c, complete ++ fs)
    else
      return (c, complete)

def shutdownInLoop (c : TcpConnection) : TcpConnection :=
  if c.isWriting then c else { c with shutdownWrites := c.shutdownWrites + 1 }

/-- `handleWrite` (`TcpConnection.cc:249-282`), with the functors it queues. -/
def handleWrite (c : TcpConnection) (r : WriteResult) : Option (TcpConnection × List LoopFunctor) :=
  if c.isWriting then
    match r with
    | .wrote (n + 1) => do
      let wire := c.wire ++ c.outputBuffer.content.take (n + 1)
      let buffer ← c.outputBuffer.retrieve (n + 1)
      let c := { c with wire := wire, outputBuffer := buffer }
      if buffer.readableBytes = 0 then
        let c := c.disableWriting
        let fs : List LoopFunctor := if c.hasWriteCompleteCallback then [.writeCompleteCallback] else []
        return (if c.state = .kDisconnecting then c.shutdownInLoop else c, fs)
      else
        return (c, [])
    | _ => some (c, [])
  else some (c, [])

end TcpConnection

/-! ## The connection in its loop and its server -/

/-- What `Channel::handleEvent` calls. -/
inductive Callback
  | close | error | read | write
deriving DecidableEq, Repr

def pollIn : BitVec 32 := 0x001
def pollPri : BitVec 32 := 0x002
def pollOut : BitVec 32 := 0x004
def pollErr : BitVec 32 := 0x008
def pollHup : BitVec 32 := 0x010
def pollNval : BitVec 32 := 0x020
def pollRdhup : BitVec 32 := 0x2000

/-- The callbacks of `Channel::handleEvent`, in its order. -/
def handleEvent (revents : BitVec 32) : List Callback :=
  (if revents &&& pollHup ≠ 0 ∧ revents &&& pollIn = 0 then [.close] else []) ++
  (if revents &&& (pollErr ||| pollNval) ≠ 0 then [.error] else []) ++
  (if revents &&& (pollIn ||| pollPri ||| pollRdhup) ≠ 0 then [.read] else []) ++
  (if revents &&& pollOut ≠ 0 then [.write] else [])

structure World where
  conn : TcpConnection
  queue : TaskQueue LoopFunctor
  /-- `EventLoop::threadId_` of the connection's loop. -/
  threadId : Nat
  half : Nat → Option LoopFunctor
  todo : List Callback
  /-- The server's loop is the connection's loop. -/
  sameLoop : Bool
  inMap : Bool
  removals : Nat
  accepted : List (Nat × List UInt8)
  ran : List (Nat × List UInt8)
  closeCalls : Nat
  destroyed : Nat

namespace World

/-- Hand the result of a member of the connection back, with the functors it queued. -/
def finish (w : World) (r : TcpConnection × List LoopFunctor) : World :=
  { w with conn := r.1, queue := w.queue.pushAll r.2 }

def sendInLoop (w : World) (sender : Nat) (message : List UInt8) (r : WriteResult) : Option World := do
  let res ← w.conn.sendInLoop message r
  return { w.finish res with ran := w.ran ++ [(sender, message)] }

/-- `TcpServer::removeConnectionInLoop` (`TcpServer.cc:86-96`). -/
def removeConnectionInLoop (w : World) : Option World := do
  check (w.inMap = true)
  return { w with inMap := false, queue := w.queue.push .connectDestroyed }

/-- `handleClose` (`TcpConnection.cc:284-293`): `closeCallback_` is `TcpServer::removeConnection`. -/
def handleClose (w : World) : Option World := do
  check w.conn.isOpen
  let w := { w with conn := w.conn.disableAll, closeCalls := w.closeCalls + 1 }
  if w.sameLoop then w.removeConnectionInLoop else return { w with removals := w.removals + 1 }

def forceCloseInLoop (w : World) : Option World :=
  if w.conn.isOpen then w.handleClose else some w

def connectEstablished (w : World) : Option World := do
  check (w.conn.state = .kConnecting)
  return { w with conn := ({ w.conn with state := .kConnected }).enableReading }

def connectDestroyed (w : World) : Option World := do
  check w.conn.isOpen
  let conn ← ({ w.conn with state := .kDisconnected }).disableAll.removeChannel
  return { w with conn := conn, destroyed := w.destroyed + 1 }

/-- `handleRead` (`TcpConnection.cc:233-248`) after `readFd` has returned `n`; the message callback's
doings are events of their own, and `handleError` only logs. -/
def handleRead (w : World) (n : Int) : Option World :=
  if n = 0 then w.handleClose else some w

/-- `runInLoop` and `queueInLoop` (`EventLoop.cc:113-136`) from another thread, up to the lock. -/
def runInLoop (w : World) (thread : Nat) (f : LoopFunctor) : World :=
  { w with half := Function.update w.half thread (some f) }

def send (w : World) (thread : Nat) (message : List UInt8) (r : WriteResult) : Option World :=
  if w.conn.state = .kConnected then
    let w := { w with accepted := w.accepted ++ [(thread, message)] }
    if thread = w.threadId then w.sendInLoop thread message r
    else some (w.runInLoop thread (.sendInLoop thread message))
  else some w

def shutdown (w : World) (thread : Nat) : World :=
  if w.conn.state = .kConnected then
    let w := { w with conn := { w.conn with state := .kDisconnecting } }
    if thread = w.threadId then { w with conn := w.conn.shutdownInLoop }
    else w.runInLoop thread .shutdownInLoop
  else w

def forceClose (w : World) (thread : Nat) : World :=
  if w.conn.isOpen then
    let w := { w with conn := { w.conn with state := .kDisconnecting } }
    if thread = w.threadId then { w with queue := w.queue.push .forceCloseInLoop }
    else w.runInLoop thread .forceCloseInLoop
  else w

/-- A functor is called. -/
def call (w : World) (r : WriteResult) : LoopFunctor → Option World
  | .connectEstablished => w.connectEstablished
  | .connectDestroyed => w.connectDestroyed
  | .forceCloseInLoop => w.forceCloseInLoop
  | .shutdownInLoop => some { w with conn := w.conn.shutdownInLoop }
  | .sendInLoop sender message => w.sendInLoop sender message r
  | .writeCompleteCallback => some w
  | .highWaterMarkCallback _ => some w

/-- A callback of the channel is called. -/
def callback (w : World) (n : Int) (r : WriteResult) : Callback → Option World
  | .close => w.handleClose
  | .error => some w
  | .read => w.handleRead n
  | .write => (w.conn.handleWrite r).map w.finish

inductive Event
  | send (thread : Nat) (message : List UInt8) (r : WriteResult)
  | shutdown (thread : Nat)
  | forceClose (thread : Nat)
  /-- The thread takes the lock in `queueInLoop` and pushes its functor. -/
  | push (thread : Nat)
  /-- `poll` has returned, and `handleEvent` of the channel begins. -/
  | poll (revents : BitVec 32)
  /-- Its next callback; `readFd` returns `n` or `::write` returns `r` in it. -/
  | callback (n : Int) (r : WriteResult)
  /-- `doPendingFunctors` swaps the list. -/
  | swap
  /-- Its next functor; a direct `::write` in it returns `r`. -/
  | functor (r : WriteResult)
  /-- The server's own loop runs `removeConnectionInLoop`. -/
  | remove
deriving DecidableEq, Repr

def step (w : World) : Event → Option World
  | .send thread message r => w.send thread message r
  | .shutdown thread => some (w.shutdown thread)
  | .forceClose thread => some (w.forceClose thread)
  | .push thread => match w.half thread with
    | some f => some { w with half := Function.update w.half thread none, queue := w.queue.push f }
    | none => none
  | .poll revents => some { w with todo := handleEvent revents }
  | .callback n r => match w.todo with
    | k :: todo => ({ w with todo := todo }).callback n r k
    | [] => none
  | .swap => some { w with queue := w.queue.swap }
  | .functor r => match w.queue.batch with
    | f :: batch => ({ w with queue := { w.queue with batch := batch } }).call r f
    | [] => none
  | .remove => ({ w with removals := w.removals - 1 }).removeConnectionInLoop

/-- What can happen: a thread makes one call after the other; the loop polls, handles the events of a
polled channel, then runs a batch of functors to its end. -/
def Event.Legal (w : World) : Event → Prop
  | .send thread message r => w.half thread = none ∧ r.Legal message.length
  | .shutdown thread => w.half thread = none
  | .forceClose thread => w.half thread = none
  | .push thread => w.half thread ≠ none
  | .poll _ => w.todo = [] ∧ w.queue.batch = [] ∧ w.conn.slot = some true
  | .callback _ r => w.todo ≠ [] ∧ r.Legal w.conn.outputBuffer.readableBytes
  | .swap => w.todo = [] ∧ w.queue.batch = []
  | .functor r => w.todo = [] ∧ w.queue.batch ≠ [] ∧
    ∀ f ∈ w.queue.batch.head?, r.Legal f.message.length
  | .remove => 0 < w.removals

instance (w : World) : ∀ e : Event, Decidable (e.Legal w)
  | .send .. => inferInstanceAs (Decidable (_ ∧ _))
  | .shutdown .. | .forceClose .. => inferInstanceAs (Decidable (_ = _))
  | .push .. => inferInstanceAs (Decidable (_ ≠ _))
  | .poll .. => inferInstanceAs (Decidable (_ ∧ _ ∧ _))
  | .callback .. => inferInstanceAs (Decidable (_ ∧ _))
  | .swap => inferInstanceAs (Decidable (_ ∧ _))
  | .functor r => inferInstanceAs (Decidable (_ ∧ _ ∧ ∀ f ∈ w.queue.batch.head?, r.Legal f.message.length))
  | .remove => inferInstanceAs (Decidable (0 < w.removals))

/-- `TcpServer::newConnection` (`TcpServer.cc:53-77`), with the callbacks the user has set. -/
def newConnection (sameLoop : Bool) (threadId : Nat) (writeComplete highWater : Bool) (highWaterMark : Nat) :
    Option World :=
  let w : World :=
    { conn := ⟨.kConnecting, kNoneEvent, none, .new, writeComplete, highWater, highWaterMark, [], 0⟩
      queue := ⟨[], []⟩, threadId := threadId, half := fun _ => none, todo := [], sameLoop := sameLoop
      inMap := true, removals := 0, accepted := [], ran := [], closeCalls := 0, destroyed := 0 }
  if sameLoop then w.connectEstablished else some { w with queue := w.queue.push .connectEstablished }

end World
end ChatReactor
