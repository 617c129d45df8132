import ChatReactor.ConnectorRuns

/-!
# `TcpClient` (`TcpClient.h`, `TcpClient.cc`) with its `Connector`, in their `EventLoop`

| here | there |
| --- | --- |
| `retry` … `connection_` | the members of the same names (`TcpClient.h:83-93`); a connection is the number of its socket |
| `Conn` | a `TcpConnection` of the client: the number in its name, `state_`, and whether its channel is polled |
| `queue`, `Pending` | `pendingFunctors_` and the batch of `doPendingFunctors`: a functor of a connection, or the place of one of the connector's, which are in `connector.queue` in the same order |
| `polled` | the connections in `activeChannels_` whose handler may still be called in this iteration |
| `advance` | a step of the connector, with the functors it queues and the call of `newConnectionCallback_` |
| `Event.close` | `handleClose`, from `handleRead` or by `POLLHUP` |

A handler of a connection comes behind the timers, which are first in `activeChannels_`, and before or behind the one of the connector's
channel. `connect_` and `retry_` may be set by any thread between two events, and so may `shutdown()` and `forceClose()` be called.
An event is one step: a `stop()` of another thread between the test of `connect_` in `removeConnection` and the call of
`restart()` behind it is not covered. `nextConnId_` is an `int` and here a `Nat`, which is the same for fewer than 2³¹ connections.
`savedErrno` is the result of the `::connect` that an event leads to. A failed assert is `none`. The destructor is left out.
-/

namespace ChatReactor

structure TcpClient.Conn where
  connId : Nat
  state : StateE
  reading : Bool
deriving DecidableEq, Repr

inductive TcpClient.ConnFunctor
  | connectDestroyed | forceCloseInLoop
deriving DecidableEq, Repr

inductive TcpClient.Pending
  | connector
  | conn (i : Nat) (f : TcpClient.ConnFunctor)
deriving DecidableEq, Repr

structure TcpClient where
  connector : Connector
  retry : Bool
  connect_ : Bool
  nextConnId : Nat
  connection_ : Option Nat
  conns : Nat → Option TcpClient.Conn
  queue : TaskQueue TcpClient.Pending
  polled : List Nat

namespace TcpClient

/-- The constructor. -/
def init : TcpClient where
  connector := .init
  retry := false
  connect_ := true
  nextConnId := 1
  connection_ := none
  conns := fun _ => none
  queue := ⟨[], []⟩
  polled := []

/-! ## The connections -/

def Conn.isOpen (conn : Conn) : Prop := conn.state = .kConnected ∨ conn.state = .kDisconnecting

instance (conn : Conn) : Decidable conn.isOpen := inferInstanceAs (Decidable (_ ∨ _))

def Conn.connectEstablished (conn : Conn) : Option Conn := do
  check (conn.state = .kConnecting)
  return { conn with state := .kConnected, reading := true }

def Conn.shutdown (conn : Conn) : Conn :=
  if conn.state = .kConnected then { conn with state := .kDisconnecting } else conn

def setConn (c : TcpClient) (i : Nat) (conn : Conn) : TcpClient := { c with conns := Function.update c.conns i (some conn) }

def shutdown (c : TcpClient) (i : Nat) : Option TcpClient := do
  let conn ← c.conns i
  return c.setConn i conn.shutdown

/-- `TcpConnection::forceClose`, from any thread. -/
def forceClose (c : TcpClient) (i : Nat) : Option TcpClient := do
  let conn ← c.conns i
  if conn.isOpen then
    return { c.setConn i { conn with state := .kDisconnecting } with queue := c.queue.push (.conn i .forceCloseInLoop) }
  else return c

def connectDestroyed (c : TcpClient) (i : Nat) : Option TcpClient := do
  let conn ← c.conns i
  check conn.isOpen
  return c.setConn i { conn with state := .kDisconnected, reading := false }

/-! ## The client -/

def newConnection (c : TcpClient) (sockfd : Nat) : Option TcpClient := do
  let conn : Conn := { connId := c.nextConnId, state := .kConnecting, reading := false }
  let conn ← conn.connectEstablished
  return { c with
    nextConnId := c.nextConnId + 1, connection_ := some sockfd, conns := Function.update c.conns sockfd (some conn) }

def advance (c : TcpClient) (e : Connector.Event) : Option TcpClient := do
  let connector ← c.connector.step e
  let queued := connector.queue.pending.length - c.connector.queue.pending.length
  (connector.handed.drop c.connector.handed.length).foldlM newConnection
    { c with connector := connector, queue := c.queue.pushAll (List.replicate queued .connector) }

def connect (c : TcpClient) (inLoopThread : Bool) (savedErrno : Connector.Errno) : Option TcpClient :=
  ({ c with connect_ := true }).advance (.start inLoopThread savedErrno)

def disconnect (c : TcpClient) : Option TcpClient :=
  let c := { c with connect_ := false }
  match c.connection_ with
  | some i => c.shutdown i
  | none => some c

def stop (c : TcpClient) : Option TcpClient := ({ c with connect_ := false }).advance .stop

def removeConnection (c : TcpClient) (conn : Nat) (savedErrno : Connector.Errno) : Option TcpClient := do
  check (c.connection_ = some conn)
  let c := { c with connection_ := none, queue := c.queue.push (.conn conn .connectDestroyed) }
  if c.retry && c.connect_ then c.advance (.restart savedErrno) else return c

def handleClose (c : TcpClient) (i : Nat) (savedErrno : Connector.Errno) : Option TcpClient := do
  let conn ← c.conns i
  check conn.isOpen
  (c.setConn i { conn with reading := false }).removeConnection i savedErrno

def forceCloseInLoop (c : TcpClient) (i : Nat) (savedErrno : Connector.Errno) : Option TcpClient := do
  let conn ← c.conns i
  if conn.isOpen then c.handleClose i savedErrno else return c

def runFunctor (c : TcpClient) (savedErrno : Connector.Errno) : Pending → Option TcpClient
  | .connector => c.advance (.functor savedErrno)
  | .conn i .connectDestroyed => c.connectDestroyed i
  | .conn i .forceCloseInLoop => c.forceCloseInLoop i savedErrno

/-! ## Runs -/

inductive Event
  | connect (inLoopThread : Bool) (savedErrno : Connector.Errno)
  | disconnect
  | stop
  | enableRetry
  | shutdown (i : Nat)
  | forceClose (i : Nat)
  /-- `poll` returns, with the connector's timers and events, and the connections that are active. -/
  | poll (expired waiting : List Nat) (active : Option (BitVec 32)) (polled : List Nat)
  | timer (savedErrno : Connector.Errno)
  | handleEvent
  /-- The next callback of the connector's channel. -/
  | callback (err : Nat) (isSelfConnect : Bool)
  | close (i : Nat) (savedErrno : Connector.Errno)
  | doPendingFunctors
  | functor (savedErrno : Connector.Errno)
  | finish

def step (c : TcpClient) : Event → Option TcpClient
  | .connect inLoopThread savedErrno => c.connect inLoopThread savedErrno
  | .disconnect => c.disconnect
  | .stop => c.stop
  | .enableRetry => some { c with retry := true }
  | .shutdown i => c.shutdown i
  | .forceClose i => c.forceClose i
  | .poll expired waiting active polled => ({ c with polled := polled }).advance (.poll expired waiting active)
  | .timer savedErrno => c.advance (.timer savedErrno)
  | .handleEvent => c.advance .handleEvent
  | .callback err isSelfConnect => c.advance (.callback err isSelfConnect)
  | .close i savedErrno => c.handleClose i savedErrno
  | .doPendingFunctors => (c.advance .doPendingFunctors).map fun c => { c with queue := c.queue.swap, polled := [] }
  | .functor savedErrno => match c.queue.batch with
    | f :: batch => ({ c with queue := { c.queue with batch := batch } }).runFunctor savedErrno f
    | [] => none
  | .finish => c.advance .finish

/-- The order of the loop. Only a connection whose channel is polled is active. -/
def Event.Legal (c : TcpClient) : Event → Prop
  | .connect .. | .disconnect | .stop | .enableRetry => True
  | .shutdown i | .forceClose i => c.conns i ≠ none
  | .poll expired waiting active polled => (Connector.Event.poll expired waiting active).Legal c.connector ∧
      ∀ i ∈ polled, (c.conns i).any Conn.reading = true
  | .timer savedErrno => (Connector.Event.timer savedErrno).Legal c.connector
  | .handleEvent => Connector.Event.handleEvent.Legal c.connector
  | .callback err isSelfConnect => (Connector.Event.callback err isSelfConnect).Legal c.connector
  | .close i _ => i ∈ c.polled ∧ c.connector.phase.expired = []
  | .doPendingFunctors => Connector.Event.doPendingFunctors.Legal c.connector
  | .functor _ => c.connector.phase = .functors ∧ c.queue.batch ≠ []
  | .finish => c.connector.phase = .functors ∧ c.queue.batch = []

instance (c : TcpClient) : ∀ e : Event, Decidable (e.Legal c)
  | .connect .. | .disconnect | .stop | .enableRetry => .isTrue trivial
  | .shutdown i | .forceClose i => inferInstanceAs (Decidable (c.conns i ≠ none))
  | .poll .. => inferInstanceAs (Decidable (_ ∧ _))
  | .timer e => inferInstanceAs (Decidable ((Connector.Event.timer e).Legal c.connector))
  | .handleEvent => inferInstanceAs (Decidable (Connector.Event.handleEvent.Legal c.connector))
  | .callback err self => inferInstanceAs (Decidable ((Connector.Event.callback err self).Legal c.connector))
  | .doPendingFunctors => inferInstanceAs (Decidable (Connector.Event.doPendingFunctors.Legal c.connector))
  | .close .. | .functor _ | .finish => inferInstanceAs (Decidable (_ ∧ _))

/-- The functor does not close a connection that has been closed. -/
def ClosesOnce (c : TcpClient) : Pending → Prop
  | .conn i .forceCloseInLoop => (c.conns i).any (decide ·.isOpen) = true → c.connection_ = some i
  | _ => True

instance (c : TcpClient) : ∀ f : Pending, Decidable (c.ClosesOnce f)
  | .conn _ .forceCloseInLoop => inferInstanceAs (Decidable (_ → _))
  | .conn _ .connectDestroyed | .connector => .isTrue trivial

/-- One `connect()`, `stop()` at any later time, and no connection closed a second time. -/
def Careful (c : TcpClient) : Event → Prop
  | .connect .. => c.connector.starts = 0
  | .stop => 0 < c.connector.starts
  | .close i _ => c.connection_ = some i
  | .functor _ => ∀ f ∈ c.queue.batch.head?, c.ClosesOnce f
  | _ => True

instance (c : TcpClient) : ∀ e : Event, Decidable (c.Careful e)
  | .connect .. => inferInstanceAs (Decidable (c.connector.starts = 0))
  | .stop => inferInstanceAs (Decidable (0 < c.connector.starts))
  | .close i _ => inferInstanceAs (Decidable (c.connection_ = some i))
  | .functor _ => inferInstanceAs (Decidable (∀ f ∈ c.queue.batch.head?, c.ClosesOnce f))
  | .disconnect | .enableRetry | .shutdown _ | .forceClose _ | .poll .. | .timer _ | .handleEvent | .callback ..
  | .doPendingFunctors | .finish => .isTrue trivial

abbrev Steps : TcpClient → List Event → TcpClient → Prop := Run step fun c e => e.Legal c ∧ c.Careful e

end TcpClient
end ChatReactor
