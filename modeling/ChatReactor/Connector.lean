import Mathlib.Algebra.Group.Nat.Defs
import Mathlib.Data.List.Perm.Basic
import ChatReactor.Buffer
import ChatReactor.TcpConnection

/-!
# `Connector` (`Connector.h`, `Connector.cc`)

| here | there |
| --- | --- |
| `States`, `connect_` … `retryDelayMs` | the members of the same names (`Connector.h:38-54`) |
| `Channel` | `*channel_`: its descriptor, and whether it is in the poller, waiting for `POLLOUT` |
| `Errno` | `savedErrno` in `connect()` (`Connector.cc:62-101`) |
| `timers` | the `runAfter` timers of `retry` that have not expired, with their delays in milliseconds |
| `queue`, `Functor` | the connector's functors in `pendingFunctors_` and in the batch of `doPendingFunctors` |
| `Phase` | where the loop's thread stands in an iteration of `EventLoop::loop` |
| `sockets`, `closed`, `handed`, `starts`, `restarts` | records: the sockets `connect()` has made, numbered from 0, those closed and those passed to `newConnectionCallback_`, and the calls |

In an iteration the timers run first: the timerfd's channel was registered first and is never removed, so that it is the first entry
of `pollfds_` and of `activeChannels_`. A timer set in an iteration is not run in it, since `handleRead` has taken its batch before.
`timerId_` is left out: it is read by `EventLoop::cancel` only, which does nothing. User code may call `start`, `stop` and `restart`
anywhere in an iteration; `stop`, and the reading of `connect_` by the handlers, take no time. A failed assert or
a null `channel_` followed is `none`.
-/

namespace ChatReactor

structure Connector.Channel where
  fd : Nat
  inPoller : Bool
deriving DecidableEq, Repr

inductive Connector.States
  | kDisconnected | kConnecting | kConnected
deriving DecidableEq, Repr

/-- The result of `::connect`: 0, or `errno`. -/
inductive Connector.Errno
  | zero | EINPROGRESS | EINTR | EISCONN
  | EAGAIN | EADDRINUSE | EADDRNOTAVAIL | ECONNREFUSED | ENETUNREACH
  | EACCES | EPERM | EAFNOSUPPORT | EALREADY | EBADF | EFAULT | ENOTSOCK
  | other (errno : Nat)
deriving DecidableEq, Repr

inductive Connector.Functor
  | startInLoop | resetChannel
deriving DecidableEq, Repr

inductive Connector.Phase
  /-- In `poll`, or not in `loop()`. -/
  | outside
  /-- In `TimerQueue::handleRead`, with the connector's timers of its batch still to run, or before the handler of the connector's
  channel, if `poll` found it active. -/
  | timers (expired : List Nat) (active : Option (BitVec 32))
  /-- In `Channel::handleEvent` of the connector's channel, with the callbacks still to come, or after it. -/
  | channels (todo : List Callback)
  /-- In `doPendingFunctors`, after the swap. -/
  | functors
deriving DecidableEq, Repr

/-- The connector's timers still to run in the batch of `TimerQueue::handleRead`. -/
def Connector.Phase.expired : Phase → List Nat
  | .timers expired _ => expired
  | _ => []

/-- The events of the connector's channel, while its handler has not been called. -/
def Connector.Phase.active : Phase → Option (BitVec 32)
  | .timers _ active => active
  | _ => none

/-- The callbacks that the handler of the connector's channel has still to make. -/
def Connector.Phase.todo : Phase → List Callback
  | .channels todo => todo
  | _ => []

structure Connector where
  connect_ : Bool
  state : Connector.States
  channel : Option Connector.Channel
  retryDelayMs : Nat
  timers : List Nat
  queue : TaskQueue Connector.Functor
  phase : Connector.Phase
  sockets : Nat
  closed : List Nat
  handed : List Nat
  starts : Nat
  restarts : Nat
deriving DecidableEq, Repr

namespace Connector

def kMaxRetryDelayMs : Nat := 30 * 1000
def kInitRetryDelayMs : Nat := 500

/-- The constructor. -/
def init : Connector :=
  { connect_ := false, state := .kDisconnected, channel := none, retryDelayMs := kInitRetryDelayMs, timers := [],
    queue := ⟨[], []⟩, phase := .outside, sockets := 0, closed := [], handed := [], starts := 0, restarts := 0 }

/-- `sockets::close` -/
def close (c : Connector) (sockfd : Nat) : Connector := { c with closed := c.closed ++ [sockfd] }

/-- `Connector::retry` (`Connector.cc:193-213`). -/
def retry (c : Connector) (sockfd : Nat) : Connector :=
  let c := { c.close sockfd with state := .kDisconnected }
  if c.connect_ then
    { c with timers := c.timers ++ [c.retryDelayMs], retryDelayMs := min (c.retryDelayMs * 2) kMaxRetryDelayMs }
  else c

def connecting (c : Connector) (sockfd : Nat) : Option Connector := do
  let c := { c with state := .kConnecting }
  check (c.channel = none)
  return { c with channel := some ⟨sockfd, true⟩ }

def connect (c : Connector) (savedErrno : Errno) : Option Connector :=
  let sockfd := c.sockets
  let c := { c with sockets := c.sockets + 1 }
  match savedErrno with
  | .zero | .EINPROGRESS | .EINTR | .EISCONN => c.connecting sockfd
  | .EAGAIN | .EADDRINUSE | .EADDRNOTAVAIL | .ECONNREFUSED | .ENETUNREACH => some (c.retry sockfd)
  | .EACCES | .EPERM | .EAFNOSUPPORT | .EALREADY | .EBADF | .EFAULT | .ENOTSOCK => some (c.close sockfd)
  | .other _ => some (c.close sockfd)

def startInLoop (c : Connector) (savedErrno : Errno) : Option Connector := do
  check (c.state = .kDisconnected)
  if c.connect_ then c.connect savedErrno else return c

/-- `Connector::start`, in the loop's thread or in another one. -/
def start (c : Connector) (inLoopThread : Bool) (savedErrno : Errno) : Option Connector :=
  let c := { c with connect_ := true, starts := c.starts + 1 }
  if inLoopThread then c.startInLoop savedErrno else some { c with queue := c.queue.push .startInLoop }

def restart (c : Connector) (savedErrno : Errno) : Option Connector :=
  ({ c with state := .kDisconnected, retryDelayMs := kInitRetryDelayMs, connect_ := true, restarts := c.restarts + 1 }).startInLoop
    savedErrno

/-- `EventLoop::cancel` (`EventLoop.cc:155-158`). -/
def cancel (timers : List Nat) : List Nat := timers

def stop (c : Connector) : Connector := { c with connect_ := false, timers := cancel c.timers }

/-- `Connector::removeAndResetChannel`; the poller asserts that the channel is there. -/
def removeAndResetChannel (c : Connector) : Option (Nat × Connector) := do
  let channel ← c.channel
  check (channel.inPoller = true)
  return (channel.fd, { c with channel := some { channel with inPoller := false }, queue := c.queue.push .resetChannel })

def resetChannel (c : Connector) : Connector := { c with channel := none }

/-- `Connector::handleWrite` (`Connector.cc:145-181`), with `getSocketError` and `isSelfConnect`. -/
def handleWrite (c : Connector) (err : Nat) (isSelfConnect : Bool) : Option Connector :=
  if c.state = .kConnecting then do
    let (sockfd, c) ← c.removeAndResetChannel
    if err ≠ 0 then return c.retry sockfd
    else if isSelfConnect then return c.retry sockfd
    else
      let c := { c with state := .kConnected }
      -- newConnectionCallback_(sockfd)
      if c.connect_ then return { c with handed := c.handed ++ [sockfd] }
      else return c.close sockfd
  else do
    check (c.state = .kDisconnected)
    return c

/-- `Connector::handleError` (`Connector.cc:183-191`); the value of `SO_ERROR` is only logged. -/
def handleError (c : Connector) : Option Connector := do
  check (c.state = .kConnecting)
  let (sockfd, c) ← c.removeAndResetChannel
  return c.retry sockfd

/-- A callback of the channel; those for reading and closing are not set. -/
def callback (c : Connector) (err : Nat) (isSelfConnect : Bool) : Callback → Option Connector
  | .close | .read => some c
  | .error => c.handleError
  | .write => c.handleWrite err isSelfConnect

def runFunctor (c : Connector) (savedErrno : Errno) : Functor → Option Connector
  | .startInLoop => c.startInLoop savedErrno
  | .resetChannel => some c.resetChannel

/-! ## Runs -/

inductive Event
  | start (inLoopThread : Bool) (savedErrno : Errno)
  | restart (savedErrno : Errno)
  | stop
  /-- `poll` returns: these of the connector's timers are due, these are not, and the channel is active with these events. -/
  | poll (expired waiting : List Nat) (active : Option (BitVec 32))
  /-- The next timer of the batch runs `startInLoop`. -/
  | timer (savedErrno : Errno)
  | handleEvent
  /-- The next callback of the channel. -/
  | callback (err : Nat) (isSelfConnect : Bool)
  | doPendingFunctors
  | functor (savedErrno : Errno)
  /-- The iteration ends. -/
  | finish
deriving DecidableEq, Repr

def step (c : Connector) : Event → Option Connector
  | .start inLoopThread savedErrno => c.start inLoopThread savedErrno
  | .restart savedErrno => c.restart savedErrno
  | .stop => some c.stop
  | .poll expired waiting active => some { c with timers := waiting, phase := .timers expired active }
  | .timer savedErrno => match c.phase with
    | .timers (_ :: expired) active => ({ c with phase := .timers expired active }).startInLoop savedErrno
    | _ => none
  | .handleEvent => match c.phase with
    | .timers _ active => some { c with phase := .channels ((active.map ChatReactor.handleEvent).getD []) }
    | _ => none
  | .callback err isSelfConnect => match c.phase with
    | .channels (f :: todo) => ({ c with phase := .channels todo }).callback err isSelfConnect f
    | _ => none
  | .doPendingFunctors => some { c with phase := .functors, queue := c.queue.swap }
  | .functor savedErrno => match c.queue.batch with
    | f :: batch => ({ c with queue := { c.queue with batch := batch } }).runFunctor savedErrno f
    | [] => none
  | .finish => some { c with phase := .outside }

/-- The order of the loop. Only a channel that is in the poller is active. -/
def Event.Legal (c : Connector) : Event → Prop
  | .start _ _ | .restart _ | .stop => True
  | .poll expired waiting active => c.phase = .outside ∧ (expired ++ waiting).Perm c.timers ∧
      (active ≠ none → c.channel.map Channel.inPoller = some true)
  | .timer _ => c.phase.expired ≠ []
  | .handleEvent => c.phase = .timers [] c.phase.active
  | .callback _ _ => c.phase.todo ≠ []
  | .doPendingFunctors => c.phase = .channels []
  | .functor _ => c.phase = .functors ∧ c.queue.batch ≠ []
  | .finish => c.phase = .functors ∧ c.queue.batch = []

instance (c : Connector) : ∀ e : Event, Decidable (e.Legal c)
  | .start _ _ | .restart _ | .stop => .isTrue trivial
  | .poll _ _ _ => inferInstanceAs (Decidable (_ ∧ _ ∧ (_ → _)))
  | .timer _ => inferInstanceAs (Decidable (c.phase.expired ≠ []))
  | .handleEvent => inferInstanceAs (Decidable (_ = _))
  | .callback _ _ => inferInstanceAs (Decidable (c.phase.todo ≠ []))
  | .doPendingFunctors => inferInstanceAs (Decidable (c.phase = .channels []))
  | .functor _ => inferInstanceAs (Decidable (_ ∧ _))
  | .finish => inferInstanceAs (Decidable (_ ∧ _))

end Connector
end ChatReactor
