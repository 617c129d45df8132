import Mathlib.Algebra.Group.Nat.Defs
import Mathlib.Logic.Function.Basic
import ChatReactor.Lib.Runs
import ChatReactor.Lib.TaskQueue

/-!
# `EventLoop` (`EventLoop.h`, `EventLoop.cc`)

| here | there |
| --- | --- |
| `Phase` | where the loop's thread stands in `loop()` and `doPendingFunctors()` |
| `At` | where a thread stands in `queueInLoop()` or `quit()` |
| `queue` | `pendingFunctors_`, and what is left of the local vector `functors` |
| `counter` | the value of the eventfd `wakeupFd_` |
| `write`, `read` | `::write` and `::read` on it, in `wakeup()` and `handleRead()` |
| `Source` | an active channel: the wakeup channel or any other |
| `ran` | the functors that `doPendingFunctors` has run: a record, not part of the program |

A call of `queueInLoop` is two steps, the push under the lock and the rest; the loop's thread makes such calls while
it runs handlers and functors, other threads at any time. `callingPendingFunctors_` is not initialised
by the constructor: its first value is a parameter. (Neither is `quit_`, but `loop()` sets it before it reads it.)
-/

namespace ChatReactor

/-- A channel in `activeChannels_`. -/
inductive Source
  | wakeup | other
deriving DecidableEq, Repr

inductive Phase
  /-- `loop()` has not been called, or has returned. -/
  | outside
  /-- In `poll`. -/
  | polling
  /-- The loop over `activeChannels_`, with these still to come. -/
  | handling (active : List Source)
  /-- In `doPendingFunctors`, before the swap. -/
  | entering
  /-- In `doPendingFunctors`, after the swap. -/
  | running
deriving DecidableEq, Repr

inductive At
  | idle
  /-- In `queueInLoop`, the functor has been pushed. -/
  | pushed
  /-- In `quit`, `quit_` has been set. -/
  | quitting
deriving DecidableEq, Repr

structure EventLoop (F : Type) where
  phase : Phase
  quit_ : Bool
  callingPendingFunctors : Bool
  queue : TaskQueue F
  counter : Nat
  threadId : Nat
  thread : Nat → At
  ran : List F

namespace EventLoop
variable {F : Type}

/-- The largest value an eventfd holds. -/
def eventfdMax : Nat := 2 ^ 64 - 2

/-- `::write` of a one; it fails with `EAGAIN` if the sum is too large. -/
def write (counter : Nat) : Nat := if counter + 1 ≤ eventfdMax then counter + 1 else counter

/-- The constructor, in the thread `threadId`. -/
def init (threadId : Nat) (callingPendingFunctors : Bool) : EventLoop F :=
  { phase := .outside, quit_ := false, callingPendingFunctors := callingPendingFunctors, queue := ⟨[], []⟩, counter := 0,
    threadId := threadId, thread := fun _ => .idle, ran := [] }

def setThread (q : EventLoop F) (t : Nat) (a : At) : EventLoop F := { q with thread := Function.update q.thread t a }

def wakeup (q : EventLoop F) : EventLoop F := { q with counter := write q.counter }

/-- `EventLoop::handleRead`: reading an eventfd resets it. -/
def handleRead (q : EventLoop F) : EventLoop F := { q with counter := 0 }

/-- `EventLoop::queueInLoop` up to the end of the critical section. -/
def queueInLoop (q : EventLoop F) (t : Nat) (cb : F) : EventLoop F :=
  ({ q with queue := q.queue.push cb }).setThread t .pushed

/-- The rest of `queueInLoop` and of `quit`. -/
def leave (q : EventLoop F) (t : Nat) : EventLoop F :=
  let q' := q.setThread t .idle
  match q.thread t with
  | .idle => q'
  | .pushed => if t ≠ q.threadId ∨ q.callingPendingFunctors = true then q'.wakeup else q'
  | .quitting => if t ≠ q.threadId then q'.wakeup else q'

/-- `EventLoop::runInLoop`; in the loop's thread the callback runs at once. -/
def runInLoop (q : EventLoop F) (t : Nat) (cb : F) : EventLoop F :=
  if t = q.threadId then q else q.queueInLoop t cb

/-- `(*it)->handleEvent(pollReturnTime_)`, as far as the loop itself is concerned. -/
def handleEvent (q : EventLoop F) : Source → EventLoop F
  | .wakeup => q.handleRead
  | .other => q

inductive Event (F : Type)
  | queueInLoop (thread : Nat) (cb : F)
  | runInLoop (thread : Nat) (cb : F)
  | quit (thread : Nat)
  /-- A thread comes to the end of `queueInLoop` or `quit`. -/
  | leave (thread : Nat)
  | loop
  /-- `poll` returns, with events or after `kPollTimeMs`. -/
  | poll (active : List Source)
  /-- The next handler. -/
  | handleEvent
  /-- `doPendingFunctors` begins. -/
  | doPendingFunctors
  | swap
  /-- `functors[i]()` -/
  | functor
  /-- `doPendingFunctors` ends, and `quit_` is tested. -/
  | finish

def step (q : EventLoop F) : Event F → Option (EventLoop F)
  | .queueInLoop t cb => some (q.queueInLoop t cb)
  | .runInLoop t cb => some (q.runInLoop t cb)
  | .quit t => some (({ q with quit_ := true }).setThread t .quitting)
  | .leave t => some (q.leave t)
  | .loop => some { q with quit_ := false, phase := .polling }
  | .poll active => some { q with phase := .handling active }
  | .handleEvent => match q.phase with
    | .handling (c :: active) => some ({ q with phase := .handling active }.handleEvent c)
    | _ => none
  | .doPendingFunctors => some { q with callingPendingFunctors := true, phase := .entering }
  | .swap => some { q with queue := q.queue.swap, phase := .running }
  | .functor => match q.queue.batch with
    | f :: batch => some { q with queue := { q.queue with batch := batch }, ran := q.ran ++ [f] }
    | [] => none
  | .finish => some { q with
      callingPendingFunctors := false, phase := if q.quit_ = true then .outside else .polling }

/-- The loop's thread runs code of a handler, of a functor or outside of `loop()`. -/
def userCode : Phase → Bool
  | .outside | .handling _ | .running => true
  | .polling | .entering => false

/-- What can happen: a thread makes one call after the other, the loop's thread only from code that it runs; the
loop's thread goes on when it has left such a call. `poll` reports the wakeup channel if the eventfd is readable. -/
def Event.Legal (q : EventLoop F) : Event F → Prop
  | .queueInLoop t _ | .runInLoop t _ | .quit t => q.thread t = .idle ∧ (t = q.threadId → userCode q.phase = true)
  | .leave t => q.thread t ≠ .idle
  | .loop => q.phase = .outside ∧ q.thread q.threadId = .idle
  | .poll active => q.phase = .polling ∧ (.wakeup ∈ active ↔ 0 < q.counter)
  | .handleEvent => (∃ c active, q.phase = .handling (c :: active)) ∧ q.thread q.threadId = .idle
  | .doPendingFunctors => q.phase = .handling [] ∧ q.thread q.threadId = .idle
  | .swap => q.phase = .entering
  | .functor => q.phase = .running ∧ q.queue.batch ≠ [] ∧ q.thread q.threadId = .idle
  | .finish => q.phase = .running ∧ q.queue.batch = [] ∧ q.thread q.threadId = .idle

/-- The functors that these events push, in their order. -/
def pushes (threadId : Nat) : List (Event F) → List F
  | [] => []
  | .queueInLoop _ cb :: es => cb :: pushes threadId es
  | .runInLoop t cb :: es => if t = threadId then pushes threadId es else cb :: pushes threadId es
  | _ :: es => pushes threadId es

/-- The events lead from one state to the other, each of them possible where it happens. -/
abbrev Steps : EventLoop F → List (Event F) → EventLoop F → Prop := Run step fun q e => e.Legal q

end EventLoop
end ChatReactor
