import Mathlib.Data.Prod.Lex
import Mathlib.Logic.Function.Basic
import ChatReactor.Buffer
import ChatReactor.Lib.CheckedInt
import ChatReactor.Lib.OrdSet
import ChatReactor.Lib.Runs

/-!
# `TimerQueue` (`TimerQueue.cc`, `TimerQueue.h`, `Timer.h`, `Timer.cc`)

| here | there |
| --- | --- |
| `Timer`, `Timer.restart` | `class Timer` (`Timer.h:15-45`), `Timer.cc:5-15`; the callback is the environment's |
| `Entry`, `ActiveTimer` | the pairs of `TimerQueue.h:49-52`, with their lexicographic order |
| `heap`, `numCreated` | the live `Timer` objects by address, `Timer::s_numCreated_` |
| `queued` | timers made by `addTimer` whose `addTimerInLoop` has not run yet |
| `timers` … `callingExpiredTimers` | the members of the same names |
| `timerfd`, `readable` | when the kernel timer goes off, `none` if it is disarmed; whether it has gone off and was not read |
| `clock` | `Timestamp::now()`, in microseconds |
| `batch` | the local variables of a `handleRead` that is running its callbacks |
| `ran`, `lastReset` | the calls of `Timer::run` so far, with the timer as it was, and the time of the last `resetTimerfd`: records, not part of the program |

`handleRead` is cut where it calls out: `handleReadEnter` up to the loop, `handleReadCall` for one
iteration, `handleReadLeave` from the end of the loop. What a callback does to the queue are the events in between.
A failed assert or an access to a deleted `Timer` is `none`. `int64_t` is `Int`; the subtraction that sets the timerfd
wraps around.
-/

namespace ChatReactor

structure Timer where
  expiration : Int
  /-- What `addTime(now, interval_)` adds, in microseconds. -/
  interval : Int
  repeat_ : Bool
  sequence : Nat
deriving DecidableEq, Repr

def Timer.restart (t : Timer) (now : Int) : Timer :=
  if t.repeat_ then { t with expiration := now + t.interval } else { t with expiration := 0 }

/-- `std::pair<Timestamp, Timer*>`. -/
structure Entry where
  expiration : Int
  timer : Nat
deriving DecidableEq, Repr

/-- `std::pair<Timer*, int64_t>`, also the content of a `TimerId`. -/
structure ActiveTimer where
  timer : Nat
  sequence : Nat
deriving DecidableEq, Repr

instance : LinearOrder Entry :=
  LinearOrder.lift' (fun e => toLex (e.expiration, e.timer)) fun a b h => by
    cases a; cases b; simpa using h

instance : LinearOrder ActiveTimer :=
  LinearOrder.lift' (fun e => toLex (e.timer, e.sequence)) fun a b h => by
    cases a; cases b; simpa using h

/-- A call of `Timer::run` in the `handleRead` that read the time `now`. -/
structure Ran where
  now : Int
  addr : Nat
  timer : Timer
deriving DecidableEq, Repr

structure Batch where
  now : Int
  expired : List Entry
  /-- The part of `expired` the loop has not come to. -/
  rest : List Entry
deriving DecidableEq, Repr

structure TimerQueue where
  heap : Nat → Option Timer
  numCreated : Nat
  queued : List Nat
  timers : OrdSet Entry
  activeTimers : OrdSet ActiveTimer
  cancelingTimers : OrdSet ActiveTimer
  callingExpiredTimers : Bool
  timerfd : Option Int
  readable : Bool
  clock : Int
  batch : Option Batch
  ran : List Ran
  lastReset : Option Int

namespace TimerQueue

/-- `reinterpret_cast<Timer*>(UINTPTR_MAX)`, above every object's address. -/
def uintptrMax : Nat := 2 ^ 64 - 1

def init (clock : Int) : TimerQueue :=
  { heap := fun _ => none, numCreated := 0, queued := [], timers := .empty, activeTimers := .empty,
    cancelingTimers := .empty, callingExpiredTimers := false, timerfd := none, readable := false, clock := clock, batch := none,
    ran := [], lastReset := none }

/-- Store an object, or free its address. -/
def setHeap (q : TimerQueue) (a : Nat) (t : Option Timer) : TimerQueue := { q with heap := Function.update q.heap a t }

/-- `howMuchTimeFromNow` (`TimerQueue.cc:33-47`). -/
def howMuchTimeFromNow (clock when : Int) : Int :=
  let microseconds := CheckedInt.toInt64 (when - clock)
  if microseconds < 100 then 100 else microseconds

/-- `readTimerfd` (`TimerQueue.cc:49-58`): a one-shot timer that has gone off is disarmed, else nothing is read. -/
def readTimerfd (q : TimerQueue) : TimerQueue :=
  { q with timerfd := if q.readable then none else q.timerfd, readable := false }

/-- `resetTimerfd` (`TimerQueue.cc:60-73`); `timerfd_settime` also forgets that the old timer went off. -/
def resetTimerfd (q : TimerQueue) (expiration : Int) : TimerQueue :=
  { q with
    timerfd := some (q.clock + howMuchTimeFromNow q.clock expiration), readable := false, lastReset := some q.clock }

/-- `TimerQueue::insert` (`TimerQueue.cc:218-246`). -/
def insert (q : TimerQueue) (timer : Nat) : Option (Bool × TimerQueue) := do
  check (q.timers.size = q.activeTimers.size)
  let t ← q.heap timer
  let when := t.expiration
  let earliestChanged := match q.timers.elems.head? with
    | none => true
    | some it => decide (when < it.expiration)
  check (⟨when, timer⟩ ∉ q.timers)
  check (⟨timer, t.sequence⟩ ∉ q.activeTimers)
  let q := { q with timers := q.timers.insert ⟨when, timer⟩, activeTimers := q.activeTimers.insert ⟨timer, t.sequence⟩ }
  check (q.timers.size = q.activeTimers.size)
  return (earliestChanged, q)

def addTimerInLoop (q : TimerQueue) (timer : Nat) : Option TimerQueue := do
  let (earliestChanged, q) ← q.insert timer
  if earliestChanged then
    let t ← q.heap timer
    return q.resetTimerfd t.expiration
  else
    return q

/-- `TimerQueue::cancelInLoop` (`TimerQueue.cc:127-145`). -/
def cancelInLoop (q : TimerQueue) (timerId : ActiveTimer) : Option TimerQueue := do
  check (q.timers.size = q.activeTimers.size)
  let q ←
    if timerId ∈ q.activeTimers then do
      let t ← q.heap timerId.timer
      check (⟨t.expiration, timerId.timer⟩ ∈ q.timers)
      let q := { q with timers := q.timers.erase ⟨t.expiration, timerId.timer⟩ }
      let q := q.setHeap timerId.timer none
      pure { q with activeTimers := q.activeTimers.erase timerId }
    else if q.callingExpiredTimers then
      pure { q with cancelingTimers := q.cancelingTimers.insert timerId }
    else
      pure q
  check (q.timers.size = q.activeTimers.size)
  return q

/-- The body of the loop of `getExpired` (`TimerQueue.cc:178-183`). -/
def deactivate (q : TimerQueue) (entry : Entry) : Option TimerQueue := do
  let t ← q.heap entry.timer
  check (⟨entry.timer, t.sequence⟩ ∈ q.activeTimers)
  return { q with activeTimers := q.activeTimers.erase ⟨entry.timer, t.sequence⟩ }

/-- `TimerQueue::getExpired` (`TimerQueue.cc:168-187`). -/
def getExpired (q : TimerQueue) (now : Int) : Option (List Entry × TimerQueue) := do
  check (q.timers.size = q.activeTimers.size)
  let sentry : Entry := ⟨now, uintptrMax⟩
  let expired := q.timers.below sentry
  let timers := q.timers.drop sentry
  check (∀ it ∈ timers.elems.head?, now < it.expiration)
  let q ← expired.foldlM deactivate { q with timers := timers }
  check (q.timers.size = q.activeTimers.size)
  return (expired, q)

/-- The body of the loop of `reset` (`TimerQueue.cc:193-208`). -/
def resetOne (now : Int) (q : TimerQueue) (it : Entry) : Option TimerQueue := do
  let t ← q.heap it.timer
  if t.repeat_ = true ∧ ⟨it.timer, t.sequence⟩ ∉ q.cancelingTimers then
    let (_, q) ← (q.setHeap it.timer (some (t.restart now))).insert it.timer
    return q
  else
    return q.setHeap it.timer none

/-- `TimerQueue::reset` (`TimerQueue.cc:189-217`). -/
def reset (q : TimerQueue) (expired : List Entry) (now : Int) : Option TimerQueue := do
  let q ← expired.foldlM (resetOne now) q
  match q.timers.elems.head? with
  | none => return q
  | some it =>
    let t ← q.heap it.timer
    -- nextExpire.valid()
    if 0 < t.expiration then return q.resetTimerfd t.expiration else return q

/-- `handleRead` up to its loop. -/
def handleReadEnter (q : TimerQueue) : Option TimerQueue := do
  let now := q.clock
  let (expired, q) ← q.readTimerfd.getExpired now
  return { q with callingExpiredTimers := true, cancelingTimers := .empty, batch := some ⟨now, expired, expired⟩ }

/-- `it->second->run()`, and on to the next one. -/
def handleReadCall (q : TimerQueue) (b : Batch) (it : Entry) (rest : List Entry) : Option TimerQueue := do
  let t ← q.heap it.timer
  return { q with batch := some { b with rest := rest }, ran := q.ran ++ [⟨b.now, it.timer, t⟩] }

/-- `handleRead` after its loop. -/
def handleReadLeave (q : TimerQueue) (b : Batch) : Option TimerQueue :=
  ({ q with callingExpiredTimers := false, batch := none }).reset b.expired b.now

/-! ## Runs -/

inductive Event
  /-- `addTimer`, on any thread, up to the call of `runInLoop`: `new` returns the address `a`. -/
  | newTimer (a : Nat) (when interval : Int) (repeat_ : Bool)
  | addTimerInLoop (a : Nat)
  | cancelInLoop (timerId : ActiveTimer)
  /-- The clock is changed, forwards or backwards. -/
  | setClock (clock : Int)
  /-- The kernel timer goes off. -/
  | expire
  | handleRead
  | callback
  | finish
deriving DecidableEq, Repr

/-- What can happen: `new` returns no live object's address; `addTimerInLoop` is called once for each
new timer, at any later time; `handleRead` is not re-entered, and returns after its last callback. -/
def Event.Legal (q : TimerQueue) : Event → Prop
  | .newTimer a _ _ _ => q.heap a = none ∧ a < uintptrMax
  | .addTimerInLoop a => a ∈ q.queued
  | .cancelInLoop _ => True
  | .setClock _ => True
  | .expire => q.timerfd ≠ none
  | .handleRead => q.batch = none
  | .callback => ∃ b ∈ q.batch, b.rest ≠ []
  | .finish => ∃ b ∈ q.batch, b.rest = []

instance (q : TimerQueue) : ∀ e : Event, Decidable (e.Legal q)
  | .newTimer _ _ _ _ => inferInstanceAs (Decidable (_ ∧ _))
  | .addTimerInLoop a => inferInstanceAs (Decidable (a ∈ q.queued))
  | .cancelInLoop _ | .setClock _ => .isTrue trivial
  | .expire => inferInstanceAs (Decidable (q.timerfd ≠ none))
  | .handleRead => inferInstanceAs (Decidable (q.batch = none))
  | .callback => inferInstanceAs (Decidable (∃ b ∈ q.batch, b.rest ≠ []))
  | .finish => inferInstanceAs (Decidable (∃ b ∈ q.batch, b.rest = []))

def step (q : TimerQueue) : Event → Option TimerQueue
  | .newTimer a when interval repeat_ =>
    -- sequence_(s_numCreated_.incrementAndGet())
    let q := { q with numCreated := q.numCreated + 1, queued := q.queued ++ [a] }
    some (q.setHeap a (some ⟨when, interval, repeat_, q.numCreated⟩))
  | .addTimerInLoop a => ({ q with queued := q.queued.erase a }).addTimerInLoop a
  | .cancelInLoop timerId => q.cancelInLoop timerId
  | .setClock clock => some { q with clock := clock }
  | .expire => some { q with readable := true }
  | .handleRead => q.handleReadEnter
  | .callback => match q.batch with
    | some b => match b.rest with
      | it :: rest => q.handleReadCall b it rest
      | [] => none
    | none => none
  | .finish => match q.batch with
    | some b => q.handleReadLeave b
    | none => none

/-- The events lead from one state to the other, each of them possible where it happens. -/
abbrev Steps : TimerQueue → List Event → TimerQueue → Prop := Run step fun q e => e.Legal q

end TimerQueue
end ChatReactor
