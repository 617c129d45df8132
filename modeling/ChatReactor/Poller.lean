import Std.Data.ExtTreeMap
import Mathlib.Data.List.Basic
import Mathlib.Logic.Function.Basic
import ChatReactor.Buffer

/-!
# `Poller` and the interest set of `Channel` (`Poller.cc`, `Channel.h`, `Channel.cc`)

| here | there |
| --- | --- |
| `Channel` | `fd_`, `events_`, `index_` (`Channel.h:50-54`) |
| `PollFd` | `struct pollfd`; `revents` belongs to `poll` and is left out |
| `Poller` | `pollfds_`, `channels_` (`Poller.h:46-49`), with the `Channel` objects behind the pointers |
| `assertion` | `assert`, compiled out when `ndebug` |
| `updateChannel`, `removeChannel` | `Poller.cc:53-84`, `Poller.cc:86-111` |
| `Call` | `enableReading` … `remove` (`Channel.h:32-42`, `Channel.cc:29-39`) |

A `Channel*` is a number, an access outside `pollfds_` or through a null pointer is `none`.
-/

namespace ChatReactor

/-- `Channel::kNoneEvent`. -/
def kNoneEvent : BitVec 32 := 0
/-- `POLLIN | POLLPRI`. -/
def kReadEvent : BitVec 32 := 0x001 ||| 0x002
/-- `POLLOUT`. -/
def kWriteEvent : BitVec 32 := 0x004

structure Channel where
  fd : Nat
  events : BitVec 32
  index : Int
deriving DecidableEq, Repr

def Channel.isNoneEvent (c : Channel) : Bool := c.events == kNoneEvent

structure PollFd where
  fd : Int
  events : BitVec 16
deriving DecidableEq, Repr

structure Poller where
  chan : Nat → Channel
  pollfds : List PollFd
  channels : Std.ExtTreeMap Int Nat

/-- The descriptor a `pollfd` stands for: ignored entries hold `-fd - 1` (`Poller.cc:105-107`). -/
def decodeFd (fd : Int) : Int := if fd < 0 then -fd - 1 else fd

/-- `assert(c)` in a build with or without `NDEBUG`. -/
def assertion (ndebug : Bool) (c : Prop) [Decidable c] : Option Unit := if ndebug then some () else check c

namespace Poller

/-- A poller with no channel registered; channel `c` is for the descriptor `fd c`. -/
def init (fd : Nat → Nat) : Poller := ⟨fun c => ⟨fd c, kNoneEvent, -1⟩, [], ∅⟩

/-- Change the object behind `c`. -/
def setChan (p : Poller) (c : Nat) (ch : Channel) : Poller := { p with chan := Function.update p.chan c ch }

def updateChannel (ndebug : Bool) (p : Poller) (c : Nat) : Option Poller :=
  let channel := p.chan c
  if channel.index < 0 then do
    -- a new one, add to pollfds_
    assertion ndebug (p.channels[(channel.fd : Int)]? = none)
    let pfd : PollFd := ⟨channel.fd, channel.events.setWidth 16⟩
    let pollfds := p.pollfds ++ [pfd]
    let idx : Int := (pollfds.length : Int) - 1
    return { chan := Function.update p.chan c { channel with index := idx }
             pollfds := pollfds
             channels := p.channels.insert pfd.fd c }
  else do
    -- update existing one
    assertion ndebug (p.channels[(channel.fd : Int)]? ≠ none)
    assertion ndebug (p.channels[(channel.fd : Int)]? = some c)
    let idx := channel.index
    assertion ndebug (0 ≤ idx ∧ idx < p.pollfds.length)
    let pfd ← p.pollfds[idx.toNat]?
    assertion ndebug (pfd.fd = channel.fd ∨ pfd.fd = -channel.fd - 1)
    let pfd := { pfd with events := channel.events.setWidth 16 }
    let pfd := if channel.isNoneEvent then { pfd with fd := -channel.fd - 1 } else pfd
    return { p with pollfds := p.pollfds.set idx.toNat pfd }

def removeChannel (ndebug : Bool) (p : Poller) (c : Nat) : Option Poller := do
  let channel := p.chan c
  assertion ndebug (p.channels[(channel.fd : Int)]? ≠ none)
  assertion ndebug (p.channels[(channel.fd : Int)]? = some c)
  assertion ndebug (channel.isNoneEvent = true)
  let idx := channel.index
  assertion ndebug (0 ≤ idx ∧ idx < p.pollfds.length)
  let pfd ← p.pollfds[idx.toNat]?
  assertion ndebug (pfd.fd = -channel.fd - 1 ∧ pfd.events.signExtend 32 = channel.events)
  let n := if (channel.fd : Int) ∈ p.channels then 1 else 0
  let channels := p.channels.erase channel.fd
  assertion ndebug (n = 1)
  if idx.toNat = p.pollfds.length - 1 then
    return { p with pollfds := p.pollfds.dropLast, channels := channels }
  else
    let back ← p.pollfds.getLast?
    -- iter_swap(pollfds_.begin() + idx, pollfds_.end() - 1)
    let pollfds := (p.pollfds.set idx.toNat back).set (p.pollfds.length - 1) pfd
    let channelAtEnd := decodeFd back.fd
    let d ← channels[channelAtEnd]?
    return { chan := Function.update p.chan d { p.chan d with index := idx }
             pollfds := pollfds.dropLast
             channels := channels }

/-! ## Calls -/

/-- A call that reaches the poller: the owner of channel `c` has set its events and calls
`updateChannel`, or calls `removeChannel`. -/
inductive Request
  | update (c : Nat) (events : BitVec 32)
  | remove (c : Nat)
deriving DecidableEq, Repr

def request (ndebug : Bool) (p : Poller) : Request → Option Poller
  | .update c events => updateChannel ndebug (p.setChan c { p.chan c with events := events }) c
  | .remove c => removeChannel ndebug p c

/-- `channels_` maps the channel's descriptor to it. -/
def Registered (p : Poller) (c : Nat) : Prop := p.channels[((p.chan c).fd : Int)]? = some c

/-- A channel is updated while it is new (`index_` still -1) or registered, and removed while it is
registered. -/
def Request.Legal (p : Poller) : Request → Prop
  | .update c _ => (p.chan c).index < 0 ∨ p.Registered c
  | .remove c => p.Registered c

/-- The pollers any legal requests lead to, for channels with the distinct descriptors `fd`. -/
inductive Reach (ndebug : Bool) (fd : Nat → Nat) : Poller → Prop
  | init : Reach ndebug fd (init fd)
  | request {p p' : Poller} (r : Request) :
      Reach ndebug fd p → r.Legal p → p.request ndebug r = some p' → Reach ndebug fd p'

/-- The members of `Channel` that change its interest set, and `Channel::remove`. -/
inductive Call
  | enableReading | enableWriting | disableWriting | disableAll | remove
deriving DecidableEq, Repr

/-- `events_` after the call. -/
def Call.events : Call → BitVec 32 → BitVec 32
  | .enableReading, e => e ||| kReadEvent
  | .enableWriting, e => e ||| kWriteEvent
  | .disableWriting, e => e &&& ~~~kWriteEvent
  | .disableAll, _ => kNoneEvent
  | .remove, e => e

/-- The call on channel `c`: set `events_`, then `update()`; or `remove()`. -/
def call (ndebug : Bool) (p : Poller) (k : Call) (c : Nat) : Option Poller :=
  if k = .remove then do
    assertion ndebug ((p.chan c).isNoneEvent = true)
    removeChannel ndebug p c
  else p.request ndebug (.update c (k.events (p.chan c).events))

/-- A channel changes its interest while it is new or registered, and is removed when it is
registered and disabled (the assert of `Channel::remove`). -/
def Call.Legal (p : Poller) (k : Call) (c : Nat) : Prop :=
  if k = .remove then p.Registered c ∧ (p.chan c).isNoneEvent = true
  else (p.chan c).index < 0 ∨ p.Registered c

/-- The sequence of calls is legal at every step. -/
def LegalRun (p : Poller) : List (Call × Nat) → Prop
  | [] => True
  | (k, c) :: ks => k.Legal p c ∧ ∀ p' ∈ p.call false k c, LegalRun p' ks

instance (p : Poller) (c : Nat) : Decidable (p.Registered c) :=
  inferInstanceAs (Decidable (_ = _))

instance (p : Poller) (k : Call) (c : Nat) : Decidable (k.Legal p c) :=
  inferInstanceAs (Decidable (if k = .remove then _ ∧ _ else _ ∨ _))

instance decidableLegalRun : ∀ (p : Poller) (ks : List (Call × Nat)), Decidable (p.LegalRun ks)
  | _, [] => .isTrue trivial
  | p, (k, c) :: ks =>
    have := fun p' => decidableLegalRun p' ks
    inferInstanceAs (Decidable (k.Legal p c ∧ ∀ p' ∈ p.call false k c, LegalRun p' ks))

end Poller
end ChatReactor
