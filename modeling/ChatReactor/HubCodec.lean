import ChatReactor.BufferProofs
import ChatReactor.Lib.Lines
import ChatReactor.Lib.Stopping

/-!
# The hub's wire format (`excercises/hub/codec.cc`, `pubsub.cc`, `hub.cc`)

| here | there |
| --- | --- |
| `Buffer.findCRLF` | `Buffer::findCRLF` (`Buffer.h:73-77`), from `peek()` or from a given pointer |
| `parseMessage` | `pubsub::parseMessage` (`codec.cc:5-50`) |
| `Client.publish` | the text that `PubSubClient::publish` sends (`pubsub.cc:49-53`) |
| `Client.onMessageLoop` | `PubSubClient::onMessage` (`pubsub.cc:71-95`): the calls of `subscribeCallback_` and of `conn->shutdown()` |
| `Server.onMessageLoop` | `PubSubServer::onMessage` (`hub.cc:102-139`): the calls of `doPublish`, `doSubscribe`, `doUnsubscribe` and of `conn->shutdown()` |
| `Client.receive`, `Server.receive` | `TcpConnection::handleRead` over and over: `readFd`, then `onMessage` |

Strings are their bytes. `conn->shutdown()` closes the write side only, so that the reads go on behind it. The
receive time that is passed along is left out.

`look` is one `parseMessage` on the readable bytes alone, `Frame` the lines it accepts. The client goes on behind
every message; the server leaves its loop at an unknown command, which `parseMessage` has consumed, so that the
next read finds what is behind it (`server_cuts_iff`).
-/

namespace ChatReactor

open Framing Lines

/-! ## `Buffer::findCRLF` -/

namespace Buffer

/-- The bytes between two pointers. -/
def slice (b : Buffer) (first last : Nat) : List UInt8 := (b.buffer.drop first).take (last - first)

/-- `std::find(first, last, c)`: `last` if it is not there. -/
def find (b : Buffer) (first last : Nat) (c : UInt8) : Nat := first + (b.slice first last).idxOf c

/-- `std::search(start, beginWrite(), kCRLF, kCRLF + 2)`, with the end of the range made `NULL`. -/
def findCRLF (b : Buffer) (start : Nat) : Option Nat :=
  let crlf := start + (findPair 13 10 (b.slice start b.beginWrite)).getD (b.beginWrite - start)
  if crlf = b.beginWrite then none else some crlf

end Buffer

namespace Hub

abbrev Str := List UInt8

/-- `kCRLF`. -/
def kCRLF : Str := [13, 10]
/-- `"pub"`. -/
def pub : Str := [112, 117, 98]
/-- `"sub"`. -/
def sub : Str := [115, 117, 98]
/-- `"unsub"`. -/
def unsub : Str := [117, 110, 115, 117, 98]

inductive ParseResult
  | kError | kSuccess | kContinue
deriving DecidableEq, Repr

/-- The three strings `parseMessage` fills in; the caller makes them empty. -/
structure Command where
  cmd : Str := []
  topic : Str := []
  content : Str := []
deriving DecidableEq, Repr

def parseMessage (buf : Buffer) : Option (ParseResult × Command × Buffer) :=
  match buf.findCRLF buf.peek with
  | some crlf =>
    let space := buf.find buf.peek crlf 32
    if space ≠ crlf then
      let cmd := buf.slice buf.peek space
      let topic := buf.slice (space + 1) crlf
      if cmd = pub then
        let start := crlf + 2
        match buf.findCRLF start with
        | some crlf => do
          let content := buf.slice start crlf
          let buf ← buf.retrieveUntil (crlf + 2)
          return (.kSuccess, { cmd, topic, content }, buf)
        | none => some (.kContinue, { cmd, topic }, buf)
      else do
        let buf ← buf.retrieveUntil (crlf + 2)
        return (.kSuccess, { cmd, topic }, buf)
    else some (.kError, {}, buf)
  | none => some (.kContinue, {}, buf)

/-! ## The client -/

namespace Client

/-- `"pub " + topic + "\r\n" + content + "\r\n"` -/
def publish (topic content : Str) : Str := pub ++ [32] ++ topic ++ kCRLF ++ content ++ kCRLF

structure Received where
  buf : Buffer
  calls : List (Str × Str)
  shutdowns : Nat

/-- The call of `subscribeCallback_` for a message. -/
def call (subscribeCallback : Bool) (m : Command) : List (Str × Str) :=
  if m.cmd = pub ∧ subscribeCallback then [(m.topic, m.content)] else []

/-- Every round that goes on retrieves a line, so `readableBytes()` rounds are enough; running out of fuel is
`none`. -/
def onMessageLoop (subscribeCallback : Bool) : Nat → Buffer → Option Received
  | 0, _ => none
  | fuel + 1, buf => do
    let (result, m, buf) ← parseMessage buf
    match result with
    | .kSuccess =>
      let r ← onMessageLoop subscribeCallback fuel buf
      return { r with calls := call subscribeCallback m ++ r.calls }
    | .kError => return ⟨buf, [], 1⟩
    | .kContinue => return ⟨buf, [], 0⟩

def onMessage (subscribeCallback : Bool) (buf : Buffer) : Option Received :=
  onMessageLoop subscribeCallback (buf.readableBytes + 1) buf

/-- `TcpConnection::handleRead` with data; the last list has an entry for each `shutdown`. -/
def handleRead (subscribeCallback : Bool) (buf : Buffer) (chunk : List UInt8) :
    Option (Buffer × List (Str × Str) × List Unit) := do
  let (_, buf) ← buf.readFd (some chunk)
  let r ← onMessage subscribeCallback buf
  return (r.buf, r.calls, List.replicate r.shutdowns ())

def receive (subscribeCallback : Bool) : Buffer → List (List UInt8) → Option (Buffer × List (Str × Str) × List Unit) :=
  reads (handleRead subscribeCallback)

end Client

/-! ## The server -/

/-- The call that `PubSubServer::onMessage` makes for a command. -/
inductive Operation
  | doPublish (topic content : Str)
  | doSubscribe (topic : Str)
  | doUnsubscribe (topic : Str)
deriving DecidableEq, Repr

namespace Server

/-- `none` is the last `else`: an unknown command. -/
def operation (m : Command) : Option Operation :=
  if m.cmd = pub then some (.doPublish m.topic m.content)
  else if m.cmd = sub then some (.doSubscribe m.topic)
  else if m.cmd = unsub then some (.doUnsubscribe m.topic)
  else none

structure Received where
  buf : Buffer
  operations : List Operation
  shutdowns : Nat

def onMessageLoop : Nat → Buffer → Option Received
  | 0, _ => none
  | fuel + 1, buf => do
    let (result, m, buf) ← parseMessage buf
    match result with
    | .kSuccess =>
      match operation m with
      | some o => do
        let r ← onMessageLoop fuel buf
        return { r with operations := o :: r.operations }
      | none => return ⟨buf, [], 1⟩
    | .kError => return ⟨buf, [], 1⟩
    | .kContinue => return ⟨buf, [], 0⟩

def onMessage (buf : Buffer) : Option Received := onMessageLoop (buf.readableBytes + 1) buf

def handleRead (buf : Buffer) (chunk : List UInt8) : Option (Buffer × List Operation × List Unit) := do
  let (_, buf) ← buf.readFd (some chunk)
  let r ← onMessage buf
  return (r.buf, r.operations, List.replicate r.shutdowns ())

def receive : Buffer → List (List UInt8) → Option (Buffer × List Operation × List Unit) := reads handleRead

end Server

/-! ## `parseMessage` on bytes -/

/-- What `parseMessage` does about the readable bytes `q`. -/
def look (q : List UInt8) : Verdict Command Unit :=
  match findPair 13 10 q with
  | none => .wait
  | some crlf =>
    let space := (q.take crlf).idxOf 32
    if space = crlf then .refuse ()
    else if q.take space = pub then
      match findPair 13 10 (q.drop (crlf + 2)) with
      | none => .wait
      | some n => .take ⟨q.take space, (q.take crlf).drop (space + 1), (q.drop (crlf + 2)).take n⟩ (crlf + 2 + (n + 2))
    else .take ⟨q.take space, (q.take crlf).drop (space + 1), []⟩ (crlf + 2)

/-- The first line of a command, without its end. -/
def Command.line (m : Command) : Str := m.cmd ++ 32 :: m.topic

/-- The texts that are commands: a word without a space, a space, a topic; for `pub` a line of content behind it. -/
def Frame (m : Command) (f : Str) : Prop :=
  32 ∉ m.cmd ∧ Unbroken 13 10 m.line ∧
    ((m.cmd = pub ∧ Unbroken 13 10 m.content ∧ f = m.line ++ kCRLF ++ m.content ++ kCRLF) ∨
      (m.cmd ≠ pub ∧ m.content = [] ∧ f = m.line ++ kCRLF))

theorem idxOf_line {cmd topic : Str} (h : 32 ∉ cmd) : (cmd ++ 32 :: topic).idxOf 32 = cmd.length := by
  rw [List.idxOf_append_of_notMem h, List.idxOf_cons_self, Nat.add_zero]

theorem take_of_frame {m : Command} {f : Str} (h : Frame m f) (t : Str) : look (f ++ t) = .take m f.length := by
  obtain ⟨cmd, topic, content⟩ := m
  obtain ⟨hcmd, hline, h⟩ := h
  dsimp only [Command.line] at hcmd hline h
  have hfind := fun rest : Str => findPair_line (by decide) hline rest
  have hspace : cmd.length ≠ (cmd ++ 32 :: topic).length := by simp
  have hlook : ∀ rest : Str, look ((cmd ++ 32 :: topic) ++ 13 :: 10 :: rest) =
      if cmd = pub then
        match findPair 13 10 rest with
        | none => .wait
        | some n => .take ⟨cmd, topic, rest.take n⟩ ((cmd ++ 32 :: topic).length + 2 + (n + 2))
      else .take ⟨cmd, topic, []⟩ ((cmd ++ 32 :: topic).length + 2) := by
    intro rest
    have htake : ((cmd ++ 32 :: topic) ++ 13 :: 10 :: rest).take cmd.length = cmd := by
      rw [List.append_assoc, List.take_left]
    have hdrop : ((cmd ++ 32 :: topic) ++ 13 :: 10 :: rest).drop ((cmd ++ 32 :: topic).length + 2) = rest := by
      rw [← List.drop_drop, List.drop_left]
      rfl
    have htopic : (cmd ++ 32 :: topic).drop (cmd.length + 1) = topic := by
      rw [← List.drop_drop, List.drop_left]
      rfl
    simp only [look, hfind, List.take_left, idxOf_line hcmd, if_neg hspace, htake, hdrop, htopic]
  rcases h with ⟨hpub, hcontent, rfl⟩ | ⟨hpub, rfl, rfl⟩
  · have hsplit : cmd ++ 32 :: topic ++ kCRLF ++ content ++ kCRLF ++ t =
        (cmd ++ 32 :: topic) ++ 13 :: 10 :: (content ++ 13 :: 10 :: t) := by simp [kCRLF]
    rw [hsplit, hlook, if_pos hpub, findPair_line (by decide) hcontent]
    simp [kCRLF]
    omega
  · have hsplit : cmd ++ 32 :: topic ++ kCRLF ++ t = (cmd ++ 32 :: topic) ++ 13 :: 10 :: t := by simp [kCRLF]
    rw [hsplit, hlook, if_neg hpub]
    simp [kCRLF]
    omega

/-- The line that was found, cut at its first space. -/
theorem cut_line {line : Str} (h : line.idxOf 32 ≠ line.length) :
    32 ∉ line.take (line.idxOf 32) ∧ line = line.take (line.idxOf 32) ++ 32 :: line.drop (line.idxOf 32 + 1) := by
  induction line with
  | nil => simp at h
  | cons x line ih =>
    by_cases hx : x = 32
    · simp [hx]
    · rw [List.idxOf_cons_ne _ hx] at h ⊢
      obtain ⟨h1, h2⟩ := ih (by simpa using h)
      refine ⟨?_, ?_⟩
      · simp [Ne.symm hx, h1]
      · rw [List.take_succ_cons, List.cons_append, List.drop_succ_cons, ← h2]

theorem frame_of_take {q : List UInt8} {m : Command} {n : Nat} (h : look q = .take m n) :
    n ≤ q.length ∧ 0 < n ∧ Frame m (q.take n) := by
  unfold look at h
  cases hfind : findPair 13 10 q with
  | none => simp [hfind] at h
  | some crlf =>
    obtain ⟨hline, hlen, -⟩ := findPair_some hfind
    have hcrlf : (q.take crlf).length = crlf := by simp; omega
    simp only [hfind] at h
    split at h
    · cases h
    rename_i hspace
    obtain ⟨hfree, hcut⟩ := cut_line (show (q.take crlf).idxOf 32 ≠ (q.take crlf).length by rwa [hcrlf])
    have hspaceLe : (q.take crlf).idxOf 32 ≤ crlf := Nat.le_trans List.idxOf_le_length hcrlf.le
    have hcmd : (q.take crlf).take ((q.take crlf).idxOf 32) = q.take ((q.take crlf).idxOf 32) := by
      rw [List.take_take, Nat.min_eq_left hspaceLe]
    rw [hcmd] at hfree hcut
    have hfirst : q.take (crlf + 2) = q.take crlf ++ kCRLF := take_findPair hfind
    split at h
    · rename_i hpub
      cases hsecond : findPair 13 10 (q.drop (crlf + 2)) with
      | none => simp [hsecond] at h
      | some n' =>
        simp only [hsecond] at h
        cases h
        obtain ⟨hcontent, hlen', -⟩ := findPair_some hsecond
        rw [List.length_drop] at hlen'
        refine ⟨by omega, by omega, hfree, ?_, .inl ⟨hpub, hcontent, ?_⟩⟩
        · rwa [Command.line, ← hcut]
        · have hlast : (q.drop (crlf + 2)).take (n' + 2) = (q.drop (crlf + 2)).take n' ++ kCRLF := take_findPair hsecond
          rw [Command.line, ← hcut, List.take_add, hfirst, hlast, List.append_assoc _ _ kCRLF]
    · rename_i hpub
      cases h
      refine ⟨by omega, by omega, hfree, ?_, .inr ⟨hpub, rfl, ?_⟩⟩
      · rwa [Command.line, ← hcut]
      · rw [Command.line, ← hcut, hfirst]

theorem look_grammar : Grammar look Frame where
  sound h := (frame_of_take h).2.2
  complete t h := take_of_frame h t

theorem look_incremental : Incremental look := by
  refine look_grammar.incremental (fun h => ⟨(frame_of_take h).2.1, (frame_of_take h).1⟩) ?_
  intro q e t h
  unfold look at h ⊢
  cases hfind : findPair 13 10 q with
  | none => simp [hfind] at h
  | some crlf =>
    obtain ⟨-, hlen, -⟩ := findPair_some hfind
    rw [findPair_append hfind t]
    simp only [hfind] at h ⊢
    rw [List.take_append_of_le_length (by omega)]
    split at h
    · rename_i hspace
      rw [if_pos hspace, h]
    · split at h
      · split at h <;> cases h
      · cases h

end Hub
end ChatReactor
