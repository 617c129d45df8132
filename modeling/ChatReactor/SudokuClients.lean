import ChatReactor.SudokuLines
import ChatReactor.ChatServer

/-!
# The Sudoku clients (`excercises/sudoku/pipeline.cc`, `loadtest.cc`, `batch.cc`)

| here | there |
| --- | --- |
| `Client` | the members of `SudokuClient` in `pipeline.cc` and `loadtest.cc` that `onMessage` uses |
| `Client.verify` | their `SudokuClient::verify`, which returns `true` |
| `Client.send` | `SudokuClient::send` of `pipeline.cc` |
| `Pipeline.onMessage`, `Loadtest.onMessage`, `Batch.onMessage` | `SudokuClient::onMessage` of each |
| `Batch` | `SudokuClient` of `batch.cc`; `done` counts the calls of `cb_` |

A time is its number of microseconds; the clock at the moment a request is made is a function of the request's number.
A name is short enough for the `buf` of 256 bytes, and there is an input, without which the pipelined client cannot have
been connected. The log is left out, and with it the time that `batch.cc` hands to `cb_`.

The loop does not look at fewer than `kCells + 2` bytes, as many as a solution has with its line end. What it leaves in
the buffer is the subject of `clients_drain_iff`.
-/

namespace ChatReactor

open Lines

namespace SudokuClients

structure Client where
  name : List UInt8
  input : List (List UInt8)
  input_ne : input ≠ []
  count : Nat
  sendTime : Int → Option Int
  latencies : List Int
  conn : Peer

namespace Client

/-- `%08d` -/
def padded (n : Nat) : List UInt8 :=
  let digits := (Nat.toDigits 10 n).map fun c => UInt8.ofNat c.toNat
  List.replicate (8 - digits.length) 48 ++ digits

/-- `snprintf(buf, sizeof buf, "%s-%08d:%s\r\n", name_.c_str(), count_, req.c_str())` -/
def request (c : Client) : List UInt8 :=
  c.name ++ bytesOf "-" ++ padded c.count ++ bytesOf ":" ++ c.input.getD (c.count % c.input.length) [] ++ bytesOf "\r\n"

/-- The loop of `send`, with the requests so far. -/
def sendLoop (now : Nat → Int) : Nat → Client → List UInt8 → Client × List UInt8
  | 0, c, requests => (c, requests)
  | n + 1, c, requests =>
    sendLoop now n { c with sendTime := Function.update c.sendTime c.count (some (now c.count)), count := c.count + 1 }
      (requests ++ c.request)

def send (now : Nat → Int) (c : Client) (n : Nat) : Client :=
  let (c, requests) := sendLoop now n c []
  { c with conn := c.conn.send requests }

/-- `atoi` of bytes. -/
def atoiBytes (s : List UInt8) : Int := atoi (s.map fun b => Char.ofNat b.toNat)

def verify (c : Client) (response : List UInt8) (recvTime : Int) : Client × Bool :=
  let colon := response.idxOf 58
  let dash := response.idxOf 45
  if colon ≠ response.length ∧ dash ≠ response.length ∧ dash < colon then
    let id := atoiBytes (response.drop (dash + 1))
    match c.sendTime id with
    | some time =>
      ({ c with
          latencies := c.latencies ++ [(recvTime - time).bmod (2 ^ 32)]
          sendTime := Function.update c.sendTime id none }, true)
    | none => (c, true)
  else (c, true)

/-- `conn->shutdown()` -/
def shutdown (c : Client) : Client := { c with conn := c.conn.shutdown }

end Client

namespace Pipeline

def onLine (now : Nat → Int) (recvTime : Int) (c : Client) (response : List UInt8) : Client × Bool :=
  let (c, verified) := c.verify response recvTime
  if verified then (c.send now 1, true) else (c.shutdown, false)

def onMessage (now : Nat → Int) (recvTime : Int) (c : Client) (buf : Buffer) : Option (Client × Buffer) :=
  lineLoop (fun c response => some (onLine now recvTime c response)) Client.shutdown (buf.readableBytes + 1) c buf

end Pipeline

namespace Loadtest

def onLine (recvTime : Int) (c : Client) (response : List UInt8) : Client × Bool :=
  let (c, verified) := c.verify response recvTime
  if verified then (c, true) else (c.shutdown, false)

def onMessage (recvTime : Int) (c : Client) (buf : Buffer) : Option (Client × Buffer) :=
  lineLoop (fun c response => some (onLine recvTime c response)) Client.shutdown (buf.readableBytes + 1) c buf

end Loadtest

structure Batch where
  input : List (List UInt8)
  count : Nat
  done : Nat
  conn : Peer

namespace Batch

/-- `verify` of `batch.cc` -/
def verify (_result : List UInt8) : Bool := true

def shutdown (c : Batch) : Batch := { c with conn := c.conn.shutdown }

def onLine (c : Batch) (response : List UInt8) : Batch × Bool :=
  let c := { c with count := c.count + 1 }
  if verify response then (c, true) else (c.shutdown, false)

/-- What follows the loop. -/
def finish (c : Batch) : Batch :=
  if c.count = c.input.length then { c with done := c.done + 1 }.shutdown else c

def onMessage (c : Batch) (buf : Buffer) : Option (Batch × Buffer) := do
  let (c, buf) ← lineLoop (fun c response => some (onLine c response)) shutdown (buf.readableBytes + 1) c buf
  some (c.finish, buf)

end Batch

/-! ## What is left in the buffer -/

/-- The last complete line, with its line end and what is behind it, is long enough for the loop. -/
def Reaches (lines : List (List UInt8)) (tail : List UInt8) : Prop :=
  ∀ line, lines.getLast? = some line → kCells + 2 ≤ line.length + 2 + tail.length

/-- A loop that goes on at every line and shuts the connection down only when it gives up. -/
theorem loop_drains {σ : Type} (line : σ → List UInt8 → σ × Bool) (tooLong : σ → σ) (connected : σ → Bool)
    {lines : List (List UInt8)} {tail : List UInt8} {buf : Buffer} (hon : ∀ s l, (line s l).2 = true)
    (hline : ∀ s l, connected (line s l).1 = connected s)
    (hlines : ∀ l ∈ lines, Unbroken 13 10 l) (htail : Unbroken 13 10 tail) (hbuf : buf.Holds (text 13 10 lines tail))
    {s : σ} (hs : connected s = true) :
    ∃ buf', lineLoop (fun s l => some (line s l)) tooLong (buf.readableBytes + 1) s buf =
        some (((lineSpec line tooLong).run s (text 13 10 lines tail)).1, buf') ∧
      ((connected ((lineSpec line tooLong).run s (text 13 10 lines tail)).1 = true → ¬ [13, 10] <:+: buf'.content) ↔
        Reaches lines tail) := by
  obtain ⟨buf', hloop, hbuf'⟩ := lineLoop_spec tooLong (fun _ _ => rfl) (buf.readableBytes + 1) s hbuf
    (by rw [hbuf.readableBytes_eq]; omega)
  have hdrains : Unbroken 13 10 ((lineSpec line tooLong).run s (text 13 10 lines tail)).2 ↔ Reaches lines tail :=
    LineLoop.run_drains (L := lineSpec line tooLong) hon hlines htail s
  rw [hbuf'.content_eq.symm] at hdrains
  refine ⟨buf', hloop, fun h => ?_, fun hreaches _ => hdrains.2 hreaches⟩
  by_contra hreaches
  have hbroken := mt hdrains.1 hreaches
  refine hbroken (h ?_)
  by_contra hdown
  rcases LineLoop.run_gaveUp (L := lineSpec line tooLong) hon (fun s => connected s ≠ true) (fun s l h => hline s l ▸ h) hdown
    with h | h
  · exact h hs
  · exact hbroken (hbuf'.content_eq ▸ h)

theorem Client.verify_goOn (c : Client) (response : List UInt8) (recvTime : Int) :
    (c.verify response recvTime).2 = true := by
  simp only [Client.verify]
  split
  · split <;> rfl
  · rfl

theorem Client.verify_conn (c : Client) (response : List UInt8) (recvTime : Int) :
    (c.verify response recvTime).1.conn = c.conn := by
  simp only [Client.verify]
  split
  · split <;> rfl
  · rfl

theorem Client.send_one_connected (now : Nat → Int) (c : Client) : (c.send now 1).conn.connected = c.conn.connected := by
  simp [Client.send, Client.sendLoop]

theorem Pipeline.onLine_eq (now : Nat → Int) (recvTime : Int) (c : Client) (response : List UInt8) :
    Pipeline.onLine now recvTime c response = ((c.verify response recvTime).1.send now 1, true) := by
  simp [Pipeline.onLine, c.verify_goOn response recvTime]

theorem Loadtest.onLine_eq (recvTime : Int) (c : Client) (response : List UInt8) :
    Loadtest.onLine recvTime c response = ((c.verify response recvTime).1, true) := by
  simp [Loadtest.onLine, c.verify_goOn response recvTime]

/-- `count_` counts the lines that the loop takes. -/
theorem Batch.run_counts {lines : List (List UInt8)} {tail : List UInt8} (hlines : ∀ l ∈ lines, Unbroken 13 10 l)
    (htail : Unbroken 13 10 tail) (c : Batch) :
    ((lineSpec Batch.onLine Batch.shutdown).run c (text 13 10 lines tail)).1.count =
        c.count + taken 13 10 (kCells + 2) lines tail ∧
      ((lineSpec Batch.onLine Batch.shutdown).run c (text 13 10 lines tail)).1.input = c.input := by
  constructor
  · exact LineLoop.run_count (L := lineSpec Batch.onLine Batch.shutdown) (fun _ _ => rfl) (fun _ _ => rfl) (fun _ => rfl)
      hlines htail c
  · exact LineLoop.run_invariant (lineSpec Batch.onLine Batch.shutdown) (P := fun c' => c'.input = c.input)
      (fun _ _ h => h) (fun _ h => h) rfl _

/-- **Exactly when the clients leave no complete line.** The loop takes every complete line of a buffer and returns, or
shuts the connection down, if and only if the last complete line reaches the threshold together with what is behind it;
`batch.cc` also shuts it down if it has then counted as many responses as it has sent requests. -/
theorem clients_drain_iff {lines : List (List UInt8)} {tail : List UInt8} {buf : Buffer}
    (hlines : ∀ l ∈ lines, Unbroken 13 10 l) (htail : Unbroken 13 10 tail)
    (hbuf : buf.Holds (text 13 10 lines tail)) :
    (∀ now recvTime (c : Client), c.conn.connected = true → ∃ c' buf',
      Pipeline.onMessage now recvTime c buf = some (c', buf') ∧
        ((c'.conn.connected = true → ¬ [13, 10] <:+: buf'.content) ↔ Reaches lines tail)) ∧
    (∀ recvTime (c : Client), c.conn.connected = true → ∃ c' buf',
      Loadtest.onMessage recvTime c buf = some (c', buf') ∧
        ((c'.conn.connected = true → ¬ [13, 10] <:+: buf'.content) ↔ Reaches lines tail)) ∧
    (∀ c : Batch, c.conn.connected = true → ∃ c' buf',
      Batch.onMessage c buf = some (c', buf') ∧
        ((c'.conn.connected = true → ¬ [13, 10] <:+: buf'.content) ↔
          Reaches lines tail ∨ c.count + taken 13 10 (kCells + 2) lines tail = c.input.length)) := by
  refine ⟨fun now recvTime c hc => ?_, fun recvTime c hc => ?_, fun c hc => ?_⟩
  · obtain ⟨buf', hloop, hiff⟩ := loop_drains (Pipeline.onLine now recvTime) Client.shutdown (·.conn.connected)
      (by simp [Pipeline.onLine_eq]) (by simp [Pipeline.onLine_eq, Client.send_one_connected, Client.verify_conn])
      hlines htail hbuf hc
    exact ⟨_, buf', hloop, hiff⟩
  · obtain ⟨buf', hloop, hiff⟩ := loop_drains (Loadtest.onLine recvTime) Client.shutdown (·.conn.connected)
      (by simp [Loadtest.onLine_eq]) (by simp [Loadtest.onLine_eq, Client.verify_conn]) hlines htail hbuf hc
    exact ⟨_, buf', hloop, hiff⟩
  · obtain ⟨buf', hloop, hiff⟩ := loop_drains Batch.onLine Batch.shutdown (·.conn.connected)
      (fun _ _ => rfl) (fun _ _ => rfl) hlines htail hbuf hc
    obtain ⟨hcount, hinput⟩ := Batch.run_counts hlines htail c
    refine ⟨_, buf', by rw [Batch.onMessage, hloop]; rfl, ?_⟩
    by_cases hall : c.count + taken 13 10 (kCells + 2) lines tail = c.input.length
    · rw [Batch.finish, if_pos (by rw [hcount, hinput, hall])]
      exact ⟨fun _ => .inr hall, fun _ hup => (by cases hup)⟩
    · rw [Batch.finish, if_neg (by rw [hcount, hinput]; exact hall)]
      exact ⟨fun h => .inl (hiff.1 h), fun h => hiff.2 (h.resolve_right hall)⟩

/-- A short answer and the front part of a solution: the loop takes the answer. -/
theorem clients_drain_short : ∃ n buf, Buffer.new.readFd (some (bytesOf "1:NoSolution\r\n2:" ++ List.replicate 70 49)) =
      some (n, buf) ∧
    ∀ recvTime (c : Client), c.conn.connected = true → ∃ c' buf',
      Loadtest.onMessage recvTime c buf = some (c', buf') ∧
        (c'.conn.connected = true → ¬ [13, 10] <:+: buf'.content) := by
  obtain ⟨buf, hread, hbuf⟩ := Buffer.readFd_holds Buffer.new_holds (bytesOf "1:NoSolution\r\n2:" ++ List.replicate 70 49)
  refine ⟨_, buf, hread, fun recvTime c hc => ?_⟩
  have htext : [] ++ (bytesOf "1:NoSolution\r\n2:" ++ List.replicate 70 49) =
      text 13 10 [bytesOf "1:NoSolution"] (bytesOf "2:" ++ List.replicate 70 49) := by decide
  rw [htext] at hbuf
  obtain ⟨-, hload, -⟩ := clients_drain_iff (by decide) (by decide) hbuf
  obtain ⟨c', buf', hmsg, hiff⟩ := hload recvTime c hc
  refine ⟨c', buf', hmsg, hiff.2 ?_⟩
  intro line hline
  cases hline
  decide

/-- A short answer alone stays in the buffer, of all three clients. -/
theorem clients_leave_line : ∃ n buf, Buffer.new.readFd (some (bytesOf "c-00000001:NoSolution\r\n")) = some (n, buf) ∧
    (∀ now recvTime (c : Client), Pipeline.onMessage now recvTime c buf = some (c, buf)) ∧
    (∀ recvTime (c : Client), Loadtest.onMessage recvTime c buf = some (c, buf)) ∧
    (∀ c : Batch, c.count ≠ c.input.length → Batch.onMessage c buf = some (c, buf)) ∧
    [13, 10] <:+: buf.content := by
  obtain ⟨buf, hread, hbuf⟩ := Buffer.readFd_holds Buffer.new_holds (bytesOf "c-00000001:NoSolution\r\n")
  have hlen : ¬ kCells + 2 ≤ buf.readableBytes := by
    rw [hbuf.readableBytes_eq]
    decide
  refine ⟨_, buf, hread, fun _ _ c => ?_, fun _ c => ?_, fun c hc => ?_, ?_⟩
  · simp [Pipeline.onMessage, lineLoop, lineRound, hlen]
  · simp [Loadtest.onMessage, lineLoop, lineRound, hlen]
  · simp [Batch.onMessage, lineLoop, lineRound, hlen, Batch.finish, hc]
  · rw [hbuf.content_eq]
    decide

end SudokuClients
end ChatReactor
