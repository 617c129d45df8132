import ChatReactor.HubStream
import ChatReactor.Lib.LineLoop
import ChatReactor.Sudoku

/-!
# The line loop of the Sudoku programs

`onMessage` of the two servers (`server_basic.cc`, `server_threadpool.cc`) and of the three clients (`pipeline.cc`,
`batch.cc`, `loadtest.cc`, all in `excercises/sudoku`) is one loop, with a line handled in five ways.

| here | there |
| --- | --- |
| `lineRound` | one round of `while (len >= kCells + 2)` |
| `lineLoop` | the whole loop |
| `Peer` | the `TcpConnection`: whether `state_` is `kConnected`, and the messages `send` has accepted |

`send` drops the message unless `state_` is `kConnected`, and `shutdown` leaves that state for good
(`TcpConnection.cc:73-83`, `163-173`). A message is counted as sent where `send` accepts it. The log is left out.
-/

namespace ChatReactor

open Lines

structure Peer where
  connected : Bool
  sent : List (List UInt8)
  deriving DecidableEq

namespace Peer

/-- `TcpConnection::send` -/
def send (c : Peer) (message : List UInt8) : Peer :=
  if c.connected then { c with sent := c.sent ++ [message] } else c

/-- `TcpConnection::shutdown` -/
def shutdown (c : Peer) : Peer := { c with connected := false }

/-- A connection that has just been made. -/
def new : Peer := { connected := true, sent := [] }

@[simp] theorem send_connected (c : Peer) (message : List UInt8) : (c.send message).connected = c.connected := by
  unfold send
  split <;> rfl

theorem send_up {c : Peer} (h : c.connected = true) (message : List UInt8) :
    (c.send message).sent = c.sent ++ [message] := by
  rw [send, if_pos h]

theorem send_down {c : Peer} (h : c.connected = false) (message : List UInt8) : c.send message = c := by
  simp [send, h]

@[simp] theorem shutdown_connected (c : Peer) : c.shutdown.connected = false := rfl

@[simp] theorem shutdown_sent (c : Peer) : c.shutdown.sent = c.sent := rfl

end Peer

/-! ## The loop -/

section
variable {σ : Type}

/-- `line` is what is done with a complete line, and whether the loop goes on; `tooLong` is done with more than 100
bytes that hold none. -/
def lineRound (line : σ → List UInt8 → Option (σ × Bool)) (tooLong : σ → σ) (s : σ) (buf : Buffer) :
    Option ((σ × Buffer) × Bool) :=
  let len := buf.readableBytes
  if kCells + 2 ≤ len then
    match buf.findCRLF buf.peek with
    | some crlf => do
      let request := buf.slice buf.peek crlf
      let buf ← buf.retrieveUntil (crlf + 2)
      let (s, goOn) ← line s request
      some ((s, buf), goOn)
    | none => some ((if 100 < len then tooLong s else s, buf), false)
  else some ((s, buf), false)

/-- A round with another one behind it retrieves a line, so `readableBytes() + 1` rounds are enough. -/
def lineLoop (line : σ → List UInt8 → Option (σ × Bool)) (tooLong : σ → σ) : Nat → σ → Buffer → Option (σ × Buffer)
  | 0, _, _ => none
  | fuel + 1, s, buf => do
    let (x, goOn) ← lineRound line tooLong s buf
    if goOn then lineLoop line tooLong fuel x.1 x.2 else some x

/-- The loop on the readable bytes alone. -/
def lineSpec (line : σ → List UInt8 → σ × Bool) (tooLong : σ → σ) : LineLoop UInt8 σ where
  a := 13
  b := 10
  ne := by decide
  least := kCells + 2
  most := 100
  least_pos := Nat.succ_pos _
  line := line
  tooLong := tooLong

variable {line : σ → List UInt8 → Option (σ × Bool)} {line' : σ → List UInt8 → σ × Bool} (tooLong : σ → σ)

/-- A round on a buffer is the round on what the buffer holds. -/
theorem lineRound_spec (hline : ∀ s l, line s l = some (line' s l)) (s : σ) {buf : Buffer} {q : List UInt8}
    (h : buf.Holds q) :
    ∃ buf', lineRound line tooLong s buf = some ((((lineSpec line' tooLong).round s q).1.1, buf'),
        ((lineSpec line' tooLong).round s q).2) ∧ buf'.Holds ((lineSpec line' tooLong).round s q).1.2 := by
  unfold lineRound
  simp only [h.readableBytes_eq]
  by_cases hlen : q.length < kCells + 2
  · rw [if_neg (Nat.not_le.2 hlen), LineLoop.round_short _ (by exact hlen)]
    exact ⟨buf, rfl, h⟩
  rw [if_pos (Nat.not_lt.1 hlen)]
  obtain ⟨pre, spare, hl⟩ := h
  have hcrlf := Buffer.findCRLF_eq hl (Nat.zero_le _)
  rw [Nat.add_zero, List.drop_zero] at hcrlf
  rw [hcrlf]
  cases hfind : findPair 13 10 q with
  | none =>
    rw [LineLoop.round_tail _ (findPair_none.1 hfind) (Nat.not_lt.1 hlen)]
    exact ⟨buf, rfl, pre, spare, hl⟩
  | some i =>
    obtain ⟨-, hle, -⟩ := findPair_some hfind
    have hslice := Buffer.slice_eq hl (i := 0) (show i ≤ q.length by omega)
    rw [Nat.add_zero, List.drop_zero] at hslice
    obtain ⟨buf', hretrieve, hholds⟩ := Buffer.retrieveUntil_holds hl hle
    rw [LineLoop.round_found _ hfind (Nat.not_lt.1 hlen)]
    refine ⟨buf', ?_, hholds⟩
    simp only [Option.map_some, hslice, Nat.add_assoc, hretrieve, hline, Option.bind_eq_bind, Option.bind_some]
    rfl

theorem lineLoop_spec (hline : ∀ s l, line s l = some (line' s l)) (fuel : Nat) (s : σ) {buf : Buffer} {q : List UInt8}
    (h : buf.Holds q) (hfuel : q.length < fuel) :
    ∃ buf', lineLoop line tooLong fuel s buf = some (((lineSpec line' tooLong).run s q).1, buf') ∧
      buf'.Holds ((lineSpec line' tooLong).run s q).2 := by
  induction fuel generalizing s buf q with
  | zero => omega
  | succ fuel ih =>
    obtain ⟨buf', hround, hholds⟩ := lineRound_spec tooLong hline s h
    simp only [lineLoop, hround, Option.bind_eq_bind, Option.bind_some]
    rw [LineLoop.run_round]
    split_ifs with hon
    · have hlt := LineLoop.round_length _ hon
      exact ih _ hholds (by omega)
    · exact ⟨buf', rfl, hholds⟩

/-- Two such loops beside each other on the same bytes: if they agree on when to go on, they take the same lines. -/
theorem round_beside {τ : Type} {line₁ : σ → List UInt8 → σ × Bool} {line₂ : τ → List UInt8 → τ × Bool}
    {tooLong₁ : σ → σ} {tooLong₂ : τ → τ} {R : σ → τ → Prop}
    (hline : ∀ {s t} l, R s t → R (line₁ s l).1 (line₂ t l).1 ∧ (line₁ s l).2 = (line₂ t l).2)
    (htooLong : ∀ {s t}, R s t → R (tooLong₁ s) (tooLong₂ t)) {s : σ} {t : τ} (h : R s t) (q : List UInt8) :
    R ((lineSpec line₁ tooLong₁).round s q).1.1 ((lineSpec line₂ tooLong₂).round t q).1.1 ∧
      ((lineSpec line₁ tooLong₁).round s q).1.2 = ((lineSpec line₂ tooLong₂).round t q).1.2 ∧
      ((lineSpec line₁ tooLong₁).round s q).2 = ((lineSpec line₂ tooLong₂).round t q).2 := by
  by_cases hlen : q.length < kCells + 2
  · rw [LineLoop.round_short _ (by exact hlen), LineLoop.round_short _ (by exact hlen)]
    exact ⟨h, rfl, rfl⟩
  have hlen' : kCells + 2 ≤ q.length := Nat.not_lt.1 hlen
  cases hfind : findPair 13 10 q with
  | none =>
    rw [LineLoop.round_tail _ (findPair_none.1 hfind) (by exact hlen'),
      LineLoop.round_tail _ (findPair_none.1 hfind) (by exact hlen')]
    refine ⟨?_, rfl, rfl⟩
    by_cases hlong : 100 < q.length
    · rw [if_pos (by exact hlong), if_pos (by exact hlong)]
      exact htooLong h
    · rw [if_neg (by exact hlong), if_neg (by exact hlong)]
      exact h
  | some i =>
    rw [LineLoop.round_found _ hfind (by exact hlen'), LineLoop.round_found _ hfind (by exact hlen')]
    obtain ⟨hR, hon⟩ := hline (q.take i) h
    exact ⟨hR, rfl, hon⟩

end
end ChatReactor
