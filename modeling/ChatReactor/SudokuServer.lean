import ChatReactor.SudokuLines
import ChatReactor.SudokuProofs

/-!
# The basic Sudoku server (`excercises/sudoku/server_basic.cc`)

| here | there |
| --- | --- |
| `splitRequest` | the part of `processRequest` that sets `id` and `puzzle` |
| `reply` | the text of the `conn->send` for a result |
| `processRequest` | the rest of it, with the value of `goodRequest` |
| `onMessage` | `SudokuServer::onMessage` |
| `receive` | `TcpConnection::handleRead` over and over: `readFd`, then `onMessage` |

The loop gives up on a line when more than 100 bytes of it have arrived and its end has not; if the end has arrived
as well, it takes the line whatever its length is. `server_cuts_agree_iff` says for which streams this shows.
-/

namespace ChatReactor

open Lines

namespace SudokuServer

def crlf : List UInt8 := [13, 10]

/-- The id before the first colon and the puzzle behind it; without a colon the id is empty. -/
def splitRequest (request : List UInt8) : List UInt8 × List UInt8 :=
  let colon := request.idxOf 58
  if colon ≠ request.length then (request.take colon, request.drop (colon + 1)) else ([], request)

def reply (id result : List UInt8) : List UInt8 :=
  if id.isEmpty then result ++ crlf else id ++ bytesOf ":" ++ result ++ crlf

def badRequest : List UInt8 := bytesOf "Bad Request!\r\n"

def idTooLong : List UInt8 := bytesOf "Id too long!\r\n"

def processRequest (conn : Peer) (request : List UInt8) : Option (Peer × Bool) :=
  let (id, puzzle) := splitRequest request
  if puzzle.length = kCells then do
    let result ← solveSudoku puzzle
    some (conn.send (reply id result), true)
  else some (conn, false)

/-- What the loop does with a complete line. -/
def onLine (conn : Peer) (request : List UInt8) : Option (Peer × Bool) := do
  let (conn, goodRequest) ← processRequest conn request
  if goodRequest then some (conn, true) else some ((conn.send badRequest).shutdown, false)

def onTooLong (conn : Peer) : Peer := (conn.send idTooLong).shutdown

def onMessage (conn : Peer) (buf : Buffer) : Option (Peer × Buffer) :=
  lineLoop onLine onTooLong (buf.readableBytes + 1) conn buf

def handleRead (x : Peer × Buffer) (chunk : List UInt8) : Option (Peer × Buffer) := do
  let (_, buf) ← x.2.readFd (some chunk)
  onMessage x.1 buf

def receive (chunks : List (List UInt8)) : Option (Peer × Buffer) := chunks.foldlM handleRead (.new, .new)

/-- The bytes that the server sends when a stream arrives in these reads. -/
def replies (chunks : List (List UInt8)) : Option (List UInt8) := (receive chunks).map fun x => x.1.sent.flatten

/-! ## Requests -/

/-- The line is a request. -/
def Good (request : List UInt8) : Prop := (splitRequest request).2.length = kCells

instance (request : List UInt8) : Decidable (Good request) := inferInstanceAs (Decidable (_ = _))

/-- The answer to a request. -/
def answer (request : List UInt8) : List UInt8 :=
  reply (splitRequest request).1 ((solveSudoku (splitRequest request).2).getD [])

/-- A line, without the ways to fail. -/
def serveLine (conn : Peer) (request : List UInt8) : Peer × Bool :=
  if Good request then (conn.send (answer request), true) else ((conn.send badRequest).shutdown, false)

/-- The server on the bytes alone. -/
def spec : LineLoop UInt8 Peer := lineSpec serveLine onTooLong

theorem onLine_eq (conn : Peer) (request : List UInt8) : onLine conn request = some (serveLine conn request) := by
  unfold onLine processRequest serveLine
  by_cases h : Good request
  · obtain ⟨result, hresult⟩ := solveSudoku_returns h
    have hlen : (splitRequest request).2.length = kCells := h
    simp [h, hlen, hresult, answer]
  · have hlen : ¬ (splitRequest request).2.length = kCells := h
    simp [h, hlen]

theorem handleRead_spec {conn : Peer} {buf : Buffer} {q : List UInt8} (h : buf.Holds q) (chunk : List UInt8) :
    ∃ buf', handleRead (conn, buf) chunk = some ((spec.run conn (q ++ chunk)).1, buf') ∧
      buf'.Holds (spec.run conn (q ++ chunk)).2 := by
  obtain ⟨b₁, hread, hb₁⟩ := Buffer.readFd_holds h chunk
  obtain ⟨buf', hloop, hbuf'⟩ := lineLoop_spec onTooLong onLine_eq (b₁.readableBytes + 1) conn hb₁
    (by rw [hb₁.readableBytes_eq]; omega)
  refine ⟨buf', ?_, hbuf'⟩
  rw [handleRead, hread]
  exact hloop

/-- The server returns from every read, and is the loop on the bytes. -/
theorem receive_spec (chunks : List (List UInt8)) :
    ∃ buf, receive chunks = some ((spec.reads .new [] chunks).1, buf) ∧ buf.Holds (spec.reads .new [] chunks).2 := by
  induction chunks using List.reverseRecOn with
  | nil => exact ⟨.new, rfl, Buffer.new_holds⟩
  | append_singleton chunks chunk ih =>
    obtain ⟨buf, hrec, hbuf⟩ := ih
    obtain ⟨buf', hread, hbuf'⟩ := handleRead_spec hbuf chunk
    refine ⟨buf', ?_, by simpa [LineLoop.reads] using hbuf'⟩
    rw [receive] at hrec ⊢
    simp [List.foldlM_append, hrec, hread, LineLoop.reads]

theorem replies_spec (chunks : List (List UInt8)) :
    replies chunks = some (spec.reads .new [] chunks).1.sent.flatten := by
  obtain ⟨buf, hrec, -⟩ := receive_spec chunks
  rw [replies, hrec, Option.map_some]

/-! ## Cuts -/

/-- Requests, and behind them a complete line of 100 bytes or more. -/
def LongLine (stream : List UInt8) : Prop :=
  ∃ requests line rest, stream = text 13 10 requests (line ++ 13 :: 10 :: rest) ∧
    (∀ request ∈ requests, Unbroken 13 10 request ∧ Good request) ∧ Unbroken 13 10 line ∧ 100 ≤ line.length

variable {request : List UInt8}

theorem serveLine_good (h : Good request) (conn : Peer) :
    serveLine conn request = (conn.send (answer request), true) := if_pos h

theorem serveLine_bad (h : ¬ Good request) (conn : Peer) :
    serveLine conn request = ((conn.send badRequest).shutdown, false) := if_neg h

theorem good_of_goOn {conn : Peer} (h : (serveLine conn request).2 = true) : Good request := by
  by_contra hbad
  rw [serveLine_bad hbad] at h
  cases h

/-- A request is its puzzle, with an id and a colon or without. -/
theorem Good.length (h : Good request) : 81 ≤ request.length ∧ request.length ≤ (splitRequest request).1.length + 82 := by
  simp only [Good, splitRequest, kCells] at h ⊢
  have hcolon : request.idxOf 58 ≤ request.length := List.idxOf_le_length
  split_ifs at h ⊢
  · simp only [List.length_drop, List.length_take] at h ⊢
    omega
  · simp only [List.length_nil] at h ⊢
    omega

/-- Without the connection, nothing shows any more. -/
theorem spec_ends : spec.Ends (fun conn => conn.connected = false) Peer.sent where
  line {conn request} h := by
    have hbad : ¬ Good request := by
      intro hgood
      rw [show spec.line conn request = _ from serveLine_good hgood conn] at h
      cases h
    rw [show spec.line conn request = _ from serveLine_bad hbad conn]
    rfl
  tooLong _ := rfl
  alive {conn request} h hdead := by
    rw [show spec.line conn request = _ from serveLine_good (good_of_goOn h) conn] at hdead
    rwa [Peer.send_connected] at hdead
  line_obs {conn} request hdead := by
    change (serveLine conn request).1.connected = false ∧ (serveLine conn request).1.sent = conn.sent
    unfold serveLine
    split
    · rw [Peer.send_down hdead]
      exact ⟨hdead, rfl⟩
    · rw [Peer.send_down hdead]
      exact ⟨rfl, rfl⟩
  tooLong_obs {conn} hdead := by
    change ((conn.send idTooLong).shutdown).sent = conn.sent
    rw [Peer.send_down hdead, Peer.shutdown_sent]

theorem exposed_iff (conn : Peer) (stream : List UInt8) : spec.Exposed conn stream ↔ LongLine stream := by
  constructor
  · intro h
    induction h with
    | @here conn line rest hline _ hlong => exact ⟨[], line, rest, rfl, by simp, hline, hlong⟩
    | @later conn request rest hrequest _ hon _ ih =>
      obtain ⟨requests, line, rest', heq, hgood, hline, hlong⟩ := ih
      refine ⟨request :: requests, line, rest', ?_, ?_, hline, hlong⟩
      · rw [heq, text_cons]
        rfl
      · rintro r (_ | ⟨_, hr⟩)
        · exact ⟨hrequest, good_of_goOn hon⟩
        · exact hgood r hr
  · rintro ⟨requests, line, rest, rfl, hgood, hline, hlong⟩
    induction requests generalizing conn with
    | nil =>
      refine .here hline ?_ hlong
      simp only [List.length_append]
      change 83 ≤ _
      omega
    | cons request requests ih =>
      obtain ⟨hrequest, hreq⟩ := hgood request (by simp)
      rw [text_cons]
      refine .later hrequest ?_ ?_ (ih _ fun r hr => hgood r (by simp [hr]))
      · have hlen := hreq.length.1
        simp only [List.length_append, List.length_cons]
        change 83 ≤ _
        omega
      · rw [show spec.line conn request = _ from serveLine_good hreq conn]

theorem sent_send (conn : Peer) (message : List UInt8) : conn.sent <+: (conn.send message).sent := by
  unfold Peer.send
  split
  · exact List.prefix_append _ _
  · exact List.prefix_rfl

/-- Nothing that was sent is taken back. -/
theorem sent_run (conn : Peer) (q : List UInt8) : conn.sent <+: (spec.run conn q).1.sent := by
  refine spec.run_invariant (P := fun conn' => conn.sent <+: conn'.sent) ?_ ?_ List.prefix_rfl q
  · intro conn' request h
    refine h.trans ?_
    change conn'.sent <+: (serveLine conn' request).1.sent
    unfold serveLine
    split
    · exact sent_send conn' _
    · exact sent_send conn' _
  · intro conn' h
    exact h.trans (sent_send conn' idTooLong)

theorem length_answer (request : List UInt8) : (splitRequest request).1.length ≤ (answer request).length := by
  unfold answer reply
  split
  · rename_i h
    simp [List.isEmpty_iff.1 h]
  · simp only [List.length_append]
    omega

/-- Giving up on a long line shows: the line, once it is complete, is answered with something else. -/
theorem gaveUp_ne {conn : Peer} (hconn : conn.connected = true) {line : List UInt8} (hlong : 100 ≤ line.length)
    (t : List UInt8) :
    (if (spec.line conn line).2 then spec.run (spec.line conn line).1 t else ((spec.line conn line).1, t)).1.sent.flatten ≠
      (onTooLong conn).sent.flatten := by
  have hgaveUp : (onTooLong conn).sent.flatten = conn.sent.flatten ++ idTooLong := by
    rw [onTooLong, Peer.shutdown_sent, Peer.send_up hconn, List.flatten_append, List.flatten_singleton]
  rw [hgaveUp]
  by_cases hgood : Good line
  · rw [show spec.line conn line = _ from serveLine_good hgood conn]
    -- the id alone is longer than the message
    obtain ⟨more, hmore⟩ := sent_run (conn.send (answer line)) t
    have hid := hgood.length.2
    have hanswer := length_answer line
    have hmessage : idTooLong.length = 14 := by decide
    simp only [if_true, ← hmore, Peer.send_up hconn, List.flatten_append, List.flatten_singleton]
    intro heq
    have hlen := congrArg List.length heq
    simp only [List.length_append] at hlen
    omega
  · rw [show spec.line conn line = _ from serveLine_bad hgood conn]
    simp only [Bool.false_eq_true, if_false, Peer.shutdown_sent, Peer.send_up hconn, List.flatten_append,
      List.flatten_singleton]
    rw [Ne, List.append_cancel_left_eq]
    decide

/-- **Exactly when segmentation does not matter.** The server returns from every read; and all ways of cutting a stream
into reads lead to the same bytes if and only if there is no complete line of 100 bytes or more behind requests alone. -/
theorem server_cuts_agree_iff (stream : List UInt8) :
    (∀ chunks, chunks.flatten = stream → ∃ sent, replies chunks = some sent) ∧
      ((∀ c₁ c₂ : List (List UInt8), c₁.flatten = stream → c₂.flatten = stream → (∀ c ∈ c₁ ++ c₂, c ≠ []) →
        replies c₁ = replies c₂) ↔ ¬ LongLine stream) := by
  refine ⟨fun chunks _ => ⟨_, replies_spec chunks⟩, fun hsame hlong => ?_, fun hlong c₁ c₂ h₁ h₂ _ => ?_⟩
  · obtain ⟨p, r, conn, line, t, rfl, hr, hp, hrun, hconn, hline, hall⟩ :=
      spec_ends.cut (by decide) (s := .new) (by decide) ((exposed_iff .new stream).2 hlong)
    have hp' : p ≠ [] := by
      rintro rfl
      simp at hp
    have heq := hsame [p ++ r] [p, r] (by simp) (by simp) (by simp [hp', hr])
    rw [replies_spec, replies_spec, Option.some.injEq] at heq
    simp only [LineLoop.reads, List.foldl_cons, List.foldl_nil, List.nil_append] at heq
    obtain ⟨-, hobs⟩ := spec_ends.run (show (spec.run .new p).1.connected = false by rw [hrun]; rfl)
      ((spec.run .new p).2 ++ r)
    rw [hall, hobs, hrun] at heq
    exact gaveUp_ne (by simpa using hconn) hline t heq
  · have hcut : ∀ c : List (List UInt8), c.flatten = stream → replies c = some (spec.run .new stream).1.sent.flatten := by
      rintro c rfl
      have hobs : (spec.reads .new [] c).1.sent = (spec.run .new c.flatten).1.sent :=
        spec_ends.reads_obs (by decide) fun hexp => hlong ((exposed_iff _ _).1 hexp)
      rw [replies_spec, hobs]
    rw [hcut c₁ h₁, hcut c₂ h₂]

/-- A request with an id of 18 bytes: in one read it is answered, in two it is too long. -/
theorem server_cuts_long :
    replies [List.replicate 18 97 ++ [58] ++ List.replicate 81 120 ++ [13, 10]] =
      some (List.replicate 18 97 ++ [58] ++ kNoSolution ++ [13, 10]) ∧
    replies [List.replicate 18 97 ++ [58] ++ List.replicate 81 120 ++ [13], [10]] = some idTooLong := by
  decide +kernel

end SudokuServer
end ChatReactor
