import ChatReactor.BufferProofs
import ChatReactor.Lib.Framing

/-!
# `LengthHeaderCodec` (`excercises/chatServer/codec.h`)

| here | there |
| --- | --- |
| `send` | `LengthHeaderCodec::send` (`codec.h:52-62`) up to `conn->send(&buf)`: the buffer that is sent |
| `onMessageLoop` | the `while` loop of `LengthHeaderCodec::onMessage` (`codec.h:24-50`) |
| `Received` | the calls of `messageCallback_`, and the length that was logged before `conn->shutdown()` |
| `receive` | `TcpConnection::handleRead` over and over: `readFd`, then `onMessage` |

Strings are their bytes. The callback runs between the two calls of `retrieve` and leaves the buffer alone.
-/

namespace ChatReactor
namespace LengthHeaderCodec

open NetOrder Framing

def kHeaderLen : Nat := 4

/-- The largest length `onMessage` accepts. -/
def kMaxLen : Nat := 65536

def send (message : List UInt8) : Option Buffer := do
  let buf ← Buffer.new.append message
  let len := int32 message.length
  buf.prepend (netBytes 4 (len % 4294967296).toNat)

structure Received where
  buf : Buffer
  messages : List (List UInt8)
  invalid : Option Int

/-- Every round that goes on retrieves a header at least, so `readableBytes()` rounds are enough;
running out of fuel is `none`. -/
def onMessageLoop : Nat → Buffer → Option Received
  | 0, _ => none
  | fuel + 1, buf =>
    if kHeaderLen ≤ buf.readableBytes then do
      let be32 := (buf.buffer.drop buf.peek).take 4
      let len := int32 (netValue be32)
      if len > kMaxLen ∨ len < 0 then
        return ⟨buf, [], some len⟩
      else if (len + kHeaderLen).toNat ≤ buf.readableBytes then
        let buf ← buf.retrieve kHeaderLen
        let message := (buf.buffer.drop buf.peek).take len.toNat
        let buf ← buf.retrieve len.toNat
        let r ← onMessageLoop fuel buf
        return { r with messages := message :: r.messages }
      else
        return ⟨buf, [], none⟩
    else
      return ⟨buf, [], none⟩

def onMessage (buf : Buffer) : Option Received := onMessageLoop (buf.readableBytes + 1) buf

/-- `TcpConnection::handleRead` with data. -/
def handleRead (buf : Buffer) (chunk : List UInt8) : Option (Buffer × List (List UInt8) × List Int) := do
  let (_, buf) ← buf.readFd (some chunk)
  let r ← onMessage buf
  return (r.buf, r.messages, r.invalid.toList)

def receive : Buffer → List (List UInt8) → Option (Buffer × List (List UInt8) × List Int) := reads handleRead

/-! ## One round of the loop, on bytes -/

/-- The value of the header at the front. -/
def header (q : List UInt8) : Int := int32 (netValue (q.take kHeaderLen))

/-- What a round of `onMessage` does about the readable bytes `q`. -/
def look (q : List UInt8) : Verdict (List UInt8) Int :=
  if q.length < kHeaderLen then .wait
  else if header q > kMaxLen ∨ header q < 0 then .refuse (header q)
  else if q.length < (header q + kHeaderLen).toNat then .wait
  else .take ((q.drop kHeaderLen).take (header q).toNat) (kHeaderLen + (header q).toNat)

/-- The wire image of a string that `onMessage` accepts. -/
def Frame (message f : List UInt8) : Prop := message.length ≤ kMaxLen ∧ f = netBytes 4 message.length ++ message

theorem header_append {q : List UInt8} (h : kHeaderLen ≤ q.length) (t : List UInt8) : header (q ++ t) = header q := by
  rw [header, List.take_append_of_le_length h, header]

theorem header_netBytes {n : Nat} (h : n ≤ kMaxLen) (t : List UInt8) : header (netBytes 4 n ++ t) = n := by
  have hmax : n < 2147483648 := Nat.lt_of_le_of_lt h (by decide)
  have htake : (netBytes 4 n ++ t).take kHeaderLen = netBytes 4 n := List.take_left' (by simp [kHeaderLen])
  rw [header, htake, netValue_netBytes, Nat.mod_eq_of_lt (by omega), int32_of_lt hmax]

/-- A header that is not negative is the image of its value. -/
theorem take_header {q : List UInt8} (hq : kHeaderLen ≤ q.length) (h : 0 ≤ header q) :
    q.take kHeaderLen = netBytes 4 (header q).toNat := by
  have hlen : (q.take kHeaderLen).length = 4 := by simpa [kHeaderLen] using hq
  have hlt : netValue (q.take kHeaderLen) < 4294967296 := by
    have := netValue_lt (q.take kHeaderLen)
    rwa [hlen] at this
  have hvalue : (header q).toNat = netValue (q.take kHeaderLen) := by
    have := eq_of_int32 hlt h
    rw [header, this]
    omega
  rw [hvalue, ← hlen, netBytes_netValue]

theorem look_take {q message : List UInt8} {n : Nat} (h : look q = .take message n) :
    kHeaderLen ≤ q.length ∧ 0 ≤ header q ∧ header q ≤ kMaxLen ∧ kHeaderLen + (header q).toNat ≤ q.length ∧
      message = (q.drop kHeaderLen).take (header q).toNat ∧ n = kHeaderLen + (header q).toNat := by
  unfold look at h
  split at h
  · cases h
  · split at h
    · cases h
    · split at h
      · cases h
      · cases h
        exact ⟨by omega, by omega, by omega, by omega, rfl, rfl⟩

theorem take_of_frame {message f : List UInt8} (h : Frame message f) (t : List UInt8) :
    look (f ++ t) = .take message f.length := by
  obtain ⟨hmax, rfl⟩ := h
  have hfield := header_netBytes hmax (message ++ t)
  have hdrop : (netBytes 4 message.length ++ (message ++ t)).drop kHeaderLen = message ++ t :=
    List.drop_left' (by simp [kHeaderLen])
  have hlen : (netBytes 4 message.length ++ (message ++ t)).length = kHeaderLen + message.length + t.length := by
    simp [kHeaderLen]; omega
  rw [List.append_assoc, look, if_neg (by omega), hfield, if_neg (by omega), if_neg (by omega), hdrop,
    Int.toNat_natCast, List.take_left, List.length_append, length_netBytes]
  rfl

theorem look_grammar : Grammar look Frame where
  sound := by
    intro q message n h
    obtain ⟨hq, hpos, hmax, hfull, rfl, rfl⟩ := look_take h
    have hlen : ((q.drop kHeaderLen).take (header q).toNat).length = (header q).toNat := by simp; omega
    refine ⟨by omega, ?_⟩
    rw [hlen, ← take_header hq hpos, ← List.take_add]
  complete t h := take_of_frame h t

theorem look_incremental : Incremental look := by
  refine look_grammar.incremental ?_ ?_
  · intro q message n h
    obtain ⟨hq, _, _, hfull, _, rfl⟩ := look_take h
    exact ⟨Nat.lt_of_lt_of_le (by decide) (Nat.le_add_right _ _), hfull⟩
  · intro q e t h
    unfold look at h ⊢
    split at h
    · cases h
    · split at h
      · rename_i hq hrange
        rw [header_append (by omega), if_neg (by rw [List.length_append]; omega), if_pos hrange, h]
      · split at h <;> cases h

/-! ## `onMessage` drains -/

theorem onMessageLoop_succ {b : Buffer} {pre q spare : List UInt8} (h : b.Layout pre q spare) (fuel : Nat) :
    onMessageLoop (fuel + 1) b =
      match look q with
      | .wait => some ⟨b, [], none⟩
      | .refuse e => some ⟨b, [], some e⟩
      | .take message n => (b.retrieve kHeaderLen).bind fun b' => (b'.retrieve (n - kHeaderLen)).bind fun b'' =>
          (onMessageLoop fuel b'').map fun r => { r with messages := message :: r.messages } := by
  have hr := h.readableBytes_eq
  rw [onMessageLoop, look, hr]
  by_cases hq : q.length < kHeaderLen
  · rw [if_pos hq, if_neg (by omega)]; rfl
  rw [if_neg hq, if_pos (by omega)]
  have hfield : int32 (netValue ((b.buffer.drop b.peek).take 4)) = header q := by
    rw [h.drop_peek, header, ← List.take_append_of_le_length (Nat.not_lt.1 hq)]
    rfl
  simp only [hfield, Option.bind_eq_bind]
  by_cases hrange : header q > kMaxLen ∨ header q < 0
  · rw [if_pos hrange, if_pos hrange]; rfl
  rw [if_neg hrange, if_neg hrange]
  by_cases hwait : q.length < (header q + kHeaderLen).toNat
  · rw [if_pos hwait, if_neg (by omega)]; rfl
  rw [if_neg hwait, if_pos (by omega)]
  obtain ⟨b1, h1, l1⟩ := Buffer.retrieve_layout h kHeaderLen (by omega)
  have hmessage : (b1.buffer.drop b1.peek).take (header q).toNat = (q.drop kHeaderLen).take (header q).toNat := by
    rw [l1.drop_peek, List.take_append_of_le_length (by rw [List.length_drop]; omega)]
  simp only [h1, Option.bind_some, hmessage, Nat.add_sub_cancel_left, Option.map_eq_bind]
  rfl

theorem onMessage_drain {b : Buffer} {q : List UInt8} (h : b.Holds q) :
    ∃ b', onMessage b = some ⟨b', (drain look q).items, (drain look q).error⟩ ∧ b'.Holds (drain look q).rest := by
  refine loop_drain look_incremental onMessageLoop Buffer.Holds Received.mk
    (fun message r => { r with messages := message :: r.messages }) (fun _ _ _ _ => rfl) ?_ ?_ ?_ _ h
    (by rw [h.readableBytes_eq]; omega)
  · rintro fuel b q ⟨_, _, hl⟩ hv
    rw [onMessageLoop_succ hl, hv]
  · rintro fuel b q e ⟨_, _, hl⟩ hv
    rw [onMessageLoop_succ hl, hv]
  · rintro fuel b q message n ⟨_, _, hl⟩ hv
    obtain ⟨hq, _, _, hfull, _, rfl⟩ := look_take hv
    obtain ⟨b1, h1, l1⟩ := Buffer.retrieve_layout hl kHeaderLen hq
    obtain ⟨b2, h2, l2⟩ := Buffer.retrieve_layout l1 (header q).toNat (by rw [List.length_drop]; omega)
    rw [List.drop_drop] at l2
    refine ⟨b2, ⟨_, _, l2⟩, ?_⟩
    rw [onMessageLoop_succ hl, hv]
    simp only [h1, Option.bind_some, Nat.add_sub_cancel_left, h2]

theorem handleRead_drains : Drains look (fun m => [m]) Buffer.Holds handleRead := by
  intro b q chunk h
  obtain ⟨b1, h1, hb1⟩ := Buffer.readFd_holds h chunk
  obtain ⟨b2, h2, hb2⟩ := onMessage_drain hb1
  exact ⟨b2, by simp [handleRead, h1, h2], hb2⟩

theorem receive_stream (chunks : List (List UInt8)) :
    ∃ b errs, receive Buffer.new chunks = some (b, (drain look chunks.flatten).items, errs) ∧
      b.Holds (drain look chunks.flatten).rest ∧ ((drain look chunks.flatten).error = none → errs = []) := by
  simpa [receive] using reads_stream look_incremental rfl handleRead_drains Buffer.new_holds chunks

/-! ## The round trip and arbitrary streams -/

theorem send_eq {message : List UInt8} (h : message.length ≤ kMaxLen) :
    ∃ b, send message = some b ∧ b.content = netBytes 4 message.length ++ message := by
  obtain ⟨b1, pre1, _, h1, l1, hpre⟩ := Buffer.append_layout Buffer.new_layout message
  have hfield : (int32 message.length % 4294967296).toNat = message.length :=
    int32_toNat (Nat.lt_of_le_of_lt h (by decide))
  have hroom : (netBytes 4 message.length).length ≤ pre1.length := by
    rw [List.length_replicate, Nat.min_self] at hpre
    rw [length_netBytes]
    exact Nat.le_trans (by decide) hpre
  obtain ⟨b2, h2, l2⟩ := Buffer.prepend_layout l1 hroom
  refine ⟨b2, by simp [send, h1, hfield, h2], ?_⟩
  rw [l2.content_eq, List.nil_append]

theorem mapM_send : ∀ (ms : List (List UInt8)), (∀ m ∈ ms, m.length ≤ kMaxLen) →
    ∃ bufs, ms.mapM send = some bufs ∧ bufs.map Buffer.content = ms.map fun m => netBytes 4 m.length ++ m
  | [], _ => ⟨[], rfl, rfl⟩
  | m :: ms, h => by
    obtain ⟨bufs, h1, h2⟩ := mapM_send ms fun m' hm' => h m' (by simp [hm'])
    obtain ⟨b, hb, hc⟩ := send_eq (h m (by simp))
    exact ⟨b :: bufs, by simp [List.mapM_cons, hb, h1], by simp [hc, h2]⟩

/-- **The length-header codec.** Strings of at most `kMaxLen` bytes come back as they were sent, however
their encodings are cut into reads. Of any stream, the strings of its longest front part made of
encodings are delivered, whatever the cuts. Behind the first header that is out of range nothing is
delivered. -/
theorem length_codec_streams :
    (∀ ms : List (List UInt8), (∀ m ∈ ms, m.length ≤ kMaxLen) →
      ∃ bufs, ms.mapM send = some bufs ∧ ∀ chunks : List (List UInt8),
        chunks.flatten = (bufs.map Buffer.content).flatten →
          ∃ b, receive Buffer.new chunks = some (b, ms, []) ∧ b.readableBytes = 0) ∧
    (∀ stream : List UInt8, ∃ ms rest, Longest Frame stream ms rest ∧ ∀ chunks : List (List UInt8),
      chunks.flatten = stream → ∃ b errs, receive Buffer.new chunks = some (b, ms, errs) ∧ b.content = rest) ∧
    (∀ (ms : List (List UInt8)) (pre bad t : List UInt8), Packed Frame ms pre → bad.length = kHeaderLen →
      (header bad > kMaxLen ∨ header bad < 0) → ∀ chunks : List (List UInt8), chunks.flatten = pre ++ bad ++ t →
        ∃ b errs, receive Buffer.new chunks = some (b, ms, errs) ∧ b.content = bad ++ t) := by
  refine ⟨fun ms hms => ?_, fun stream => ?_, fun ms pre bad t hpre hlen hbad chunks hcut => ?_⟩
  · obtain ⟨bufs, hbufs, hwires⟩ := mapM_send ms hms
    refine ⟨bufs, hbufs, fun chunks hcut => ?_⟩
    have hdrain := drain_encoded look_incremental rfl (fun m => netBytes 4 m.length ++ m) ms
      fun m hm t => take_of_frame ⟨hms m hm, rfl⟩ t
    obtain ⟨b, errs, hrec, hb, herr⟩ := receive_stream chunks
    rw [hcut, hwires, hdrain] at hrec hb herr
    rw [herr rfl] at hrec
    exact ⟨b, hrec, hb.readableBytes_eq⟩
  · refine ⟨_, _, drain_longest look_incremental look_grammar stream, ?_⟩
    rintro chunks rfl
    obtain ⟨b, errs, hrec, hb, -⟩ := receive_stream chunks
    exact ⟨b, errs, hrec, hb.content_eq⟩
  · have hrefuse : look (bad ++ t) = .refuse (header bad) := by
      rw [look, header_append (by omega), if_neg (by rw [List.length_append]; omega), if_pos hbad]
    have hdrain := drain_packed look_incremental look_grammar.complete hpre (bad ++ t)
    rw [drain_step look_incremental (bad ++ t), hrefuse, ← List.append_assoc, ← hcut] at hdrain
    obtain ⟨b, errs, hrec, hb, -⟩ := receive_stream chunks
    rw [hdrain] at hrec hb
    exact ⟨b, errs, by simpa using hrec, hb.content_eq⟩

end LengthHeaderCodec
end ChatReactor
