import ChatReactor.BufferProofs
import ChatReactor.Codec

/-!
# The protobuf wire format round trip

`look` is one round of the loop of `onMessage` as a function of the readable bytes alone. It never
changes its verdict when more bytes arrive (`look_incremental`), `onMessage` drains it
(`onMessage_drain`), and it recognises what `fillEmptyBuffer` wrote (`Sendable.look_wire`); the
stream library does the rest.
-/

namespace ChatReactor
namespace Protobuf

open NetOrder Framing

variable {M : Type} {P : Protobuf M}

/-- The documented behaviour of the message library that the codec relies on: `ByteSize` is the size
of the serialisation, and parsing a serialisation into a new object of its type gives the message. -/
structure Lawful (P : Protobuf M) : Prop where
  byteSize_eq : ∀ m, P.byteSize m = (P.serializeWithCachedSizesToArray m).length
  parse_serialize : ∀ m m₀, P.createMessage (P.getTypeName m) = some m₀ →
    P.parseFromArray m₀ (P.serializeWithCachedSizesToArray m) = (true, m)

/-- The same of one message. -/
structure LawfulAt (P : Protobuf M) (m : M) : Prop where
  byteSize_eq : P.byteSize m = (P.serializeWithCachedSizesToArray m).length
  parse_serialize : ∀ m₀, P.createMessage (P.getTypeName m) = some m₀ →
    P.parseFromArray m₀ (P.serializeWithCachedSizesToArray m) = (true, m)

theorem Lawful.at (hP : P.Lawful) (m : M) : P.LawfulAt m := ⟨hP.byteSize_eq m, hP.parse_serialize m⟩

/-! ## Reads within the memory behind a pointer -/

variable {buf : List UInt8}

theorem bytesAt_append {off n : Nat} (h : off + n ≤ buf.length) (t : List UInt8) :
    bytesAt (buf ++ t) off n = bytesAt buf off n := by
  have h' : off + n ≤ (buf ++ t).length := by simp; omega
  rw [bytesAt, bytesAt, if_pos h, if_pos h', List.drop_append_of_le_length (by omega),
    List.take_append_of_le_length (by simp; omega)]

theorem bytesAt_mid (a b c : List UInt8) : bytesAt (a ++ (b ++ c)) a.length b.length = some b := by
  have h : a.length + b.length ≤ (a ++ (b ++ c)).length := by simp
  rw [bytesAt, if_pos h, List.drop_left, List.take_left]

theorem bytesAt_some {off n : Nat} (h : off + n ≤ buf.length) :
    bytesAt buf off n = some ((buf.drop off).take n) := by rw [bytesAt, if_pos h]

theorem asInt32_append {off : Nat} (h : off + 4 ≤ buf.length) (t : List UInt8) :
    asInt32 (buf ++ t) off = asInt32 buf off := by rw [asInt32, bytesAt_append h, asInt32]

theorem asInt32_mid (a c : List UInt8) {n : Nat} (hn : n < 4294967296) :
    asInt32 (a ++ (netBytes 4 n ++ c)) a.length = some (int32 n) := by
  have h := bytesAt_mid a (netBytes 4 n) c
  rw [length_netBytes] at h
  rw [asInt32, h, Option.map_some, netValue_netBytes, Nat.mod_eq_of_lt (by simpa using hn)]

/-- The part of `parse` after the checksum, for a given value of the name length field. -/
def parseNamed (P : Protobuf M) (buf : List UInt8) (len : Nat) (nameLen : Int) : Option (Option M × ErrorCode) :=
  if 2 ≤ nameLen ∧ nameLen ≤ (len : Int) - 2 * kHeaderLen then
    (bytesAt buf kHeaderLen (nameLen - 1).toNat).bind fun typeName =>
      match P.createMessage typeName with
      | some message =>
        (bytesAt buf (kHeaderLen + nameLen.toNat) ((len : Int) - nameLen - 2 * kHeaderLen).toNat).bind fun data =>
          match P.parseFromArray message data with
          | (true, message) => some (some message, .kNoError)
          | (false, message) => some (some message, .kParseError)
      | none => some (none, .kUnknownMessageType)
  else some (none, .kInvalidNameLen)

theorem parse_eq (buf : List UInt8) (len : Nat) : P.parse buf len =
    (asInt32 buf (len - kHeaderLen)).bind fun expected =>
      (bytesAt buf 0 (len - kHeaderLen)).bind fun checked =>
        if int32 (P.adler32 checked).toNat = expected then (asInt32 buf 0).bind (parseNamed P buf len)
        else some (none, .kCheckSumError) := rfl

theorem parseNamed_append {len : Nat} (hlen : len ≤ buf.length) (t : List UInt8) (nameLen : Int) :
    parseNamed P (buf ++ t) len nameLen = parseNamed P buf len nameLen := by
  unfold parseNamed
  split
  · rename_i hname
    simp only [kHeaderLen] at hname ⊢
    rw [bytesAt_append (by omega), bytesAt_append (by omega)]
  · rfl

/-- `parse` reads only the `len` bytes of the frame. -/
theorem parse_append {len : Nat} (hmin : kMinMessageLen ≤ len) (hlen : len ≤ buf.length) (t : List UInt8) :
    P.parse (buf ++ t) len = P.parse buf len := by
  simp only [kMinMessageLen, kHeaderLen] at hmin
  have hnamed : parseNamed P (buf ++ t) len = parseNamed P buf len := funext fun _ => parseNamed_append hlen t _
  rw [parse_eq, parse_eq, asInt32_append (by simp only [kHeaderLen]; omega),
    bytesAt_append (by simp only [kHeaderLen]; omega), asInt32_append (by omega), hnamed]

theorem parseNamed_total {len : Nat} (hlen : len ≤ buf.length) (nameLen : Int) :
    ∃ message e, parseNamed P buf len nameLen = some (message, e) ∧ (e = .kNoError → ∃ m, message = some m) := by
  unfold parseNamed
  split
  · rename_i hname
    simp only [kHeaderLen] at hname ⊢
    rw [bytesAt_some (by omega), Option.bind_some]
    split
    · rw [bytesAt_some (by omega), Option.bind_some]
      split
      · exact ⟨_, _, rfl, fun _ => ⟨_, rfl⟩⟩
      · exact ⟨_, _, rfl, by simp⟩
    · exact ⟨_, _, rfl, by simp⟩
  · exact ⟨_, _, rfl, by simp⟩

/-- No read of `parse` leaves a frame of at least `kMinMessageLen` bytes, and an object comes back
whenever it reports no error. -/
theorem parse_total {len : Nat} (hmin : kMinMessageLen ≤ len) (hlen : len ≤ buf.length) :
    ∃ message e, P.parse buf len = some (message, e) ∧ (e = .kNoError → ∃ m, message = some m) := by
  simp only [kMinMessageLen, kHeaderLen] at hmin
  rw [parse_eq, asInt32, asInt32, bytesAt_some (by simp only [kHeaderLen]; omega),
    bytesAt_some (by simp only [kHeaderLen]; omega), bytesAt_some (by omega)]
  simp only [Option.map_some, Option.bind_some]
  by_cases hsum : int32 (P.adler32 ((buf.drop 0).take (len - kHeaderLen))).toNat =
      int32 (netValue ((buf.drop (len - kHeaderLen)).take 4))
  · rw [if_pos hsum]
    exact parseNamed_total hlen _
  · rw [if_neg hsum]
    exact ⟨_, _, rfl, by simp⟩

/-! ## One round of the loop, on bytes -/

/-- What a round of `onMessage` does about the readable bytes `q`. -/
def look (P : Protobuf M) (q : List UInt8) : Verdict M ErrorCode :=
  if q.length < kMinMessageLen + kHeaderLen then .wait
  else
    let len := int32 (netValue (q.take 4))
    if len > kMaxMessageLen ∨ len < kMinMessageLen then .refuse .kInvalidLength
    else if q.length < (len + kHeaderLen).toNat then .wait
    else
      match P.parse (q.drop kHeaderLen) len.toNat with
      | some (some m, .kNoError) => .take m (kHeaderLen + len.toNat)
      | some (_, e) => .refuse e
      | none => .wait

/-- Once a round does not wait, the length field and the frame it announces are in the buffer, so
more bytes behind them change nothing. -/
theorem look_append {q : List UInt8} (h : look P q ≠ .wait) (t : List UInt8) : look P (q ++ t) = look P q := by
  unfold look at h ⊢
  by_cases hq : q.length < kMinMessageLen + kHeaderLen
  · simp [hq] at h
  · have hq' : ¬ (q ++ t).length < kMinMessageLen + kHeaderLen := by simp; omega
    have htake : (q ++ t).take 4 = q.take 4 :=
      List.take_append_of_le_length (by simp only [kMinMessageLen, kHeaderLen] at hq; omega)
    simp only [if_neg hq, if_neg hq', htake] at h ⊢
    split
    · rfl
    · rename_i hrange
      rw [if_neg hrange] at h
      by_cases hwait : q.length < (int32 (netValue (q.take 4)) + kHeaderLen).toNat
      · simp [hwait] at h
      · have hwait' : ¬ (q ++ t).length < (int32 (netValue (q.take 4)) + kHeaderLen).toNat := by simp; omega
        have hdrop : (q ++ t).drop kHeaderLen = q.drop kHeaderLen ++ t :=
          List.drop_append_of_le_length (by simp only [kMinMessageLen, kHeaderLen] at hq ⊢; omega)
        rw [if_neg hwait, if_neg hwait', hdrop, parse_append (by omega) (by simp; omega)]

theorem look_take {q : List UInt8} {m : M} {n : Nat} (h : look P q = .take m n) :
    ∃ len, ¬ q.length < kMinMessageLen + kHeaderLen ∧ int32 (netValue (q.take 4)) = len ∧
      ¬ (len > kMaxMessageLen ∨ len < kMinMessageLen) ∧ ¬ q.length < (len + kHeaderLen).toNat ∧
      P.parse (q.drop kHeaderLen) len.toNat = some (some m, .kNoError) ∧ n = kHeaderLen + len.toNat := by
  unfold look at h
  split at h
  · cases h
  · rename_i hq
    dsimp only at h
    split at h
    · cases h
    · rename_i hrange
      split at h
      · cases h
      · rename_i hwait
        split at h
        · rename_i hparse
          cases h
          exact ⟨_, hq, rfl, hrange, hwait, hparse, rfl⟩
        · cases h
        · cases h

theorem look_incremental (P : Protobuf M) : Incremental (look P) where
  take_pos := by
    intro q m n h
    obtain ⟨len, hq, _, hrange, hwait, _, rfl⟩ := look_take h
    simp only [kHeaderLen] at *
    omega
  take_append := by
    intro q m n t h
    rw [look_append (by simp [h]) t, h]
  refuse_append := by
    intro q e t h
    rw [look_append (by simp [h]) t, h]

/-! ## `onMessage` drains -/

section Loop
variable {b : Buffer} {pre q spare : List UInt8}

theorem peekInt32_eq (h : b.Layout pre q spare) (hq : 4 ≤ q.length) :
    b.peekInt32 = some (int32 (netValue (q.take 4))) := by
  have hr : 4 ≤ b.readableBytes := h.readableBytes_eq ▸ hq
  simp [Buffer.peekInt32, check_of hr, h.drop_peek, List.take_append_of_le_length hq]

/-- One round of the loop does what `look` says about the readable bytes. -/
theorem onMessageLoop_succ (h : b.Layout pre q spare) (fuel : Nat) : P.onMessageLoop (fuel + 1) b =
    match look P q with
    | .wait => some ⟨b, [], none⟩
    | .refuse e => some ⟨b, [], some e⟩
    | .take m n => (b.retrieve n).bind fun b' =>
        (P.onMessageLoop fuel b').map fun r => { r with messages := m :: r.messages } := by
  have hr := h.readableBytes_eq
  rw [onMessageLoop, look, hr]
  by_cases hq : q.length < kMinMessageLen + kHeaderLen
  · rw [if_pos hq, if_neg (by omega)]; rfl
  rw [if_neg hq, if_pos (by omega)]
  simp only [kMinMessageLen, kHeaderLen] at hq
  rw [peekInt32_eq h (by omega)]
  generalize int32 (netValue (q.take 4)) = len
  simp only [Option.bind_eq_bind, Option.bind_some]
  by_cases hrange : len > kMaxMessageLen ∨ len < kMinMessageLen
  · rw [if_pos hrange, if_pos hrange]; rfl
  rw [if_neg hrange, if_neg hrange]
  by_cases hwait : q.length < (len + kHeaderLen).toNat
  · rw [if_pos hwait, if_neg (by omega)]; rfl
  rw [if_neg hwait, if_pos (by omega)]
  have hmem : b.buffer.drop (b.peek + kHeaderLen) = q.drop kHeaderLen ++ spare := by
    rw [← List.drop_drop, h.drop_peek, List.drop_append_of_le_length (by simp only [kHeaderLen]; omega)]
  have hmin : kMinMessageLen ≤ len.toNat := by omega
  have hfit : len.toNat ≤ (q.drop kHeaderLen).length := by simp; omega
  obtain ⟨message, e, hparse, hok⟩ := parse_total (P := P) hmin hfit
  rw [hmem, parse_append hmin hfit, hparse, Option.bind_some]
  cases e with
  | kNoError =>
    obtain ⟨m, rfl⟩ := hok rfl
    simp only [Option.map_eq_bind]
    rfl
  | kInvalidLength => cases message <;> rfl
  | kCheckSumError => cases message <;> rfl
  | kInvalidNameLen => cases message <;> rfl
  | kUnknownMessageType => cases message <;> rfl
  | kParseError => cases message <;> rfl

/-- **`onMessage` drains the buffer**: it returns, delivers what `drain` delivers and leaves what
`drain` leaves. -/
theorem onMessage_drain (h : b.Layout pre q spare) :
    ∃ b' pre' spare', P.onMessage b = some ⟨b', (drain (look P) q).items, (drain (look P) q).error⟩ ∧
      b'.Layout pre' (drain (look P) q).rest spare' := by
  have hloop := loop_drain (look_incremental P) P.onMessageLoop Buffer.Holds Received.mk
    (fun m r => { r with messages := m :: r.messages }) (fun _ _ _ _ => rfl)
    (by rintro fuel b q ⟨_, _, hl⟩ hv; rw [onMessageLoop_succ hl, hv])
    (by rintro fuel b q e ⟨_, _, hl⟩ hv; rw [onMessageLoop_succ hl, hv])
    (by
      rintro fuel b q m n ⟨_, _, hl⟩ hv
      obtain ⟨b1, h1, l1⟩ := Buffer.retrieve_layout hl n ((look_incremental P).take_pos hv).2
      exact ⟨b1, ⟨_, _, l1⟩, by rw [onMessageLoop_succ hl, hv]; simp only [h1, Option.bind_some]⟩)
  obtain ⟨b', h', pre', spare', hl'⟩ := hloop (b.readableBytes + 1) ⟨_, _, h⟩ (by rw [h.readableBytes_eq]; omega)
  exact ⟨b', pre', spare', h', hl'⟩

end Loop

/-- `TcpConnection::handleRead` with data: `readFd`, then `onMessage`. -/
def handleRead (P : Protobuf M) (buf : Buffer) (chunk : List UInt8) : Option (Buffer × List M × List ErrorCode) :=
  (buf.readFd (some chunk)).bind fun x => (P.onMessage x.2).map fun r => (r.buf, r.messages, r.error.toList)

theorem receive_eq_reads : ∀ (buf : Buffer) (chunks : List (List UInt8)), P.receive buf chunks = reads (handleRead P) buf chunks
  | _, [] => rfl
  | buf, chunk :: chunks => by
    rw [receive, reads, handleRead]
    cases buf.readFd (some chunk) with
    | none => rfl
    | some x =>
      cases hm : P.onMessage x.2 with
      | none => simp [hm]
      | some r => simp [hm, receive_eq_reads r.buf chunks, Option.map_eq_bind]

theorem handleRead_drains (P : Protobuf M) : Drains (look P) (fun m => [m]) Buffer.Holds (handleRead P) := by
  rintro b q chunk ⟨_, _, h⟩
  obtain ⟨b1, _, _, h1, l1, -⟩ := Buffer.readFd_layout h chunk
  obtain ⟨b2, pre2, spare2, h2, l2⟩ := onMessage_drain (P := P) l1
  exact ⟨b2, by simp [handleRead, h1, h2], pre2, spare2, l2⟩

/-- However a stream is cut into reads, `onMessage` after each read delivers what `drain` delivers of it. -/
theorem receive_stream (P : Protobuf M) (chunks : List (List UInt8)) :
    ∃ b errs, P.receive Buffer.new chunks = some (b, (drain (look P) chunks.flatten).items, errs) ∧
      b.Holds (drain (look P) chunks.flatten).rest ∧ ((drain (look P) chunks.flatten).error = none → errs = []) := by
  rw [receive_eq_reads]
  simpa using reads_stream (look_incremental P) rfl (handleRead_drains P) Buffer.new_holds chunks

/-! ## The encoder -/

/-- Name length, name with NUL, payload: the bytes under the checksum. -/
def body (P : Protobuf M) (m : M) : List UInt8 :=
  netBytes 4 ((P.getTypeName m).length + 1) ++ (P.getTypeName m ++ [0]) ++ P.serializeWithCachedSizesToArray m

/-- The wire image of a message (`ProtobufTransportFormat`, `codec.h:21-28`). -/
def wire (P : Protobuf M) (m : M) : List UInt8 :=
  netBytes 4 (P.encodedLen m) ++ (body P m ++ netBytes 4 (P.adler32 (body P m)).toNat)

theorem LawfulAt.length_body {m : M} (h : P.LawfulAt m) : (body P m).length + kHeaderLen = P.encodedLen m := by
  simp [body, encodedLen, kHeaderLen, h.byteSize_eq]; omega

theorem LawfulAt.length_wire {m : M} (h : P.LawfulAt m) : (wire P m).length = kHeaderLen + P.encodedLen m := by
  have := h.length_body
  simp [wire, kHeaderLen] at this ⊢; omega

theorem length_wire (hP : P.Lawful) (m : M) : (wire P m).length = kHeaderLen + P.encodedLen m := (hP.at m).length_wire

/-- `fillEmptyBuffer` on a fresh buffer passes its asserts and leaves the wire image. -/
theorem LawfulAt.fillEmptyBuffer_wire {m : M} (h : P.LawfulAt m) (hmax : P.encodedLen m < 2147483648) :
    ∃ b, P.fillEmptyBuffer Buffer.new m = some b ∧ b.content = wire P m := by
  have hbytes := h.byteSize_eq
  have henc : P.encodedLen m = kHeaderLen + ((P.getTypeName m).length + 1) + P.byteSize m + kHeaderLen := rfl
  have hname : int32 ((P.getTypeName m).length + 1) = ((P.getTypeName m).length + 1 : Nat) :=
    int32_of_lt (by omega)
  have hnat : (int32 ((P.getTypeName m).length + 1) % 4294967296).toNat = (P.getTypeName m).length + 1 :=
    int32_toNat (by omega)
  have htake : (P.getTypeName m ++ [0]).take (int32 ((P.getTypeName m).length + 1)).toNat = P.getTypeName m ++ [0] := by
    rw [hname]; exact List.take_of_length_le (by simp)
  -- the four appends of the encoder, on the layout of the buffer
  obtain ⟨b1, pre1, _, h1, l1, hpre1⟩ := Buffer.append_layout Buffer.new_layout (netBytes 4 ((P.getTypeName m).length + 1))
  obtain ⟨b2, pre2, _, h2, l2, hpre2⟩ := Buffer.append_layout l1 (P.getTypeName m ++ [0])
  obtain ⟨b3, pre3, spare3, h3, l3, hfit, hpre3⟩ := Buffer.ensureWritableBytes_layout l2 (P.byteSize m)
  obtain ⟨b4, h4, l4⟩ := Buffer.fill_layout l3 (P.serializeWithCachedSizesToArray m) (hbytes ▸ hfit)
  have l5 := Buffer.hasWritten_layout l4
  rw [← hbytes] at l5
  have hcontent : (b4.hasWritten (P.byteSize m)).content = body P m := by rw [l5.content_eq]; simp [body]
  have hsum : (int32 (P.adler32 (body P m)).toNat % 4294967296).toNat = (P.adler32 (body P m)).toNat :=
    int32_toNat (P.adler32 (body P m)).toNat_lt
  obtain ⟨b6, pre6, _, h6, l6, hpre6⟩ := Buffer.append_layout l5 (netBytes 4 (P.adler32 (body P m)).toNat)
  have hreadable : b6.readableBytes = P.encodedLen m := by
    rw [l6.readableBytes_eq, henc, hbytes]; simp [kHeaderLen]; omega
  have hlenField : (int32 b6.readableBytes % 4294967296).toNat = P.encodedLen m := by
    rw [hreadable]; exact int32_toNat (by omega)
  have hroom : (netBytes 4 (P.encodedLen m)).length ≤ pre6.length := by
    rw [length_netBytes]
    rw [List.length_replicate] at hpre1
    simp only [kCheapPrepend] at *
    omega
  obtain ⟨b7, h7, l7⟩ := Buffer.prepend_layout l6 hroom
  refine ⟨b7, ?_, ?_⟩
  · have hempty : Buffer.new.readableBytes = 0 := by rw [Buffer.new_layout.readableBytes_eq]; rfl
    have hpos : (0 : Int) ≤ int32 ((P.getTypeName m).length + 1) := by rw [hname]; omega
    have htotal : (b6.readableBytes : Int) =
        kHeaderLen + int32 ((P.getTypeName m).length + 1) + P.byteSize m + kHeaderLen := by
      rw [hreadable, hname, henc]; push_cast; ring
    simp only [fillEmptyBuffer, Buffer.appendInt32, check_of hempty, hnat, h1, check_of hpos, htake, h2, h3, h4,
      check_of hbytes.symm, hcontent, hsum, h6, check_of htotal, hlenField, h7, Option.bind_eq_bind, Option.bind_some]
  · rw [l7.content_eq, wire, body]; simp

theorem fillEmptyBuffer_wire (hP : P.Lawful) (m : M) (hmax : P.encodedLen m < 2147483648) :
    ∃ b, P.fillEmptyBuffer Buffer.new m = some b ∧ b.content = wire P m := (hP.at m).fillEmptyBuffer_wire hmax

/-! ## The round trip -/

/-- What the decoder makes of a frame the encoder wrote, whatever follows it. -/
theorem LawfulAt.parse_wire {m m₀ : M} (h : P.LawfulAt m) (hreg : P.createMessage (P.getTypeName m) = some m₀)
    (hne : P.getTypeName m ≠ []) (hlen : P.encodedLen m ≤ kMaxMessageLen) (t : List UInt8) :
    P.parse (body P m ++ (netBytes 4 (P.adler32 (body P m)).toNat ++ t)) (P.encodedLen m) =
      some (some m, .kNoError) := by
  have hbody := h.length_body
  have hmax : P.encodedLen m < 2147483648 := Nat.lt_of_le_of_lt hlen (by decide)
  have henc : P.encodedLen m = kHeaderLen + ((P.getTypeName m).length + 1) + P.byteSize m + kHeaderLen := rfl
  have hpos : 0 < (P.getTypeName m).length := List.length_pos_iff.2 hne
  have hcut : P.encodedLen m - kHeaderLen = (body P m).length := by omega
  generalize hT : netBytes 4 (P.adler32 (body P m)).toNat ++ t = T
  have hsum : asInt32 (body P m ++ T) (body P m).length = some (int32 (P.adler32 (body P m)).toNat) := by
    rw [← hT]; exact asInt32_mid _ _ (P.adler32 (body P m)).toNat_lt
  have hchecked : bytesAt (body P m ++ T) 0 (body P m).length = some (body P m) := bytesAt_mid [] (body P m) T
  have hnameLen : asInt32 (body P m ++ T) 0 = some (((P.getTypeName m).length + 1 : Nat) : Int) := by
    rw [body, List.append_assoc, List.append_assoc, ← int32_of_lt (by omega)]
    exact asInt32_mid [] _ (by omega)
  have hname : bytesAt (body P m ++ T) kHeaderLen (P.getTypeName m).length = some (P.getTypeName m) := by
    have := bytesAt_mid (netBytes 4 ((P.getTypeName m).length + 1)) (P.getTypeName m)
      ([0] ++ P.serializeWithCachedSizesToArray m ++ T)
    simpa [body, kHeaderLen] using this
  have hdata : bytesAt (body P m ++ T) (kHeaderLen + ((P.getTypeName m).length + 1)) (P.byteSize m) =
      some (P.serializeWithCachedSizesToArray m) := by
    have := bytesAt_mid (netBytes 4 ((P.getTypeName m).length + 1) ++ (P.getTypeName m ++ [0]))
      (P.serializeWithCachedSizesToArray m) T
    rw [h.byteSize_eq]
    simpa [body, kHeaderLen] using this
  have hrange : (2 : Int) ≤ ((P.getTypeName m).length + 1 : Nat) ∧
      (((P.getTypeName m).length + 1 : Nat) : Int) ≤ (P.encodedLen m : Int) - 2 * kHeaderLen := by omega
  have hn1 : ((((P.getTypeName m).length + 1 : Nat) : Int) - 1).toNat = (P.getTypeName m).length := by omega
  have hn2 : ((((P.getTypeName m).length + 1 : Nat) : Int)).toNat = (P.getTypeName m).length + 1 := rfl
  have hn3 : ((P.encodedLen m : Int) - ((P.getTypeName m).length + 1 : Nat) - 2 * kHeaderLen).toNat = P.byteSize m := by
    omega
  rw [parse_eq, hcut, hsum, hchecked, hnameLen]
  simp only [Option.bind_some, if_true, parseNamed, if_pos hrange, hn1, hn2, hn3, hname, hreg, hdata,
    h.parse_serialize m₀ hreg]

/-- The length field that the decoder reads. -/
theorem lenField_wire {m : M} (hmax : P.encodedLen m < 2147483648) (t : List UInt8) :
    int32 (netValue ((wire P m ++ t).take 4)) = (P.encodedLen m : Int) := by
  have htake : (wire P m ++ t).take 4 = netBytes 4 (P.encodedLen m) := by
    rw [wire, List.append_assoc]
    exact List.take_left' (by simp)
  rw [htake, netValue_netBytes, Nat.mod_eq_of_lt (by omega), int32_of_lt hmax]

theorem LawfulAt.look_wire {m m₀ : M} (h : P.LawfulAt m) (hreg : P.createMessage (P.getTypeName m) = some m₀)
    (hne : P.getTypeName m ≠ []) (hlen : P.encodedLen m ≤ kMaxMessageLen) (t : List UInt8) :
    look P (wire P m ++ t) = .take m (wire P m).length := by
  have hwire := h.length_wire
  have hmin : kMinMessageLen ≤ P.encodedLen m := by
    have hpos : 0 < (P.getTypeName m).length := List.length_pos_iff.2 hne
    simp only [encodedLen, kMinMessageLen, kHeaderLen]; omega
  have hfield := lenField_wire (P := P) (Nat.lt_of_le_of_lt hlen (by decide)) t
  have hdrop : (wire P m ++ t).drop kHeaderLen = body P m ++ (netBytes 4 (P.adler32 (body P m)).toNat ++ t) := by
    rw [wire, List.append_assoc, List.drop_left' (by simp [kHeaderLen]), List.append_assoc]
  have hlong : ¬ (wire P m ++ t).length < kMinMessageLen + kHeaderLen := by
    rw [List.length_append, hwire]; omega
  have hrange : ¬ ((P.encodedLen m : Int) > kMaxMessageLen ∨ (P.encodedLen m : Int) < kMinMessageLen) := by omega
  have hfull : ¬ (wire P m ++ t).length < ((P.encodedLen m : Int) + kHeaderLen).toNat := by
    rw [List.length_append, hwire]; omega
  simp only [look, if_neg hlong, hfield, if_neg hrange, if_neg hfull, hdrop, Int.toNat_natCast,
    h.parse_wire hreg hne hlen t, hwire]

/-- A message that the codec can send: the library is lawful for it, its type has a name and is registered, and its length
field is at most `kMaxMessageLen`. -/
structure Sendable (P : Protobuf M) (m : M) : Prop where
  lawful : P.LawfulAt m
  named : P.getTypeName m ≠ []
  registered : (P.createMessage (P.getTypeName m)).isSome
  len_le : P.encodedLen m ≤ kMaxMessageLen

theorem Sendable.look_wire {m : M} (h : P.Sendable m) (t : List UInt8) :
    look P (wire P m ++ t) = .take m (wire P m).length := by
  obtain ⟨m₀, hm₀⟩ := Option.isSome_iff_exists.1 h.registered
  exact h.lawful.look_wire hm₀ h.named h.len_le t

/-- The encoder does not look at `kMaxMessageLen`; the decoder refuses what is longer. -/
theorem look_long (hP : P.Lawful) {m : M} (hlong : kMaxMessageLen < P.encodedLen m) (hmax : P.encodedLen m < 2147483648) :
    look P (wire P m) = .refuse .kInvalidLength := by
  have hfield := lenField_wire hmax []
  rw [List.append_nil] at hfield
  have hlen : ¬ (wire P m).length < kMinMessageLen + kHeaderLen := by
    rw [length_wire hP]
    simp only [kMinMessageLen, kMaxMessageLen, kHeaderLen] at *
    omega
  have hrange : (P.encodedLen m : Int) > kMaxMessageLen ∨ (P.encodedLen m : Int) < kMinMessageLen := .inl (by omega)
  simp only [look, if_neg hlen, hfield, if_pos hrange]

theorem mapM_wire : ∀ (ms : List M), (∀ m ∈ ms, P.Sendable m) →
    ∃ bufs, ms.mapM (P.fillEmptyBuffer Buffer.new) = some bufs ∧ bufs.map Buffer.content = ms.map (wire P)
  | [], _ => ⟨[], rfl, rfl⟩
  | m :: ms, h => by
    obtain ⟨bufs, h1, h2⟩ := mapM_wire ms fun m' hm' => h m' (by simp [hm'])
    have hm := h m (by simp)
    obtain ⟨b, hb, hc⟩ := hm.lawful.fillEmptyBuffer_wire (Nat.lt_of_le_of_lt hm.len_le (by decide))
    exact ⟨b :: bufs, by simp [List.mapM_cons, hb, h1], by simp [hc, h2]⟩

/-- Messages that can be sent, one after the other, however they are cut. -/
theorem sendable_round_trip (ms : List M) (h : ∀ m ∈ ms, P.Sendable m) :
    ∃ bufs, ms.mapM (P.fillEmptyBuffer Buffer.new) = some bufs ∧
      ∀ chunks : List (List UInt8), chunks.flatten = (bufs.map Buffer.content).flatten →
        ∃ b, P.receive Buffer.new chunks = some (b, ms, []) ∧ b.readableBytes = 0 := by
  obtain ⟨bufs, hbufs, hwires⟩ := mapM_wire ms h
  refine ⟨bufs, hbufs, fun chunks hcut => ?_⟩
  have hdrain : drain (look P) (ms.map (wire P)).flatten = ⟨ms, [], none⟩ :=
    drain_encoded (look_incremental P) rfl (wire P) ms fun m hm t => (h m hm).look_wire t
  obtain ⟨b, errs, hrec, hb, herr⟩ := receive_stream P chunks
  rw [hcut, hwires, hdrain] at hrec hb herr
  rw [herr rfl] at hrec
  exact ⟨b, hrec, hb.readableBytes_eq⟩

/-- **The framing round trip.** For any list of messages with non-empty registered type names whose
length fields are at most `kMaxMessageLen`: encoding succeeds, and however the concatenated encodings
are cut into reads, `onMessage` after each read delivers exactly that list, reports no error and
leaves the buffer empty. -/
theorem codec_round_trip (hP : P.Lawful) (ms : List M)
    (hms : ∀ m ∈ ms, P.getTypeName m ≠ [] ∧ (P.createMessage (P.getTypeName m)).isSome ∧
      P.encodedLen m ≤ kMaxMessageLen) :
    ∃ bufs, ms.mapM (P.fillEmptyBuffer Buffer.new) = some bufs ∧
      ∀ chunks : List (List UInt8), chunks.flatten = (bufs.map Buffer.content).flatten →
        ∃ b, P.receive Buffer.new chunks = some (b, ms, []) ∧ b.readableBytes = 0 := by
  refine sendable_round_trip ms fun m hm => ?_
  obtain ⟨hne, hreg, hlen⟩ := hms m hm
  exact ⟨hP.at m, hne, hreg, hlen⟩

/-! ### `im.Quit` messages -/

/-- The Adler-32 sum: two running sums modulo 65521. -/
def adler (bs : List UInt8) : UInt32 :=
  let r := bs.foldl (fun (s : Nat × Nat) b => ((s.1 + b.toNat) % 65521, (s.2 + (s.1 + b.toNat)) % 65521)) (1, 0)
  UInt32.ofNat (r.2 * 65536 + r.1)

/-- The library with the one message type `im.Quit { required int64 uid = 1; }` and uids of one
varint byte. -/
def quitOnly : Protobuf (Fin 128) where
  getTypeName _ := [105, 109, 46, 81, 117, 105, 116]
  byteSize _ := 2
  serializeWithCachedSizesToArray uid := [8, UInt8.ofNat uid]
  createMessage name := if name = [105, 109, 46, 81, 117, 105, 116] then some 0 else none
  parseFromArray m data :=
    match data with
    | [8, u] => if h : u.toNat < 128 then (true, ⟨u.toNat, h⟩) else (false, m)
    | _ => (false, m)
  adler32 := adler

theorem quitOnly_lawful : quitOnly.Lawful where
  byteSize_eq _ := rfl
  parse_serialize m m₀ _ := by
    have hm : m.val % 256 = m.val := Nat.mod_eq_of_lt (by omega)
    simp [quitOnly, hm]

theorem codec_round_trip_quit : ∃ bufs, [(5 : Fin 128), 7].mapM (quitOnly.fillEmptyBuffer Buffer.new) = some bufs ∧
    ∀ chunks : List (List UInt8), chunks.flatten = (bufs.map Buffer.content).flatten →
      ∃ b, quitOnly.receive Buffer.new chunks = some (b, [5, 7], []) ∧ b.readableBytes = 0 :=
  codec_round_trip quitOnly_lawful [5, 7] (by decide)

end Protobuf
end ChatReactor
