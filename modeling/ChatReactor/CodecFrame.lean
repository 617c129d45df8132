import ChatReactor.CodecProofs
import ChatReactor.Lib.CheckedInt

/-!
# The frame that `ProtobufCodec::parse` looks at

| here | there |
| --- | --- |
| `pointer`, `range` | `buf + off`, and the bytes between two such pointers; the memory is the `len` bytes of the frame, no more |
| `parseFrame` | `parse` (`codec.cc:164-213`), every pointer and every `int` operation checked |
| `reframe` | `fillEmptyBuffer` (`codec.cc:20-52`) of a message with a given name and a given serialisation, without the length field |

`verdict` is what `parse` decides, as a function of the three fields of the frame. `parse` reads the byte behind the
name only as the end of a range: it is not compared with the NUL that `fillEmptyBuffer` writes there.
-/

namespace ChatReactor
namespace Protobuf

open NetOrder CheckedInt

variable {M : Type} (P : Protobuf M)

/-! ## `parse`, with every access checked -/

/-- A pointer into the frame, or just behind it. -/
def pointer (frame : List UInt8) (off : Int) : Option Int :=
  if 0 ≤ off ∧ off ≤ frame.length then some off else none

/-- The bytes from `first` to `last`. -/
def range (frame : List UInt8) (first last : Int) : Option (List UInt8) :=
  if 0 ≤ first ∧ first ≤ last ∧ last ≤ frame.length then some ((frame.drop first.toNat).take (last - first).toNat)
  else none

/-- `asInt32`, which copies 4 bytes. -/
def int32At (frame : List UInt8) (p : Int) : Option Int :=
  (range frame p (p + 4)).map fun bs => int32 (netValue bs)

def parseFrame (frame : List UInt8) : Option (Option M × ErrorCode) := do
  let len ← int frame.length
  let behind ← pointer frame len
  let expectedCheckSum ← int32At frame (← pointer frame (behind - kHeaderLen))
  let checked ← range frame 0 (← sub len kHeaderLen)
  let checkSum := int32 (P.adler32 checked).toNat
  if checkSum = expectedCheckSum then
    let nameLen ← int32At frame 0
    let longest ← sub len (← mul 2 kHeaderLen)
    if 2 ≤ nameLen ∧ nameLen ≤ longest then
      let name ← pointer frame kHeaderLen
      let data ← pointer frame (name + nameLen)
      let typeName ← range frame name (← pointer frame (data - 1))
      match P.createMessage typeName with
      | some message =>
        let dataLen ← sub (← sub len nameLen) (← mul 2 kHeaderLen)
        let bytes ← range frame data (data + dataLen)
        match P.parseFromArray message bytes with
        | (true, message) => return (some message, .kNoError)
        | (false, message) => return (some message, .kParseError)
      | none => return (none, .kUnknownMessageType)
    else return (none, .kInvalidNameLen)
  else return (none, .kCheckSumError)

/-! ## The fields of a frame -/

/-- The name length field. -/
def nameLen (frame : List UInt8) : Int := int32 (netValue (frame.take 4))

/-- The bytes of the name, as `parse` takes them. -/
def typeName (frame : List UInt8) : List UInt8 := (frame.drop 4).take (nameLen frame - 1).toNat

/-- The bytes between the name and the checksum. -/
def payload (frame : List UInt8) : List UInt8 :=
  (frame.drop (4 + (nameLen frame).toNat)).take (frame.length - nameLen frame - 8).toNat

def SumMatches (frame : List UInt8) : Prop :=
  int32 (P.adler32 (frame.take (frame.length - 4))).toNat = int32 (netValue ((frame.drop (frame.length - 4)).take 4))

instance (frame : List UInt8) : Decidable (P.SumMatches frame) := by
  unfold SumMatches
  infer_instance

/-- What becomes of a name and a payload. -/
def outcome (name bytes : List UInt8) : Option M × ErrorCode :=
  match P.createMessage name with
  | some message =>
    match P.parseFromArray message bytes with
    | (true, message) => (some message, .kNoError)
    | (false, message) => (some message, .kParseError)
  | none => (none, .kUnknownMessageType)

/-- What `parse` decides. -/
def verdict (frame : List UInt8) : Option M × ErrorCode :=
  if P.SumMatches frame then
    if 2 ≤ nameLen frame ∧ nameLen frame ≤ frame.length - 8 then P.outcome (typeName frame) (payload frame)
    else (none, .kInvalidNameLen)
  else (none, .kCheckSumError)

/-- The checksum matches, the name length is in range, the type is registered and the payload parses. -/
structure Accepts (frame : List UInt8) : Prop where
  sum : P.SumMatches frame
  two_le : 2 ≤ nameLen frame
  le_len : nameLen frame ≤ frame.length - 8
  parses : ∃ message, P.createMessage (typeName frame) = some message ∧
    (P.parseFromArray message (payload frame)).1 = true

variable {P}

variable {name bytes : List UInt8}

theorem outcome_noError : (P.outcome name bytes).2 = .kNoError ↔
    ∃ message, P.createMessage name = some message ∧ (P.parseFromArray message bytes).1 = true := by
  unfold outcome
  cases P.createMessage name with
  | none => simp
  | some message =>
    cases hparse : P.parseFromArray message bytes with
    | mk ok message' => cases ok <;> simp [hparse]

variable {frame : List UInt8}

theorem verdict_noError : (P.verdict frame).2 = .kNoError ↔ P.Accepts frame := by
  unfold verdict
  constructor
  · intro h
    split_ifs at h with hsum hname
    exact ⟨hsum, hname.1, hname.2, outcome_noError.1 h⟩
  · rintro ⟨hsum, htwo, hlen, hparses⟩
    rw [if_pos hsum, if_pos ⟨htwo, hlen⟩]
    exact outcome_noError.2 hparses

section
variable {frame : List UInt8}

theorem pointer_eq {off : Int} (h : 0 ≤ off ∧ off ≤ frame.length) : pointer frame off = some off := if_pos h

theorem range_eq {first last : Int} (h : 0 ≤ first ∧ first ≤ last ∧ last ≤ frame.length) :
    range frame first last = some ((frame.drop first.toNat).take (last - first).toNat) := if_pos h

theorem int32At_eq {off : Nat} (h : off + 4 ≤ frame.length) :
    int32At frame off = some (int32 (netValue ((frame.drop off).take 4))) := by
  have hfour : ((off : Int) + 4 - off).toNat = 4 := by omega
  rw [int32At, range_eq (by omega), hfour]
  rfl

/-- The part of `parse` behind the check of the name length. -/
theorem parseFrame_named (hmax : (frame.length : Int) ≤ 67108864) (htwo : 2 ≤ nameLen frame)
    (hlen : nameLen frame ≤ frame.length - 8) :
    pointer frame 4 = some 4 ∧ pointer frame (4 + nameLen frame) = some (4 + nameLen frame) ∧
      pointer frame (4 + nameLen frame - 1) = some (4 + nameLen frame - 1) ∧
      range frame 4 (4 + nameLen frame - 1) = some (typeName frame) ∧
      sub frame.length (nameLen frame) = some (frame.length - nameLen frame) ∧
      sub (frame.length - nameLen frame) 8 = some (frame.length - nameLen frame - 8) ∧
      range frame (4 + nameLen frame) (4 + nameLen frame + (frame.length - nameLen frame - 8)) =
        some (payload frame) := by
  have hname : (4 + nameLen frame - 1 - 4).toNat = (nameLen frame - 1).toNat := by omega
  have hdata : (4 + nameLen frame).toNat = 4 + (nameLen frame).toNat := by omega
  have hdataLen : (4 + nameLen frame + (frame.length - nameLen frame - 8) - (4 + nameLen frame)).toNat =
      (frame.length - nameLen frame - 8).toNat := by omega
  refine ⟨pointer_eq (by omega), pointer_eq (by omega), pointer_eq (by omega), ?_, sub_eq (by omega), sub_eq (by omega), ?_⟩
  · rw [range_eq (by omega), hname, typeName]
    rfl
  · rw [range_eq (by omega), hdata, hdataLen, payload]

/-- In a frame of legal length every access of `parse` is to the frame, and no operation overflows. -/
theorem parseFrame_eq (hmin : kMinMessageLen ≤ frame.length) (hmax : frame.length ≤ kMaxMessageLen) :
    P.parseFrame frame = some (P.verdict frame) := by
  have hmin' : (10 : Int) ≤ frame.length := by simp only [kMinMessageLen, kHeaderLen] at hmin; omega
  have hmax' : (frame.length : Int) ≤ 67108864 := by simp only [kMaxMessageLen] at hmax; omega
  have hk : (kHeaderLen : Int) = 4 := rfl
  have hint : int frame.length = some (frame.length : Int) := int_eq (by omega)
  have hbehind : pointer frame frame.length = some (frame.length : Int) := pointer_eq (by omega)
  have hfield : pointer frame (frame.length - 4) = some ((frame.length : Int) - 4) := pointer_eq (by omega)
  have hsub : sub frame.length 4 = some ((frame.length : Int) - 4) := sub_eq (by omega)
  have hmul : mul 2 4 = some 8 := by decide
  have hlongest : sub frame.length 8 = some ((frame.length : Int) - 8) := sub_eq (by omega)
  have hoff : (frame.length : Int) - 4 = (frame.length - 4 : Nat) := by omega
  have hsum : int32At frame (frame.length - 4) = some (int32 (netValue ((frame.drop (frame.length - 4)).take 4))) :=
    hoff ▸ int32At_eq (by omega)
  have hchecked : range frame 0 (frame.length - 4) = some (frame.take (frame.length - 4)) := by
    rw [hoff, range_eq (by omega)]
    rfl
  have hname : int32At frame 0 = some (nameLen frame) := int32At_eq (Nat.le_trans (by decide) hmin)
  simp only [parseFrame, hk, hint, hbehind, hfield, hsub, hmul, hlongest, hsum, hchecked, hname, Option.bind_eq_bind,
    Option.bind_some]
  rw [verdict]
  by_cases hmatch : P.SumMatches frame
  · rw [if_pos hmatch]
    unfold SumMatches at hmatch
    rw [if_pos hmatch]
    split_ifs with hrange
    · obtain ⟨h1, h2, h3, h4, h5, h6, h7⟩ := parseFrame_named hmax' hrange.1 hrange.2
      simp only [h1, h2, h3, h4, h5, h6, h7, Option.bind_some, outcome]
      cases P.createMessage (typeName frame) with
      | none => rfl
      | some message =>
        cases hparse : P.parseFromArray message (payload frame) with
        | mk ok message' => cases ok <;> simp [hparse]
    · rfl
  · rw [if_neg hmatch]
    unfold SumMatches at hmatch
    rw [if_neg hmatch]
    rfl

theorem parseNamed_frame (htwo : 2 ≤ nameLen frame) (hlen : nameLen frame ≤ frame.length - 8) :
    parseNamed P frame frame.length (nameLen frame) = some (P.outcome (typeName frame) (payload frame)) := by
  have hname : bytesAt frame 4 (nameLen frame - 1).toNat = some (typeName frame) := bytesAt_some (by omega)
  have hdata : bytesAt frame (4 + (nameLen frame).toNat) (frame.length - nameLen frame - 8).toNat =
      some (payload frame) := bytesAt_some (by omega)
  have hk : (2 : Int) * (4 : Nat) = 8 := by decide
  simp only [parseNamed, kHeaderLen, hk, if_pos (And.intro htwo hlen), hname, hdata, Option.bind_some, outcome]
  cases P.createMessage (typeName frame) with
  | none => rfl
  | some message =>
    cases hparse : P.parseFromArray message (payload frame) with
    | mk ok message' => cases ok <;> simp [hparse]

/-- The decoder's own model, which is given all of the memory behind the pointer, agrees on a frame. -/
theorem parse_eq_verdict (hmin : kMinMessageLen ≤ frame.length) :
    P.parse frame frame.length = some (P.verdict frame) := by
  simp only [kMinMessageLen, kHeaderLen] at hmin
  have hsum : asInt32 frame (frame.length - 4) = some (int32 (netValue ((frame.drop (frame.length - 4)).take 4))) := by
    rw [asInt32, bytesAt_some (by omega)]
    rfl
  have hchecked : bytesAt frame 0 (frame.length - 4) = some (frame.take (frame.length - 4)) := bytesAt_some (by omega)
  have hname : asInt32 frame 0 = some (nameLen frame) := by
    rw [asInt32, bytesAt_some (by omega)]
    rfl
  rw [parse_eq, verdict]
  simp only [kHeaderLen, hsum, hchecked, hname, Option.bind_some]
  by_cases hmatch : P.SumMatches frame
  · rw [if_pos hmatch]
    unfold SumMatches at hmatch
    rw [if_pos hmatch]
    by_cases hrange : 2 ≤ nameLen frame ∧ nameLen frame ≤ frame.length - 8
    · rw [if_pos hrange, parseNamed_frame hrange.1 hrange.2]
    · rw [if_neg hrange]
      exact if_neg hrange
  · rw [if_neg hmatch]
    unfold SumMatches at hmatch
    rw [if_neg hmatch]

/-- **`parse` does not read outside of the frame**, for every codec and every frame of legal length: none of the accesses
is out of the frame, no `int` operation overflows, the length passed to `ParseFromArray` is not negative, and the error
code is `kNoError` exactly for the frames that are as they should be. -/
theorem parse_in_frame (P : Protobuf M) (frame : List UInt8) (hmin : kMinMessageLen ≤ frame.length)
    (hmax : frame.length ≤ kMaxMessageLen) :
    ∃ message error, P.parseFrame frame = some (message, error) ∧ P.parse frame frame.length = some (message, error) ∧
      (error = .kNoError ↔ P.Accepts frame) :=
  ⟨_, _, parseFrame_eq hmin hmax, parse_eq_verdict hmin, verdict_noError⟩

end

/-- A frame of an `im.Quit` message with a one-byte uid. -/
def quitFrame (z uid : UInt8) : List UInt8 :=
  let name : List UInt8 := [105, 109, 46, 81, 117, 105, 116]
  let bytes : List UInt8 := netBytes 4 (name.length + 1) ++ name ++ [z, 8, uid]
  bytes ++ netBytes 4 (adler bytes).toNat

/-- A frame as `fillEmptyBuffer` makes it. -/
theorem parse_in_frame_quit : ∃ message error, quitOnly.parseFrame (quitFrame 0 5) = some (message, error) ∧
    quitOnly.parse (quitFrame 0 5) (quitFrame 0 5).length = some (message, error) ∧
    (error = .kNoError ↔ quitOnly.Accepts (quitFrame 0 5)) :=
  parse_in_frame quitOnly (quitFrame 0 5) (by decide) (by decide)

/-! ## Framing again what was taken out of a frame -/

/-- A library whose messages are a name and a serialisation, with the checksum of `P`. -/
def raw (P : Protobuf M) : Protobuf (List UInt8 × List UInt8) where
  getTypeName m := m.1
  byteSize m := m.2.length
  serializeWithCachedSizesToArray m := m.2
  createMessage name := some (name, [])
  parseFromArray m data := (true, (m.1, data))
  adler32 := P.adler32

theorem raw_lawful (P : Protobuf M) : (raw P).Lawful where
  byteSize_eq _ := rfl
  parse_serialize := by
    rintro m m₀ h
    cases h
    rfl

/-- `fillEmptyBuffer` on an empty buffer, for a name and a payload; the length field is cut off. -/
def reframe (P : Protobuf M) (name bytes : List UInt8) : Option (List UInt8) :=
  ((raw P).fillEmptyBuffer Buffer.new (name, bytes)).map fun buf => buf.content.drop kHeaderLen

/-- Name length, name, the byte behind the name, payload: the bytes under the checksum. -/
def checked (name : List UInt8) (z : UInt8) (bytes : List UInt8) : List UInt8 :=
  netBytes 4 (name.length + 1) ++ (name ++ [z]) ++ bytes

/-- A frame with any byte behind the name, and the right checksum. -/
def frameWith (P : Protobuf M) (name : List UInt8) (z : UInt8) (bytes : List UInt8) : List UInt8 :=
  checked name z bytes ++ netBytes 4 (P.adler32 (checked name z bytes)).toNat

theorem length_checked (name : List UInt8) (z : UInt8) (bytes : List UInt8) :
    (checked name z bytes).length = name.length + bytes.length + 5 := by
  simp [checked]
  omega

theorem length_frameWith (P : Protobuf M) (name : List UInt8) (z : UInt8) (bytes : List UInt8) :
    (P.frameWith name z bytes).length = name.length + bytes.length + 9 := by
  simp [frameWith, length_checked]

/-- The encoder writes a NUL there. -/
theorem reframe_eq (hmax : (name.length + bytes.length + 9 : Nat) < 2147483648) :
    P.reframe name bytes = some (P.frameWith name 0 bytes) := by
  have henc : (raw P).encodedLen (name, bytes) = name.length + bytes.length + 9 := by
    simp only [encodedLen, raw, kHeaderLen]
    omega
  obtain ⟨buf, hfill, hcontent⟩ := fillEmptyBuffer_wire (raw_lawful P) (name, bytes) (by omega)
  have hdrop : (wire (raw P) (name, bytes)).drop kHeaderLen = P.frameWith name 0 bytes := by
    rw [wire, List.drop_left' (by simp [kHeaderLen])]
    rfl
  rw [reframe, hfill, Option.map_some, hcontent, hdrop]

theorem frameWith_inj {z z' : UInt8} (h : P.frameWith name z bytes = P.frameWith name z' bytes) : z = z' := by
  simp only [frameWith, checked, List.append_assoc] at h
  have hz := List.append_cancel_left (List.append_cancel_left h)
  exact (List.cons.inj hz).1

section
variable {frame : List UInt8}

/-- The byte behind the name. -/
def terminator (frame : List UInt8) : Option UInt8 := frame[3 + (nameLen frame).toNat]?

/-- A frame with a name length in range, cut at its fields. -/
theorem split_fields {n : Nat} (hname : nameLen frame = n) (htwo : 2 ≤ n) (hlen : n + 8 ≤ frame.length) :
    ∃ z, terminator frame = some z ∧ frame.take (frame.length - 4) = checked (typeName frame) z (payload frame) := by
  have hlt : 3 + n < frame.length := by omega
  have hn : n = n - 1 + 1 := by omega
  have hcut : typeName frame = (frame.drop 4).take (n - 1) := by
    have hcount : (nameLen frame - 1).toNat = n - 1 := by omega
    rw [typeName, hcount]
  have hdata : payload frame = (frame.drop (4 + n)).take (frame.length - 4 - (4 + n)) := by
    have hcount : (frame.length - nameLen frame - 8).toNat = frame.length - 4 - (4 + n) := by omega
    rw [payload, hcount, hname, Int.toNat_natCast]
  have hfield : netBytes 4 n = frame.take 4 := by
    have hbytes := netBytes_netValue (frame.take 4)
    have hlt4 := netValue_lt (frame.take 4)
    have hlength : (frame.take 4).length = 4 := by simp; omega
    rw [hlength] at hbytes hlt4
    have hvalue := eq_of_int32 hlt4 (by unfold nameLen at hname; omega)
    unfold nameLen at hname
    rw [← hbytes]
    congr 1
    omega
  refine ⟨frame[3 + n], ?_, ?_⟩
  · rw [terminator, hname, Int.toNat_natCast, List.getElem?_eq_getElem hlt]
  · have hlength : (typeName frame).length + 1 = n := by rw [hcut]; simp; omega
    have hbyte : (frame.drop 4).take (n - 1) ++ [frame[3 + n]] = (frame.drop 4).take n := by
      have hindex : 4 + (n - 1) = 3 + n := by omega
      have hget : (frame.drop 4)[n - 1]? = some frame[3 + n] := by
        rw [List.getElem?_drop, hindex, List.getElem?_eq_getElem hlt]
      conv_rhs => rw [hn, List.take_add_one, hget]
      rfl
    have htotal : frame.length - 4 = 4 + n + (frame.length - 4 - (4 + n)) := by omega
    rw [checked, hlength, hfield, hcut, hdata, hbyte]
    conv_lhs => rw [htotal, List.take_add, List.take_add]

theorem int32_inj {m n : Nat} (hm : m < 4294967296) (hn : n < 4294967296) (h : int32 m = int32 n) : m = n := by
  rw [← int32_toNat hm, h, int32_toNat hn]

/-- **An accepted frame is a frame of its name and its payload, with some byte behind the name.** -/
theorem Accepts.eq_frameWith (h : P.Accepts frame) :
    ∃ z, terminator frame = some z ∧ frame = P.frameWith (typeName frame) z (payload frame) := by
  obtain ⟨hsum, htwo, hlen, -⟩ := h
  obtain ⟨n, hn⟩ : ∃ n : Nat, nameLen frame = n := ⟨(nameLen frame).toNat, by omega⟩
  obtain ⟨z, hz, hchecked⟩ := split_fields hn (by omega) (by omega)
  refine ⟨z, hz, ?_⟩
  have hlast : (frame.drop (frame.length - 4)).take 4 = frame.drop (frame.length - 4) :=
    List.take_of_length_le (by simp; omega)
  have hlength : (frame.drop (frame.length - 4)).length = 4 := by simp; omega
  have hvalue := netValue_lt (frame.drop (frame.length - 4))
  have hbytes := netBytes_netValue (frame.drop (frame.length - 4))
  rw [hlength] at hvalue hbytes
  unfold SumMatches at hsum
  rw [hlast, hchecked] at hsum
  rw [frameWith, int32_inj (UInt32.toNat_lt _) hvalue hsum, hbytes, ← hchecked, List.take_append_drop]

end

/-- `parse` accepts the frame; `onMessage` has checked its length. -/
structure Accepted (P : Protobuf M) (frame : List UInt8) : Prop where
  min_le : kMinMessageLen ≤ frame.length
  le_max : frame.length ≤ kMaxMessageLen
  noError : ∃ message, P.parse frame frame.length = some (message, .kNoError)

theorem Accepted.accepts (h : P.Accepted frame) : P.Accepts frame := by
  obtain ⟨hmin, -, message, hparse⟩ := h
  rw [parse_eq_verdict hmin] at hparse
  exact verdict_noError.1 (congrArg Prod.snd (Option.some.inj hparse))

/-- Framing the name and the payload again gives the frame back exactly if a NUL is behind the name. -/
theorem Accepted.reframe_iff (h : P.Accepted frame) :
    P.reframe (typeName frame) (payload frame) = some frame ↔ terminator frame = some 0 := by
  obtain ⟨z, hz, hframe⟩ := h.accepts.eq_frameWith
  have hlength := P.length_frameWith (typeName frame) z (payload frame)
  have hmax : frame.length ≤ 67108864 := h.le_max
  rw [← hframe] at hlength
  rw [reframe_eq (by omega), hz, Option.some.injEq, Option.some.injEq]
  constructor
  · intro heq
    exact (frameWith_inj (heq.trans hframe)).symm
  · rintro rfl
    exact hframe.symm

/-- **Which frames are canonical.** Two accepted frames are what `fillEmptyBuffer` makes of their names and payloads,
and carry different ones if they are different, exactly if both have a NUL behind the name. -/
theorem frame_canonical_iff {f g : List UInt8} (hf : P.Accepted f) (hg : P.Accepted g) :
    (P.reframe (typeName f) (payload f) = some f ∧ P.reframe (typeName g) (payload g) = some g ∧
        (f ≠ g → (typeName f, payload f) ≠ (typeName g, payload g))) ↔
      terminator f = some 0 ∧ terminator g = some 0 := by
  rw [hf.reframe_iff, hg.reframe_iff]
  constructor
  · rintro ⟨h, h', -⟩
    exact ⟨h, h'⟩
  · rintro ⟨h, h'⟩
    refine ⟨h, h', fun hne heq => hne ?_⟩
    obtain ⟨hname, hbytes⟩ := Prod.mk.inj heq
    have hframe := hf.reframe_iff.2 h
    rw [hname, hbytes, hg.reframe_iff.2 h'] at hframe
    exact (Option.some.inj hframe).symm

/-- The frames of Quit(5) and Quit(7), as the encoder makes them. -/
theorem frame_canonical_iff_quit :
    quitOnly.reframe (typeName (quitFrame 0 5)) (payload (quitFrame 0 5)) = some (quitFrame 0 5) ∧
      quitOnly.reframe (typeName (quitFrame 0 7)) (payload (quitFrame 0 7)) = some (quitFrame 0 7) ∧
      (quitFrame 0 5 ≠ quitFrame 0 7 → (typeName (quitFrame 0 5), payload (quitFrame 0 5)) ≠
        (typeName (quitFrame 0 7), payload (quitFrame 0 7))) :=
  have h5 : quitOnly.Accepted (quitFrame 0 5) := ⟨by decide, by decide, some 5, by decide +kernel⟩
  have h7 : quitOnly.Accepted (quitFrame 0 7) := ⟨by decide, by decide, some 7, by decide +kernel⟩
  (frame_canonical_iff h5 h7).2 ⟨by decide +kernel, by decide +kernel⟩

/-- The frame of Quit(5) with a 1 in the place of the NUL and the checksum that goes with it: it is accepted, it carries
what the encoder's frame of Quit(5) carries, and framing that again does not give it back. -/
theorem frame_not_canonical : quitOnly.Accepted (quitFrame 0 5) ∧ quitOnly.Accepted (quitFrame 1 5) ∧
    quitFrame 0 5 ≠ quitFrame 1 5 ∧
    (typeName (quitFrame 0 5), payload (quitFrame 0 5)) = (typeName (quitFrame 1 5), payload (quitFrame 1 5)) ∧
    quitOnly.reframe (typeName (quitFrame 1 5)) (payload (quitFrame 1 5)) = some (quitFrame 0 5) :=
  ⟨⟨by decide, by decide, some 5, by decide +kernel⟩, ⟨by decide, by decide, some 5, by decide +kernel⟩, by decide +kernel,
    by decide +kernel, by decide +kernel⟩

end Protobuf
end ChatReactor
