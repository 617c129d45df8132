import ChatReactor.CodecFrame
import ChatReactor.CodecStream
import ChatReactor.ImMessageProofs

/-!
# The chat messages through the codec

| here | there |
| --- | --- |
| `Generated` | the classes of `msg.pb.h` are among those of the `google::protobuf::Message` that `ProtobufCodec` sees |
| `im` | the reference: no other classes, `Runtime.reference` for libprotobuf, Adler-32 for zlib |
| `Delivered` | a message that `onMessage` gave to its callback, after any reads whatever |

`codec_round_trip` is about any library for which parsing undoes serialising. Here that is no longer assumed of the chat
messages: their generated classes have it, over any lawful libprotobuf (`Generated.lawfulAt`). So what `onPMessage` and
`onGMessage` send on (`server_threaded.cc:204-250`), and what `onLogin` reads back from the list of messages
(`server_threaded.cc:168-178`), is the message that was sent.
-/

namespace ChatReactor

open Protobuf

section
variable {M Unknown : Type} {P : Protobuf M} {R : Runtime Unknown} {of : ImMessage Unknown → M}

/-- `of` takes an object of a class of `msg.pb.h` to the `Message` that it is: `GetTypeName` is what `msg.proto` says, the
virtual functions are the generated ones, and the pool has the class under its name. There may be other classes. -/
structure Generated (P : Protobuf M) (R : Runtime Unknown) (of : ImMessage Unknown → M) : Prop where
  injective : of.Injective
  getTypeName_of : ∀ m, P.getTypeName (of m) = m.type.fullName
  byteSize_of : ∀ m, P.byteSize (of m) = m.object.byteSize R
  serialize_of : ∀ m, P.serializeWithCachedSizesToArray (of m) = m.object.serialize R
  createMessage_fullName : ∀ t : MessageType, P.createMessage t.fullName = some (of t.create)
  parse_create : ∀ (t : MessageType) data m, P.parseFromArray (of t.create) data = (true, m) ↔
    ∃ object, GeneratedMessage.parseFromArray R data = some object ∧ m = of ⟨t, object⟩
  /-- Parsing keeps the class. -/
  typeName_parse : ∀ {name data m₀ m}, P.createMessage name = some m₀ → P.parseFromArray m₀ data = (true, m) →
    P.getTypeName m = name

theorem fullName_ne_nil (t : MessageType) : t.fullName ≠ [] := by cases t <;> decide

theorem Generated.lawfulAt (hP : Generated P R of) (hR : R.Lawful) {m : ImMessage Unknown} (hwf : m.object.WellFormed R)
    (hinit : m.object.isInitialized = true) (hlimit : m.object.byteSize R ≤ R.totalBytesLimit) : P.LawfulAt (of m) := by
  have htable := GeneratedMessage.fields_table m.type
  have hsize := GeneratedMessage.byteSize_eq hR htable hwf
  rw [hsize] at hlimit
  refine ⟨by rw [hP.byteSize_of, hP.serialize_of, hsize], fun m₀ hm₀ => ?_⟩
  rw [hP.getTypeName_of, hP.createMessage_fullName] at hm₀
  cases hm₀
  rw [hP.serialize_of]
  exact (hP.parse_create _ _ _).2 ⟨_, GeneratedMessage.parse_serialize hR htable hwf hinit hlimit, rfl⟩

/-! ## What the codec has handed out -/

/-- A codec hands out `m` at some time, whatever was sent to it. -/
def Delivered (P : Protobuf M) (m : M) : Prop :=
  ∃ chunks b ms errs, P.receive Buffer.new chunks = some (b, ms, errs) ∧ m ∈ ms

theorem mem_packed {α μ : Type} {frame : μ → List α → Prop} {ms : List μ} {p : List α} (h : Framing.Packed frame ms p) {m : μ}
    (hm : m ∈ ms) : ∃ f, frame m f := by
  induction h with
  | nil => cases hm
  | cons hf _ ih =>
    rcases List.mem_cons.1 hm with rfl | hm
    · exact ⟨_, hf⟩
    · exact ih hm

theorem Delivered.frame {m : M} (h : Delivered P m) : ∃ f, Frame P m f := by
  obtain ⟨chunks, b, ms, errs, hrec, hm⟩ := h
  obtain ⟨b', errs', hrec', -⟩ := receive_stream P chunks
  cases hrec.symm.trans hrec'
  obtain ⟨pre, -, hpacked⟩ := Framing.drain_front (look_incremental _) (look_grammar P) chunks.flatten
  exact mem_packed hpacked hm

/-- The name and the payload in an accepted frame. -/
theorem frame_parts {m : M} {f : List UInt8} (h : Frame P m f) :
    ∃ name data m₀, P.createMessage name = some m₀ ∧ P.parseFromArray m₀ data = (true, m) ∧
      kHeaderLen + (name.length + 1) + data.length + kHeaderLen = f.length - kHeaderLen := by
  have hmin := h.min_le
  have hlen : (f.drop kHeaderLen).length = f.length - kHeaderLen := List.length_drop
  have hverdict := h.accepted
  rw [← hlen, parse_eq_verdict (by omega)] at hverdict
  have haccepts := verdict_noError.1 (congrArg Prod.snd (Option.some.inj hverdict))
  obtain ⟨hsum, htwo, hle, -⟩ := haccepts
  rw [verdict, if_pos hsum, if_pos ⟨htwo, hle⟩] at hverdict
  have hk : (kHeaderLen : Int) = 4 := rfl
  have hnameLen : (typeName (f.drop kHeaderLen)).length + 1 = (nameLen (f.drop kHeaderLen)).toNat := by
    simp only [typeName, List.length_take, List.length_drop] at *
    omega
  have hdata : ((payload (f.drop kHeaderLen)).length : Int) = f.length - kHeaderLen - nameLen (f.drop kHeaderLen) - 8 := by
    simp only [payload, List.length_take, List.length_drop] at *
    omega
  have hout := Option.some.inj hverdict
  rw [outcome] at hout
  split at hout
  case h_1 m₀ hm₀ =>
    split at hout
    case h_1 m' hparse =>
      cases hout
      exact ⟨_, _, m₀, hm₀, hparse, by omega⟩
    case h_2 => cases hout
  case h_2 => cases hout

theorem fields_int64 {t : MessageType} (ht : t ≠ .Empty) : ∀ f ∈ t.fields, f.type ≠ .int32 := by
  cases t with
  | Empty => exact absurd rfl ht
  | _ => decide

/-- What a codec has handed out can be sent: it takes no more room than it had. -/
theorem Generated.sendable (hP : Generated P R of) (hR : R.Lawful) {m : ImMessage Unknown} (h : Delivered P (of m))
    (hne : m.type ≠ .Empty) : P.Sendable (of m) := by
  obtain ⟨f, hf⟩ := h.frame
  obtain ⟨name, data, m₀, hm₀, hparse, hlen⟩ := frame_parts hf
  obtain rfl : m.type.fullName = name := by rw [← hP.typeName_parse hm₀ hparse, hP.getTypeName_of]
  cases (hP.createMessage_fullName m.type).symm.trans hm₀
  obtain ⟨object, hobject, hm⟩ := (hP.parse_create _ _ _).1 hparse
  obtain ⟨t, object'⟩ := m
  cases hP.injective hm
  have htable := GeneratedMessage.fields_table t
  have hmax := hf.le_max
  have hmaxLen : kMaxMessageLen = 64 * 1024 * 1024 := rfl
  have hlimit : data.length ≤ R.totalBytesLimit := by
    have hle := hR.limit_le
    omega
  obtain ⟨hwf, hinit⟩ := GeneratedMessage.parse_wellFormed hR htable hlimit hobject
  have hsize := GeneratedMessage.byteSize_le hR htable (fields_int64 hne) hlimit hobject
  refine ⟨hP.lawfulAt hR hwf hinit (hsize.trans hlimit), ?_, ?_, ?_⟩
  · rw [hP.getTypeName_of]
    exact fullName_ne_nil _
  · rw [hP.getTypeName_of, hP.createMessage_fullName]
    rfl
  · rw [encodedLen, hP.getTypeName_of, hP.byteSize_of]
    simp only at hlen ⊢
    omega

/-- **The server passes on what it gets.** Take any messages that codecs have handed out of whatever bytes were sent to them,
in any order and as often as you like. Encoding them (`codec_.send(peercon, *message)`) succeeds, and however the encodings
are cut, the codec of the peer hands out just these messages. A message that is written to a byte string and parsed
again, as in the list of messages for a user, is the same. `Empty` has an `int32`, which can get longer. -/
theorem delivered_messages_relayed (hP : Generated P R of) (hR : R.Lawful) (relayed : List (ImMessage Unknown))
    (h : ∀ m ∈ relayed, Delivered P (of m) ∧ m.type ≠ .Empty) :
    ∃ bufs, (relayed.map of).mapM (P.fillEmptyBuffer Buffer.new) = some bufs ∧
      (∀ chunks : List (List UInt8), chunks.flatten = (bufs.map Buffer.content).flatten →
        ∃ b, P.receive Buffer.new chunks = some (b, relayed.map of, []) ∧ b.readableBytes = 0) ∧
      ∀ m ∈ relayed, P.parseFromArray (of m.type.create) (P.serializeWithCachedSizesToArray (of m)) = (true, of m) := by
  have hsend : ∀ m ∈ relayed, P.Sendable (of m) := fun m hm => hP.sendable hR (h m hm).1 (h m hm).2
  obtain ⟨bufs, hbufs, hreceive⟩ := sendable_round_trip (relayed.map of) (List.forall_mem_map.2 hsend)
  refine ⟨bufs, hbufs, hreceive, fun m hm => (hsend m hm).lawful.parse_serialize _ ?_⟩
  rw [hP.getTypeName_of, hP.createMessage_fullName]

end

/-! ## The reference -/

/-- The classes of `msg.pb.h` over the reference library, and zlib. -/
def im : Protobuf (ImMessage (Nat × WireFormat.Value)) where
  getTypeName m := m.type.fullName
  byteSize m := m.object.byteSize .reference
  serializeWithCachedSizesToArray m := m.object.serialize .reference
  createMessage name := (MessageType.all.find? fun t => t.fullName = name).map MessageType.create
  parseFromArray m data := match GeneratedMessage.parseFromArray .reference data with
    | some object => (true, ⟨m.type, object⟩)
    | none => (false, m)
  adler32 := adler

theorem im_parse_some {m₀ m : ImMessage (Nat × WireFormat.Value)} {data : List UInt8} :
    im.parseFromArray m₀ data = (true, m) ↔
      ∃ object, GeneratedMessage.parseFromArray .reference data = some object ∧ m = ⟨m₀.type, object⟩ := by
  simp only [im]
  cases (GeneratedMessage.parseFromArray .reference data : Option (GeneratedMessage _ m₀.type.fields)) with
  | none => simp
  | some object => simp [eq_comm]

theorem im_generated : Generated im .reference id where
  injective := Function.injective_id
  getTypeName_of _ := rfl
  byteSize_of _ := rfl
  serialize_of _ := rfl
  createMessage_fullName t := by cases t <;> rfl
  parse_create _ _ _ := im_parse_some
  typeName_parse := by
    intro name data m₀ m hcreate hparse
    obtain ⟨t, ht, rfl⟩ := Option.map_eq_some_iff.1 hcreate
    obtain ⟨object, -, rfl⟩ := im_parse_some.1 hparse
    have hname : t.fullName = name := by simpa using List.find?_some ht
    exact hname

/-- A private message from user 7 to user 8. -/
def greeting : ImMessage (Nat × WireFormat.Value) where
  type := .PMessage
  object := (((GeneratedMessage.new MessageType.PMessage.fields).set (0 : Fin 3) (7 : Int64)).set (1 : Fin 3) (8 : Int64)).set
    (2 : Fin 3) (bytesOf "hi")

theorem greeting_sendable : im.Sendable greeting where
  lawful := by
    refine im_generated.lawfulAt Runtime.reference_lawful ?_ rfl (by decide)
    refine GeneratedMessage.WellFormed.set (.set (.set GeneratedMessage.new_wellFormed ?_) ?_) ?_
    · trivial
    · trivial
    · change (bytesOf "hi").length < 2 ^ 31
      decide
  named := fullName_ne_nil .PMessage
  registered := rfl
  len_le := show 4 + (11 + 1) + greeting.object.byteSize .reference + 4 ≤ _ by decide

theorem greeting_delivered : Delivered im greeting := by
  obtain ⟨bufs, -, hreceive⟩ := sendable_round_trip (P := im) [greeting] (by simp [greeting_sendable])
  obtain ⟨b, hb, -⟩ := hreceive [(bufs.map Buffer.content).flatten] (by simp)
  exact ⟨_, b, [greeting], [], hb, List.mem_singleton_self _⟩

/-- Twice the same message. -/
theorem greetings_relayed : ∃ bufs, ([greeting, greeting].map id).mapM (im.fillEmptyBuffer Buffer.new) = some bufs ∧
    (∀ chunks : List (List UInt8), chunks.flatten = (bufs.map Buffer.content).flatten →
      ∃ b, im.receive Buffer.new chunks = some (b, [greeting, greeting].map id, []) ∧ b.readableBytes = 0) ∧
    ∀ m ∈ [greeting, greeting], im.parseFromArray (id m.type.create) (im.serializeWithCachedSizesToArray (id m)) =
      (true, id m) := by
  refine delivered_messages_relayed im_generated Runtime.reference_lawful [greeting, greeting] fun m hm => ?_
  have hgreeting : m = greeting := by simpa using hm
  subst hgreeting
  exact ⟨greeting_delivered, by decide⟩

end ChatReactor
