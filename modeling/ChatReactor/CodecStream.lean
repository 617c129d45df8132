import ChatReactor.CodecProofs

/-!
# Arbitrary input to the protobuf codec

What `ProtobufCodec::onMessage` (`codec.cc:113-145`) makes of bytes that no encoder wrote.

| here | there |
| --- | --- |
| `Frame` | a frame that `parse` accepts: the length field within `kMinMessageLen .. kMaxMessageLen`, and that many bytes behind it |
| `Unacceptable` | a length field out of range (`codec.cc:120`), or a whole frame that `parse` rejects (`codec.cc:135`) |

The loop decides on a partial buffer against three thresholds. `look_grammar` says that a decision to
deliver depends on the frame alone; `codec_any_stream` is the result for any stream and any cuts.
`defaultErrorCallback` shuts down the write side only, so reads go on behind an unacceptable frame.
-/

namespace ChatReactor
namespace Protobuf

open NetOrder Framing

variable {M : Type} {P : Protobuf M}

/-- `f` is a frame that `parse` accepts as `m`. -/
structure Frame (P : Protobuf M) (m : M) (f : List UInt8) : Prop where
  min_le : kMinMessageLen + kHeaderLen ≤ f.length
  le_max : f.length ≤ kMaxMessageLen + kHeaderLen
  lenField : int32 (netValue (f.take kHeaderLen)) = ((f.length - kHeaderLen : Nat) : Int)
  accepted : P.parse (f.drop kHeaderLen) (f.length - kHeaderLen) = some (some m, .kNoError)

/-- The frame at the front of `q` will never be accepted. -/
def Unacceptable (P : Protobuf M) (q : List UInt8) : Prop :=
  kHeaderLen ≤ q.length ∧
    let len := int32 (netValue (q.take kHeaderLen))
    (len > kMaxMessageLen ∨ len < kMinMessageLen) ∨
      ((len + kHeaderLen).toNat ≤ q.length ∧ ∀ m, P.parse (q.drop kHeaderLen) len.toNat ≠ some (some m, .kNoError))

/-! ## The decoder against the grammar -/

theorem frame_of_take {q : List UInt8} {m : M} {n : Nat} (h : look P q = .take m n) : Frame P m (q.take n) := by
  obtain ⟨len, hq, hlen, hrange, hwait, hparse, rfl⟩ := look_take h
  have hn : (q.take (kHeaderLen + len.toNat)).length = kHeaderLen + len.toNat := by
    rw [List.length_take]
    omega
  have hcut : q.drop kHeaderLen = (q.take (kHeaderLen + len.toNat)).drop kHeaderLen ++ q.drop (kHeaderLen + len.toNat) := by
    rw [← List.drop_append_of_le_length (by rw [hn]; omega), List.take_append_drop]
  refine ⟨by omega, by omega, ?_, ?_⟩
  · rw [hn, List.take_take, Nat.min_eq_left (by omega), show kHeaderLen = 4 from rfl, hlen]
    omega
  · rw [hn, Nat.add_sub_cancel_left]
    rwa [hcut, parse_append (by omega) (by rw [List.length_drop, hn]; omega)] at hparse

theorem take_of_frame {m : M} {f : List UInt8} (h : Frame P m f) (t : List UInt8) :
    look P (f ++ t) = .take m f.length := by
  have hmin := h.min_le
  have hmax := h.le_max
  have hfield := h.lenField
  have hhead : 4 ≤ f.length := Nat.le_trans (by decide) hmin
  have htake : (f ++ t).take 4 = f.take kHeaderLen := List.take_append_of_le_length hhead
  have hdrop : (f ++ t).drop kHeaderLen = f.drop kHeaderLen ++ t := List.drop_append_of_le_length (by omega)
  have hlong : ¬ (f ++ t).length < kMinMessageLen + kHeaderLen := by rw [List.length_append]; omega
  have hrange : ¬ (((f.length - kHeaderLen : Nat) : Int) > kMaxMessageLen ∨ ((f.length - kHeaderLen : Nat) : Int) < kMinMessageLen) := by
    omega
  have hfull : ¬ (f ++ t).length < (((f.length - kHeaderLen : Nat) : Int) + kHeaderLen).toNat := by
    rw [List.length_append]; omega
  have hparse : P.parse (f.drop kHeaderLen ++ t) (f.length - kHeaderLen) = some (some m, .kNoError) := by
    rw [parse_append (by omega) (by rw [List.length_drop]), h.accepted]
  simp only [look, if_neg hlong, htake, hfield, if_neg hrange, if_neg hfull, hdrop, Int.toNat_natCast, hparse]
  congr 1
  omega

theorem look_grammar (P : Protobuf M) : Grammar (look P) (Frame P) where
  sound h := frame_of_take h
  complete t h := take_of_frame h t

/-- No bytes that arrive later make the loop accept an unacceptable frame. -/
theorem Unacceptable.stuck {q : List UInt8} (h : Unacceptable P q) (t : List UInt8) (m : M) (n : Nat) :
    look P (q ++ t) ≠ .take m n := by
  intro hv
  obtain ⟨hhead, hbad⟩ := h
  obtain ⟨len, -, hlen, hrange, -, hparse, -⟩ := look_take hv
  have hfield : int32 (netValue (q.take kHeaderLen)) = len := by
    rw [← hlen, show (q ++ t).take 4 = q.take kHeaderLen from List.take_append_of_le_length hhead]
  simp only [hfield] at hbad
  rcases hbad with hout | ⟨hfull, hreject⟩
  · exact hrange hout
  · refine hreject m ?_
    rwa [List.drop_append_of_le_length hhead, parse_append (by omega) (by rw [List.length_drop]; omega)] at hparse

/-- **Any byte stream, any cuts.** What `onMessage` delivers depends on the stream alone: it is the
messages of the longest front part made of acceptable frames, and what is behind it stays in the
buffer. With an unacceptable frame at the front, no later call delivers a message or consumes a byte. -/
theorem codec_any_stream (P : Protobuf M) (stream : List UInt8) :
    ∃ ms rest, Longest (Frame P) stream ms rest ∧
      ∀ chunks : List (List UInt8), chunks.flatten = stream →
        ∃ b errs, P.receive Buffer.new chunks = some (b, ms, errs) ∧ b.content = rest ∧
          (Unacceptable P rest → ∀ later : List (List UInt8),
            ∃ b' errs', P.receive b later = some (b', [], errs') ∧ b'.content = rest ++ later.flatten) := by
  refine ⟨_, _, drain_longest (look_incremental P) (look_grammar P) stream, ?_⟩
  rintro chunks rfl
  obtain ⟨b, errs, hrec, hb, -⟩ := receive_stream P chunks
  refine ⟨b, errs, hrec, hb.content_eq, fun hbad later => ?_⟩
  obtain ⟨b', errs', hlater, hb'⟩ :=
    reads_stuck (look_incremental P) (handleRead_drains P) later hb fun t m n => hbad.stuck t m n
  exact ⟨b', errs', by rw [receive_eq_reads, hlater], hb'.content_eq⟩

end Protobuf
end ChatReactor
