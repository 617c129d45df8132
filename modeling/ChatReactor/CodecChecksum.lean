import ChatReactor.ImCodec
import ChatReactor.Lib.Adler

/-!
# Frames that were damaged

What `parse` (`codec.cc:164-213`) makes of a frame in which bytes have changed: the checksum that `fillEmptyBuffer` appends
(`codec.cc:41-45`) against Adler-32 over the bytes in front of it. The length field is not under the checksum.

`Lib.Adler` says by how many bytes strings with their sum differ; `damaged_frame_refused` is what follows for a connection.
-/

namespace ChatReactor
namespace Protobuf

open NetOrder Framing

theorem adler_toNat (bs : List UInt8) : (adler bs).toNat = Adler.value bs := by
  obtain ⟨h1, h2⟩ := Adler.sums_lt bs
  have hlt : Adler.value bs < 2 ^ 32 := by
    rw [Adler.value]
    omega
  exact (UInt32.toNat_ofNat' ..).trans (Nat.mod_eq_of_lt hlt)

section
variable {M : Type} {P : Protobuf M} (hP : P.adler32 = adler)
include hP

/-- The checksum matches if the frame is its front part with the sum of that. -/
theorem sumMatches_protect {frame : List UInt8} (hlen : 4 ≤ frame.length) (h : P.SumMatches frame) :
    frame = Adler.protect (frame.take (frame.length - 4)) := by
  have hfour : (frame.drop (frame.length - 4)).length = 4 := by
    rw [List.length_drop]
    omega
  have hsum : Adler.value (frame.take (frame.length - 4)) = netValue (frame.drop (frame.length - 4)) := by
    have hfield := netValue_lt (frame.drop (frame.length - 4))
    rw [hfour] at hfield
    rw [SumMatches, hP, List.take_of_length_le hfour.le] at h
    have hpattern := congrArg (fun x : Int => (x % 4294967296).toNat) h
    rwa [int32_toNat (adler _).toNat_lt, int32_toNat hfield, adler_toNat] at hpattern
  have hnet := netBytes_netValue (frame.drop (frame.length - 4))
  rw [hfour, ← hsum] at hnet
  rw [Adler.protect, hnet, List.take_append_drop]

theorem wire_eq (m : M) : wire P m = netBytes 4 (P.encodedLen m) ++ Adler.protect (body P m) := by
  rw [wire, Adler.protect, hP, adler_toNat]

end

/-- One byte of the frame behind the length field is not what it was, or two if the length field is below 65525. -/
structure Damaged {M : Type} (P : Protobuf M) (m : M) (f : List UInt8) : Prop where
  length_eq : f.length = (wire P m).length
  lenField : f.take kHeaderLen = (wire P m).take kHeaderLen
  changed : 1 ≤ Adler.distance (wire P m) f
  few : Adler.distance (wire P m) f ≤ 1 ∨ Adler.distance (wire P m) f ≤ 2 ∧ P.encodedLen m < 65525

section
variable {M : Type} {P : Protobuf M} {m m₀ : M} {f : List UInt8}

theorem Damaged.not_sumMatches (hP : P.adler32 = adler) (hm : P.LawfulAt m) (h : Damaged P m f) :
    ¬ P.SumMatches (f.drop kHeaderLen) := by
  intro hsum
  have hbody := hm.length_body
  have hwire := hm.length_wire
  have hlen : (f.drop kHeaderLen).length = P.encodedLen m := by
    rw [List.length_drop, h.length_eq, hwire, Nat.add_sub_cancel_left]
  have hk : kHeaderLen = 4 := rfl
  have hprotect := sumMatches_protect hP (by rw [hlen]; omega) hsum
  generalize hfront : (f.drop kHeaderLen).take ((f.drop kHeaderLen).length - 4) = front at hprotect
  have hfrontLen : (body P m).length = front.length := by
    rw [← hfront, List.length_take, hlen]
    omega
  -- the length fields are the same, so all differences are behind them
  have hfield : f.take kHeaderLen = netBytes 4 (P.encodedLen m) := by
    rw [h.lenField, wire]
    exact List.take_left' (by simp [kHeaderLen])
  have hdistance : Adler.distance (wire P m) f = Adler.distance (Adler.protect (body P m)) (Adler.protect front) := by
    rw [wire_eq hP, ← List.take_append_drop kHeaderLen f, hfield, ← hprotect, Adler.distance_append rfl, Adler.distance_self,
      Nat.zero_add]
  have hchanged := h.changed
  have hfew := h.few
  rw [hdistance] at hchanged hfew
  have hne : body P m ≠ front := by
    rintro rfl
    rw [Adler.distance_self] at hchanged
    omega
  have htwo := Adler.two_le_distance hfrontLen hne
  rcases hfew with hone | ⟨hle, hshort⟩
  · omega
  · have hthree := Adler.three_le_distance hfrontLen hne (by omega)
    omega

/-- A round of the loop refuses a damaged frame, whatever is behind it. -/
theorem Damaged.look (hP : P.adler32 = adler) (hsend : P.Sendable m) (h : Damaged P m f) (t : List UInt8) :
    Protobuf.look P (f ++ t) = .refuse .kCheckSumError := by
  obtain ⟨hm, hne, -, hmax⟩ := hsend
  have hlen : f.length = kHeaderLen + P.encodedLen m := h.length_eq.trans hm.length_wire
  have hmin : kMinMessageLen ≤ P.encodedLen m := by
    have hpos : 0 < (P.getTypeName m).length := List.length_pos_iff.2 hne
    simp only [encodedLen, kMinMessageLen, kHeaderLen]
    omega
  have hdrop : (f.drop kHeaderLen).length = P.encodedLen m := by
    rw [List.length_drop, hlen, Nat.add_sub_cancel_left]
  have hfield : int32 (netValue ((f ++ t).take 4)) = (P.encodedLen m : Int) := by
    have hhead : (f ++ t).take 4 = (wire P m ++ t).take 4 := by
      rw [List.take_append_of_le_length (by rw [hlen]; exact Nat.le_add_right _ _),
        List.take_append_of_le_length (by rw [hm.length_wire]; exact Nat.le_add_right _ _)]
      exact h.lenField
    rw [hhead, lenField_wire (Nat.lt_of_le_of_lt hmax (by decide))]
  have hlong : ¬ (f ++ t).length < kMinMessageLen + kHeaderLen := by
    rw [List.length_append, hlen]
    omega
  have hrange : ¬ ((P.encodedLen m : Int) > kMaxMessageLen ∨ (P.encodedLen m : Int) < kMinMessageLen) := by omega
  have hfull : ¬ (f ++ t).length < ((P.encodedLen m : Int) + kHeaderLen).toNat := by
    rw [List.length_append, hlen]
    omega
  have hparse : P.parse ((f ++ t).drop kHeaderLen) (P.encodedLen m) = some (none, .kCheckSumError) := by
    rw [List.drop_append_of_le_length (by omega), parse_append hmin (by omega), ← hdrop, parse_eq_verdict (by omega), verdict,
      if_neg (h.not_sumMatches hP hm)]
  simp only [Protobuf.look, if_neg hlong, hfield, if_neg hrange, if_neg hfull, Int.toNat_natCast, hparse]

end

end Protobuf

open Protobuf Framing

/-- **A damaged frame is never delivered.** Messages `ms` are sent, then one more of whose frame one byte behind the length
field changes on the way (or two, if its length field is below 65525), then anything. However this is cut, the messages `ms`
are delivered and nothing else is, the frame and all behind it stay in the buffer, and the error reported is
`kCheckSumError`. Of zlib it is used that `adler32` computes Adler-32. -/
theorem damaged_frame_refused {M : Type} {P : Protobuf M} (hP : P.adler32 = adler) (ms : List M) (m : M) (f t : List UInt8)
    (hms : ∀ m' ∈ m :: ms, P.Sendable m') (hf : Damaged P m f) (chunks : List (List UInt8))
    (hcut : chunks.flatten = (ms.map (wire P)).flatten ++ (f ++ t)) :
    ∃ b errs, P.receive Buffer.new chunks = some (b, ms, errs) ∧ b.content = f ++ t ∧
      errs ≠ [] ∧ ∀ e ∈ errs, e = .kCheckSumError := by
  obtain ⟨hm, hms⟩ := List.forall_mem_cons.1 hms
  have hlook : look P (f ++ t) = .refuse .kCheckSumError := hf.look hP hm t
  have hdrain : drain (look P) chunks.flatten = ⟨ms, f ++ t, some .kCheckSumError⟩ := by
    rw [hcut, drain_encoded_append (look_incremental _) _ (fun m' hm' => (hms m' hm').look_wire), drain_step (look_incremental _),
      hlook]
    simp
  obtain ⟨b, errs, hrec, hb, -⟩ := receive_stream P chunks
  rw [hdrain] at hrec hb
  refine ⟨b, errs, hrec, hb.content_eq, ?_⟩
  rw [receive_eq_reads] at hrec
  obtain ⟨hall, hmem⟩ := reads_error (look_incremental _) (handleRead_drains P) chunks Buffer.new_holds
    (by rw [List.nil_append, hdrain]) hrec
  refine ⟨List.ne_nil_of_mem (hmem ?_), hall⟩
  -- the frame is not empty, so there is a read
  rintro rfl
  have hlen := congrArg List.length hcut
  have hwire := hm.lawful.length_wire
  have hframe := hf.length_eq
  simp only [List.flatten_nil, List.length_nil, List.length_append, kHeaderLen] at hlen hwire
  omega

/-- The last letter of a greeting has changed. -/
theorem damaged_greeting_refused :
    ∃ b errs, im.receive Buffer.new [(wire im greeting).set 27 0] = some (b, [], errs) ∧
      b.content = (wire im greeting).set 27 0 ++ [] ∧ errs ≠ [] ∧ ∀ e ∈ errs, e = .kCheckSumError :=
  damaged_frame_refused rfl [] greeting _ [] (by simp [greeting_sendable])
    ⟨by decide +kernel, by decide +kernel, by decide +kernel, .inl (by decide +kernel)⟩ _ (by simp)

end ChatReactor
