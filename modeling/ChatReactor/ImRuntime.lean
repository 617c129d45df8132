import ChatReactor.ImMessage

/-!
# What the messages need of libprotobuf

`Runtime.Lawful` names it. `Runtime.reference` is a library that has it: the wire format with varints and counted bytes, which
is all that `msg.proto` uses. What is proved about the messages is for any lawful library; the reference is there to run them.
-/

namespace ChatReactor

open WireFormat

/-- A string is no longer than an `int` can say. -/
def FieldType.Fits : (t : FieldType) → t.Member → Prop
  | .string, s => s.length < 2 ^ 31
  | _, _ => True

namespace Runtime

variable {Unknown : Type}

/-- `SkipField` has made `u` of a field with the tag `t`. -/
def Skips (R : Runtime Unknown) (t : Nat) (u : Unknown) : Prop :=
  ∃ bs rest rest', R.readTag bs = some (t, rest) ∧ t % 8 ≠ 4 ∧ R.skipField t rest = some (u, rest')

/-- The documented behaviour of libprotobuf that the generated code relies on. What a reader returns depends on the bytes it
takes; what is written is read back, whatever is behind it; the sizes are those of what is written; and what has been read
fits, and is not written longer, but for an `int32`, of which five bytes can become ten. -/
structure Lawful (R : Runtime Unknown) : Prop where
  readTag_local : Local R.readTag
  readValue_local : ∀ t, Local (R.readValue t)
  skipField_local : ∀ t, Local (R.skipField t)
  expectTag_some : ∀ {t bs rest}, 1 ≤ t → t ≤ 127 → R.expectTag t bs = some rest → R.readTag bs = some (t, rest)
  atEnd_iff : ∀ {bs}, R.atEnd bs = true ↔ bs = []
  read_writeField : ∀ {number t} {v : t.Member}, 1 ≤ number → number ≤ 15 → t.Fits v → ∀ bs, ∃ rest,
    R.readTag (R.writeField number t v ++ bs) = some (number * 8 + t.wireType, rest) ∧ R.readValue t rest = some (v, bs)
  skip_serializeUnknown : ∀ {t u}, R.Skips t u → ∀ bs, ∃ rest,
    R.readTag (R.serializeUnknown u ++ bs) = some (t, rest) ∧ R.skipField t rest = some (u, bs)
  length_writeField : ∀ {number t} {v : t.Member}, 1 ≤ number → number ≤ 15 → t.Fits v →
    (R.writeField number t v).length = 1 + R.valueSize t v
  length_serializeUnknown : ∀ {t u}, R.Skips t u → (R.serializeUnknown u).length = R.unknownSize u
  readValue_fits : ∀ {t bs} {v : t.Member} {rest}, R.readValue t bs = some (v, rest) → t.Fits v
  valueSize_le : ∀ {t bs} {v : t.Member} {rest}, t ≠ .int32 → R.readValue t bs = some (v, rest) →
    R.valueSize t v + rest.length ≤ bs.length
  unknownSize_le : ∀ {t bs rest u rest'}, R.readTag bs = some (t, rest) → R.skipField t rest = some (u, rest') →
    R.unknownSize u + rest'.length ≤ bs.length
  limit_le : 64 * 1024 * 1024 ≤ R.totalBytesLimit

theorem Lawful.readTag_nil {R : Runtime Unknown} (hR : R.Lawful) : R.readTag [] = none := by
  cases htag : R.readTag [] with
  | none => rfl
  | some x => exact absurd (hR.readTag_local.shorter htag) (Nat.not_lt_zero _)

end Runtime

/-! ## The reference library -/

namespace Runtime

/-- What is written for a member. -/
def value : (t : FieldType) → t.Member → Value
  | .int64, v => .varint v.toUInt64.toNat
  -- sign-extended to 64 bits
  | .int32, v => .varint v.toInt64.toUInt64.toNat
  | .string, s => .counted s

/-- An unknown field is kept with its tag. -/
def reference : Runtime (Nat × Value) where
  readTag := WireFormat.readTag
  expectTag t bs := match bs with
    | b :: bs => if b.toNat = t then some bs else none
    | [] => none
  atEnd := List.isEmpty
  readValue
    | .int64, bs => (readVarint 64 bs).map fun x => ((UInt64.ofNat x.1).toInt64, x.2)
    | .int32, bs => (readVarint 32 bs).map fun x => ((UInt32.ofNat x.1).toInt32, x.2)
    | .string, bs => readCounted bs
  skipField t bs := (WireFormat.readValue (t % 8) bs).map fun x => ((t, x.1), x.2)
  writeField number t v := varint (number * 8 + t.wireType) ++ (value t v).encode
  valueSize t v := (value t v).encode.length
  serializeUnknown u := varint u.1 ++ u.2.encode
  unknownSize u := (varint u.1).length + u.2.encode.length
  totalBytesLimit := 64 * 1024 * 1024
  parseBeyondLimit _ _ := none

theorem setWidth_signExtend (x : BitVec 32) : (x.signExtend 64).setWidth 32 = x := by
  ext i hi
  simp only [BitVec.getElem_setWidth, BitVec.getLsbD_signExtend]
  simp [hi, show i < 64 by omega]

theorem readValue_value {t : FieldType} {v : t.Member} (h : t.Fits v) (bs : List UInt8) :
    reference.readValue t ((value t v).encode ++ bs) = some (v, bs) := by
  cases t with
  | int64 =>
    have hread := readVarint_varint 64 v.toUInt64.toNat_lt bs
    rw [Nat.mod_eq_of_lt v.toUInt64.toNat_lt] at hread
    simp only [reference, value, Value.encode, hread, Option.map_some, UInt64.ofNat_toNat]
    rfl
  | int32 =>
    have hread := readVarint_varint 32 v.toInt64.toUInt64.toNat_lt bs
    have hlow : UInt32.ofNat (v.toInt64.toUInt64.toNat % 2 ^ 32) = UInt32.ofNat v.toInt64.toUInt64.toNat := by
      apply UInt32.toNat_inj.1
      simp
    simp only [reference, value, Value.encode, hread, Option.map_some, hlow]
    refine congrArg (fun w => some (w, bs)) (Int32.toBitVec_inj.1 ?_)
    simp [setWidth_signExtend]
  | string =>
    simp only [reference, value, Value.encode, List.append_assoc]
    exact readCounted_counted h bs

theorem reference_skips {t : Nat} {u : Nat × Value} (h : reference.Skips t u) :
    u.1 = t ∧ 0 < t ∧ t < 2 ^ 32 ∧ u.2.wireType = t % 8 ∧ u.2.Valid := by
  obtain ⟨bs, rest, rest', htag, -, hskip⟩ := h
  obtain ⟨hread, hne⟩ := readTag_eq_some.1 htag
  obtain ⟨⟨v, rest''⟩, hv, hx⟩ := Option.map_eq_some_iff.1 hskip
  cases hx
  obtain ⟨hw, hvalid, -⟩ := readValue_some hv
  exact ⟨rfl, Nat.pos_iff_ne_zero.2 hne, readVarint_lt hread, hw, hvalid⟩

theorem reference_lawful : reference.Lawful where
  readTag_local := WireFormat.readTag_local
  readValue_local t := by
    cases t with
    | int64 => exact (readVarint_local 64).map fun n => (UInt64.ofNat n).toInt64
    | int32 => exact (readVarint_local 32).map fun n => (UInt32.ofNat n).toInt32
    | string => exact readCounted_local
  skipField_local t := (WireFormat.readValue_local _).map fun v => (t, v)
  expectTag_some := by
    intro t bs rest hpos hle h
    cases bs with
    | nil => cases h
    | cons b bs =>
      simp only [reference] at h
      split at h
      case isTrue hb =>
        cases h
        subst hb
        refine readTag_eq_some.2 ⟨?_, Nat.pos_iff_ne_zero.1 hpos⟩
        rw [readVarint, readVarintLoop, if_pos (Nat.lt_succ_of_le hle), Option.map_some, Nat.mod_eq_of_lt (by omega)]
      case isFalse => cases h
  atEnd_iff := List.isEmpty_iff
  read_writeField := by
    intro number t v hpos hle hv bs
    have hw : t.wireType < 8 := by cases t <;> decide
    refine ⟨(value t v).encode ++ bs, ?_, readValue_value hv bs⟩
    simp only [reference, List.append_assoc]
    exact readTag_varint (by omega) (by omega) _
  skip_serializeUnknown := by
    intro t u h bs
    obtain ⟨rfl, hpos, hlt, hw, hvalid⟩ := reference_skips h
    refine ⟨u.2.encode ++ bs, ?_, ?_⟩
    · simp only [reference, List.append_assoc]
      exact readTag_varint hpos hlt _
    · simp only [reference, ← hw, readValue_encode hvalid, Option.map_some]
  length_writeField := by
    intro number t v hpos hle hv
    have hw : t.wireType < 8 := by cases t <;> decide
    have htag : varint (number * 8 + t.wireType) = [UInt8.ofNat (number * 8 + t.wireType)] := if_pos (by omega)
    simp only [reference, List.length_append, htag, List.length_singleton]
  length_serializeUnknown := by
    intro t u _
    simp only [reference, List.length_append]
  readValue_fits := by
    intro t bs v rest h
    cases t with
    | int64 => trivial
    | int32 => trivial
    | string => exact (readCounted_some h).1
  valueSize_le := by
    intro t bs v rest ht h
    cases t with
    | int64 =>
      obtain ⟨⟨n, rest'⟩, hn, hx⟩ := Option.map_eq_some_iff.1 h
      cases hx
      have hvalue : ((UInt64.ofNat n).toInt64).toUInt64.toNat = n := by simpa using readVarint_lt hn
      have hsize := readVarint_size hn
      simp only [reference, value, Value.encode]
      rwa [← hvalue] at hsize
    | int32 => exact absurd rfl ht
    | string => simpa [reference, value, Value.encode] using readCounted_size h
  unknownSize_le := by
    intro t bs rest u rest' htag hskip
    have hone := readVarint_size (readTag_eq_some.1 htag).1
    obtain ⟨⟨v, rest''⟩, hv, hx⟩ := Option.map_eq_some_iff.1 hskip
    cases hx
    have htwo := (readValue_some hv).2.2
    simp only [reference]
    omega
  limit_le := Nat.le_refl _

end Runtime
end ChatReactor
