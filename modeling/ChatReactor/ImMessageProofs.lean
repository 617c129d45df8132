import ChatReactor.ImRuntime
import Mathlib.Algebra.BigOperators.Fin
import Mathlib.Algebra.Order.BigOperators.Group.Finset
import Mathlib.Data.List.Nodup
import Mathlib.Logic.Relation

/-!
# What the generated classes read and write

`Reads` is what one field of the input does to a message: it sets the field with its tag, or it is unknown and kept. A message
is read by as many such steps as there are fields (`mergeLoop_iff`); the shortcuts by which `mergeLoop` goes from a field to
the next one change nothing. The rest is about steps: what is written is read back (`parse_serialize`), whatever has been
read can be written (`parse_wellFormed`), and inputs one after the other merge (`parse_concatenation`).
-/

namespace ChatReactor

open WireFormat Relation

namespace GeneratedMessage

variable {Unknown : Type} {R : Runtime Unknown} {fields : List Field}

/-- The generated code is for fields with distinct tags of one byte. -/
structure Table (fields : List Field) : Prop where
  number_pos : ∀ f ∈ fields, 1 ≤ f.number
  tag_le : ∀ f ∈ fields, f.tag ≤ 127
  nodup : (fields.map Field.tag).Nodup

theorem fields_table (t : MessageType) : Table t.fields := by
  cases t <;> exact ⟨by decide, by decide, by decide⟩

theorem Table.number_range (ht : Table fields) (i : Fin fields.length) :
    1 ≤ (fields.get i).number ∧ (fields.get i).number ≤ 15 := by
  have hle := ht.tag_le _ (List.get_mem fields i)
  rw [Field.tag] at hle
  exact ⟨ht.number_pos _ (List.get_mem fields i), by omega⟩

theorem Table.tag_range (ht : Table fields) (i : Fin fields.length) : 1 ≤ (fields.get i).tag ∧ (fields.get i).tag ≤ 127 := by
  have hnumber := ht.number_pos _ (List.get_mem fields i)
  refine ⟨?_, ht.tag_le _ (List.get_mem fields i)⟩
  rw [Field.tag]
  omega

theorem fieldOf_some {t : Nat} {i : Fin fields.length} (h : fieldOf fields t = some i) : (fields.get i).tag = t := by
  rw [fieldOf] at h
  split at h
  case isTrue => simpa using List.find?_some h
  case isFalse => cases h

theorem fieldOf_tag (ht : Table fields) (i : Fin fields.length) : fieldOf fields (fields.get i).tag = some i := by
  rw [fieldOf, if_pos (ht.tag_range i)]
  obtain ⟨j, hj⟩ : ∃ j, (List.finRange fields.length).find? (fun j => (fields.get j).tag = (fields.get i).tag) = some j := by
    rw [← Option.isSome_iff_exists, List.find?_isSome]
    exact ⟨i, List.mem_finRange i, by simp⟩
  have htag : (fields.get j).tag = (fields.get i).tag := by simpa using List.find?_some hj
  have hidx : (fields.map Field.tag)[j] = (fields.map Field.tag)[i] := by simpa using htag
  obtain rfl : j = i := Fin.ext ((List.Nodup.getElem_inj_iff ht.nodup).1 hidx)
  exact hj

/-! ## Reading, field by field -/

/-- One field is read: the object and the input, before and after. -/
inductive Reads (R : Runtime Unknown) : GeneratedMessage Unknown fields × List UInt8 →
    GeneratedMessage Unknown fields × List UInt8 → Prop
  | known {m : GeneratedMessage Unknown fields} {bs rest rest' : List UInt8} (i : Fin fields.length)
      {v : (fields.get i).type.Member} (htag : R.readTag bs = some ((fields.get i).tag, rest))
      (hvalue : R.readValue (fields.get i).type rest = some (v, rest')) : Reads R (m, bs) (m.set i v, rest')
  | unknown {m : GeneratedMessage Unknown fields} {bs rest rest' : List UInt8} {t : Nat} {u : Unknown}
      (htag : R.readTag bs = some (t, rest)) (hfield : fieldOf fields t = none) (hend : t % 8 ≠ 4)
      (hskip : R.skipField t rest = some (u, rest')) : Reads R (m, bs) (m.addUnknown u, rest')

/-- All the input is read. -/
abbrev ReadsAll (R : Runtime Unknown) (m : GeneratedMessage Unknown fields) (bs : List UInt8)
    (m' : GeneratedMessage Unknown fields) : Prop := ReflTransGen (Reads R) (m, bs) (m', [])

section
variable {m m' : GeneratedMessage Unknown fields} {bs rest : List UInt8} (hR : R.Lawful) (ht : Table fields)
include hR

omit hR in
theorem readsAll_nil_iff (htag : R.readTag bs = none) : ReadsAll R m bs m' ↔ m = m' ∧ bs = [] := by
  rw [ReadsAll, ReflTransGen.cases_head_iff, Prod.mk.injEq]
  refine or_iff_left ?_
  rintro ⟨c, hstep, -⟩
  cases hstep with
  | known i h => exact absurd (htag.symm.trans h) (by simp)
  | unknown h => exact absurd (htag.symm.trans h) (by simp)

omit hR in
theorem ReadsAll.cases (h : ReadsAll R m bs m') (hbs : bs ≠ []) :
    ∃ c, Reads R (m, bs) c ∧ ReflTransGen (Reads R) c (m', []) := by
  obtain heq | hstep := h.cases_head
  · exact absurd (congrArg Prod.snd heq) hbs
  · exact hstep

theorem ne_nil_of_readTag {t : Nat} (htag : R.readTag bs = some (t, rest)) : bs ≠ [] := by
  rintro rfl
  exact absurd (hR.readTag_nil.symm.trans htag) (by simp)

theorem readsAll_known_iff {i : Fin fields.length} (htag : R.readTag bs = some ((fields.get i).tag, rest))
    (ht : Table fields) : ReadsAll R m bs m' ↔
      ∃ v rest', R.readValue (fields.get i).type rest = some (v, rest') ∧ ReadsAll R (m.set i v) rest' m' := by
  constructor
  · intro h
    obtain ⟨c, hstep, hc⟩ := h.cases (ne_nil_of_readTag hR htag)
    cases hstep with
    | known j htag' hvalue =>
      obtain ⟨htags, rfl⟩ := Prod.mk.inj (Option.some.inj (htag.symm.trans htag'))
      have hi := fieldOf_tag ht i
      rw [htags, fieldOf_tag ht j] at hi
      cases hi
      exact ⟨_, _, hvalue, hc⟩
    | unknown htag' hfield =>
      obtain ⟨rfl, rfl⟩ := Prod.mk.inj (Option.some.inj (htag.symm.trans htag'))
      rw [fieldOf_tag ht i] at hfield
      cases hfield
  · rintro ⟨v, rest', hvalue, hc⟩
    exact .head (.known i htag hvalue) hc

theorem readsAll_unknown_iff {t : Nat} (htag : R.readTag bs = some (t, rest)) (hfield : fieldOf fields t = none)
    (ht : Table fields) : ReadsAll R m bs m' ↔
      t % 8 ≠ 4 ∧ ∃ u rest', R.skipField t rest = some (u, rest') ∧ ReadsAll R (m.addUnknown u) rest' m' := by
  constructor
  · intro h
    obtain ⟨c, hstep, hc⟩ := h.cases (ne_nil_of_readTag hR htag)
    cases hstep with
    | known j htag' =>
      obtain ⟨rfl, -⟩ := Prod.mk.inj (Option.some.inj (htag.symm.trans htag'))
      rw [fieldOf_tag ht j] at hfield
      cases hfield
    | unknown htag' _ hend hskip =>
      obtain ⟨rfl, rfl⟩ := Prod.mk.inj (Option.some.inj (htag.symm.trans htag'))
      exact ⟨hend, _, _, hskip, hc⟩
  · rintro ⟨hend, u, rest', hskip, hc⟩
    exact .head (.unknown htag hfield hend hskip) hc

include ht

/-- **The shortcuts change nothing**: `MergePartialFromCodedStream` reads field after field up to the end of its input, and
from behind the tag of a field it reads the field and then the others. -/
theorem mergeLoop_iff (fuel : Nat) :
    (∀ (m : GeneratedMessage Unknown fields) bs, bs.length < fuel →
      (mergeLoop R fuel none m bs = some (m', true) ↔ ReadsAll R m bs m')) ∧
    ∀ (i : Fin fields.length) (m : GeneratedMessage Unknown fields) bs, bs.length < fuel →
      (mergeLoop R fuel (some i) m bs = some (m', true) ↔
        ∃ v rest, R.readValue (fields.get i).type bs = some (v, rest) ∧ ReadsAll R (m.set i v) rest m') := by
  induction fuel with
  | zero => exact ⟨fun _ _ h => absurd h (by omega), fun _ _ _ h => absurd h (by omega)⟩
  | succ fuel ih =>
    obtain ⟨ihTag, ihField⟩ := ih
    constructor
    · intro m bs hbs
      rw [mergeLoop]
      cases htag : R.readTag bs with
      | none =>
        rw [readsAll_nil_iff htag, Option.some.injEq, Prod.mk.injEq, hR.atEnd_iff]
      | some x =>
        obtain ⟨t, rest⟩ := x
        have hshort := hR.readTag_local.shorter htag
        cases hi : fieldOf fields t with
        | some i =>
          obtain rfl := fieldOf_some hi
          simp only [hi]
          rw [ihField i m rest (by omega), readsAll_known_iff hR htag ht]
        | none =>
          simp only [hi]
          rw [readsAll_unknown_iff hR htag hi ht]
          split
          case isTrue hend => simp [hend]
          case isFalse hend =>
            rw [Option.bind_eq_some_iff, and_iff_right hend, Prod.exists]
            refine exists_congr fun u => exists_congr fun rest' => and_congr_right fun hskip => ?_
            have hless := (hR.skipField_local t).shorter hskip
            exact ihTag _ rest' (by omega)
    · intro i m bs hbs
      rw [mergeLoop, Option.bind_eq_some_iff, Prod.exists]
      refine exists_congr fun v => exists_congr fun rest => and_congr_right fun hvalue => ?_
      have hshort := (hR.readValue_local _).shorter hvalue
      simp only
      split
      case isTrue hnext =>
        obtain ⟨hpos, hle⟩ := ht.tag_range ⟨i + 1, hnext⟩
        split
        case h_1 rest' hexpect =>
          have htag := hR.expectTag_some hpos hle hexpect
          have hless := hR.readTag_local.shorter htag
          rw [ihField _ _ _ (by omega), readsAll_known_iff hR htag ht]
        case h_2 => exact ihTag _ _ (by omega)
      case isFalse =>
        split
        case isTrue hend =>
          obtain rfl := hR.atEnd_iff.1 hend
          simp [readsAll_nil_iff hR.readTag_nil]
        case isFalse => exact ihTag _ _ (by omega)

theorem parse_eq_some (hlimit : bs.length ≤ R.totalBytesLimit) :
    parseFromArray R bs = some m ↔ ReadsAll R (new fields) bs m ∧ m.isInitialized = true := by
  rw [parseFromArray, if_neg (Nat.not_lt.2 hlimit), ← (mergeLoop_iff hR ht _).1 _ bs (Nat.lt_succ_self _)]
  rw [mergePartialFromCodedStream]
  constructor
  · intro h
    split at h
    case h_1 m' hmerge =>
      split at h
      case isTrue hinit =>
        cases h
        exact ⟨hmerge, hinit⟩
      case isFalse => cases h
    case h_2 => cases h
  · rintro ⟨hmerge, hinit⟩
    simp only [hmerge, hinit, if_true]

end

/-! ## What has been read -/

/-- The strings fit, and the unknown fields are such as a parser keeps. -/
structure WellFormed (R : Runtime Unknown) (m : GeneratedMessage Unknown fields) : Prop where
  fits : ∀ i v, m.slot i = some v → (fields.get i).type.Fits v
  unknown : ∀ u ∈ m.unknownFields, ∃ t, R.Skips t u ∧ fieldOf fields t = none

theorem new_wellFormed : (new fields).WellFormed R := ⟨nofun, nofun⟩

section
variable {m : GeneratedMessage Unknown fields} {bs : List UInt8} {a b : GeneratedMessage Unknown fields × List UInt8}

theorem WellFormed.set (h : m.WellFormed R) {i : Fin fields.length} {v : (fields.get i).type.Member}
    (hv : (fields.get i).type.Fits v) : (m.set i v).WellFormed R := by
  refine ⟨fun j w hw => ?_, h.unknown⟩
  change Function.update m.slot i (some v) j = some w at hw
  by_cases hj : j = i
  · subst hj
    rw [Function.update_self] at hw
    exact Option.some.inj hw ▸ hv
  · rw [Function.update_of_ne hj] at hw
    exact h.fits j w hw

theorem WellFormed.reads (hR : R.Lawful) (h : a.1.WellFormed R) (hstep : Reads R a b) : b.1.WellFormed R := by
  cases hstep with
  | known i htag hvalue => exact h.set (hR.readValue_fits hvalue)
  | unknown htag hfield hend hskip =>
    refine ⟨h.fits, fun u hu => ?_⟩
    obtain hu | hu := List.mem_append.1 hu
    · exact h.unknown u hu
    · obtain rfl := List.mem_singleton.1 hu
      exact ⟨_, ⟨_, _, _, htag, hend, hskip⟩, hfield⟩

/-- **What has been read can be written**: whatever the bytes. -/
theorem parse_wellFormed (hR : R.Lawful) (ht : Table fields) (hlimit : bs.length ≤ R.totalBytesLimit)
    (h : parseFromArray R bs = some m) : m.WellFormed R ∧ m.isInitialized = true := by
  obtain ⟨hreads, hinit⟩ := (parse_eq_some hR ht hlimit).1 h
  refine ⟨?_, hinit⟩
  have hall : ∀ b, ReflTransGen (Reads R) (new fields, bs) b → b.1.WellFormed R := by
    intro b hb
    induction hb with
    | refl => exact new_wellFormed
    | tail _ hstep ih => exact ih.reads hR hstep
  exact hall _ hreads

/-! ### Its size -/

/-- A sum in which one term has changed. -/
theorem sum_update_le {n : Nat} (f : Fin n → Nat) (i : Fin n) (x : Nat) :
    ((List.finRange n).map (Function.update f i x)).sum ≤ ((List.finRange n).map f).sum + x := by
  rw [← Fin.sum_univ_def, ← Fin.sum_univ_def, Finset.sum_update_of_mem (Finset.mem_univ i), Nat.add_comm]
  exact Nat.add_le_add_right (Finset.sum_le_sum_of_subset Finset.sdiff_subset) x

theorem byteSize_set (m : GeneratedMessage Unknown fields) (i : Fin fields.length) (v : (fields.get i).type.Member) :
    (m.set i v).byteSize R ≤ m.byteSize R + (1 + R.valueSize _ v) := by
  -- only the term of this field changes
  have hterm : (fun j => slotSize R ((m.set i v).slot j)) = Function.update (fun j => slotSize R (m.slot j)) i (1 + R.valueSize _ v) := by
    funext j
    by_cases hj : j = i
    · subst hj
      simp [set, slotSize]
    · simp [set, hj]
  have hsum := sum_update_le (fun j => slotSize R (m.slot j)) i (1 + R.valueSize _ v)
  rw [← hterm] at hsum
  have hunknown : (m.set i v).unknownFields = m.unknownFields := rfl
  rw [byteSize, byteSize, hunknown]
  omega

theorem Reads.size_le (hR : R.Lawful) (hint : ∀ f ∈ fields, f.type ≠ .int32) (h : Reads R a b) :
    b.1.byteSize R + b.2.length ≤ a.1.byteSize R + a.2.length := by
  cases h with
  | @known m bs rest rest' i v htag hvalue =>
    have hset := byteSize_set (R := R) m i v
    have hshort := hR.readTag_local.shorter htag
    have hsize := hR.valueSize_le (hint _ (List.get_mem fields i)) hvalue
    simp only
    omega
  | @unknown m bs rest rest' t u htag hfield hend hskip =>
    have hadd : (m.addUnknown u).byteSize R = m.byteSize R + R.unknownSize u := by
      simp [byteSize, addUnknown, Nat.add_assoc]
    have hsize := hR.unknownSize_le htag hskip
    simp only [hadd]
    omega

/-- **What has been read is not longer when it is written**, for messages without `int32`. -/
theorem byteSize_le (hR : R.Lawful) (ht : Table fields) (hint : ∀ f ∈ fields, f.type ≠ .int32)
    (hlimit : bs.length ≤ R.totalBytesLimit) (h : parseFromArray R bs = some m) : m.byteSize R ≤ bs.length := by
  have hall : ∀ b, ReflTransGen (Reads R) (new fields, bs) b → b.1.byteSize R + b.2.length ≤ bs.length := by
    intro b hb
    induction hb with
    | refl => simp [byteSize, new, slotSize]
    | tail _ hstep ih => exact (hstep.size_le hR hint).trans ih
  exact hall _ ((parse_eq_some hR ht hlimit).1 h).1

/-! ## The round trip -/

theorem byteSize_eq (hR : R.Lawful) (ht : Table fields) (h : m.WellFormed R) : m.byteSize R = (m.serialize R).length := by
  rw [byteSize, serialize, List.length_append, List.length_flatMap, List.length_flatMap]
  congr 2
  · congr 1
    funext i
    rw [fieldBytes]
    cases hslot : m.slot i with
    | none => rfl
    | some v => exact (hR.length_writeField (ht.number_range i).1 (ht.number_range i).2 (h.fits i v hslot)).symm
  · refine List.map_congr_left fun u hu => ?_
    obtain ⟨t, hskips, -⟩ := h.unknown u hu
    exact (hR.length_serializeUnknown hskips).symm

/-- The fields that are written set the fields of the object that reads them. -/
theorem reads_fields (hR : R.Lawful) (ht : Table fields) (h : m.WellFormed R) (is : List (Fin fields.length))
    (acc : GeneratedMessage Unknown fields) (bs : List UInt8) :
    ReflTransGen (Reads R) (acc, is.flatMap (m.fieldBytes R) ++ bs)
      ({ acc with slot := fun i => if i ∈ is ∧ (m.slot i).isSome then m.slot i else acc.slot i }, bs) := by
  induction is generalizing acc with
  | nil => simpa using .refl
  | cons i is ih =>
    rw [List.flatMap_cons, List.append_assoc, fieldBytes]
    cases hslot : m.slot i with
    | none =>
      have hslots : (fun j => if j ∈ i :: is ∧ (m.slot j).isSome then m.slot j else acc.slot j) =
          fun j => if j ∈ is ∧ (m.slot j).isSome then m.slot j else acc.slot j := by
        funext j
        by_cases hj : j = i
        · subst hj
          simp [hslot]
        · simp [hj]
      rw [hslots]
      exact ih acc
    | some v =>
      obtain ⟨rest, htag, hvalue⟩ := hR.read_writeField (ht.number_range i).1 (ht.number_range i).2 (h.fits i v hslot)
        (is.flatMap (m.fieldBytes R) ++ bs)
      have hslots : (fun j => if j ∈ i :: is ∧ (m.slot j).isSome then m.slot j else acc.slot j) =
          fun j => if j ∈ is ∧ (m.slot j).isSome then m.slot j else (acc.set i v).slot j := by
        funext j
        by_cases hj : j = i
        · subst hj
          simp [set, hslot]
        · simp [set, hj]
      rw [hslots]
      exact .head (.known i htag hvalue) (ih (acc.set i v))

theorem reads_unknownFields (hR : R.Lawful) {us : List Unknown} (h : ∀ u ∈ us, ∃ t, R.Skips t u ∧ fieldOf fields t = none)
    (acc : GeneratedMessage Unknown fields) : ReadsAll R acc (us.flatMap R.serializeUnknown)
      { acc with unknownFields := acc.unknownFields ++ us } := by
  induction us generalizing acc with
  | nil => simpa using .refl
  | cons u us ih =>
    obtain ⟨⟨t, hskips, hfield⟩, hus⟩ := List.forall_mem_cons.1 h
    obtain ⟨rest, htag, hskip⟩ := hR.skip_serializeUnknown hskips (us.flatMap R.serializeUnknown)
    obtain ⟨-, -, -, -, hend, -⟩ := hskips
    rw [List.flatMap_cons]
    refine .head (.unknown htag hfield hend hskip) ?_
    simpa [addUnknown] using ih hus (acc.addUnknown u)

/-- **The round trip**: what `SerializeWithCachedSizesToArray` writes, `ParseFromArray` makes the same object of. -/
theorem parse_serialize (hR : R.Lawful) (ht : Table fields) (h : m.WellFormed R) (hinit : m.isInitialized = true)
    (hlimit : (m.serialize R).length ≤ R.totalBytesLimit) : parseFromArray R (m.serialize R) = some m := by
  refine (parse_eq_some hR ht hlimit).2 ⟨?_, hinit⟩
  refine (reads_fields hR ht h _ _ _).trans ?_
  convert reads_unknownFields hR h.unknown _ using 2
  obtain ⟨slot, unknownFields⟩ := m
  simp only [mk.injEq]
  refine ⟨funext fun i => ?_, rfl⟩
  cases slot i <;> simp [new]

/-! ## Inputs one after the other -/

theorem mergeFrom_new (m : GeneratedMessage Unknown fields) : m.mergeFrom (new fields) = m := by
  obtain ⟨slot, unknownFields⟩ := m
  simp [mergeFrom, new]

theorem mergeFrom_set (m source : GeneratedMessage Unknown fields) (i : Fin fields.length) (v : (fields.get i).type.Member) :
    m.mergeFrom (source.set i v) = (m.mergeFrom source).set i v := by
  simp only [mergeFrom, set]
  congr 1
  funext j
  by_cases hj : j = i
  · subst hj
    simp
  · simp [hj]

/-- Bytes behind a field are not looked at. -/
theorem Reads.append (hR : R.Lawful) (h : Reads R a b) (t : List UInt8) : Reads R (a.1, a.2 ++ t) (b.1, b.2 ++ t) := by
  cases h with
  | known i htag hvalue => exact .known i (hR.readTag_local.append htag t) ((hR.readValue_local _).append hvalue t)
  | unknown htag hfield hend hskip =>
    exact .unknown (hR.readTag_local.append htag t) hfield hend ((hR.skipField_local _).append hskip t)

/-- A field does to a merged object what it does to the one merged into it last. -/
theorem Reads.mergeFrom (h : Reads R a b) : Reads R (m.mergeFrom a.1, a.2) (m.mergeFrom b.1, b.2) := by
  cases h with
  | known i htag hvalue =>
    rw [mergeFrom_set]
    exact .known i htag hvalue
  | @unknown source bs rest rest' t u htag hfield hend hskip =>
    have hadd : m.mergeFrom (source.addUnknown u) = (m.mergeFrom source).addUnknown u := by
      simp [GeneratedMessage.mergeFrom, addUnknown]
    rw [hadd]
    exact .unknown htag hfield hend hskip

theorem isInitialized_mergeFrom {source : GeneratedMessage Unknown fields} (h : source.isInitialized = true) :
    (m.mergeFrom source).isInitialized = true := by
  rw [isInitialized, List.all_eq_true] at h ⊢
  intro i hi
  have hfield := h i hi
  cases hslot : source.slot i with
  | none => simpa [GeneratedMessage.mergeFrom, hslot] using Or.inl (by simpa [hslot] using hfield)
  | some v => simp [GeneratedMessage.mergeFrom, hslot]

end

/-- **Concatenation is `MergeFrom`**, for each of the ten classes and whatever the bytes: two strings that can be parsed can
be parsed one after the other, if together they are not above the limit of a `CodedInputStream`, and give the object of the
first merged with that of the second. -/
theorem parse_concatenation (hR : R.Lawful) (t : MessageType) {a b : List UInt8} {ma mb : GeneratedMessage Unknown t.fields}
    (hlimit : (a ++ b).length ≤ R.totalBytesLimit) (ha : parseFromArray R a = some ma) (hb : parseFromArray R b = some mb) :
    parseFromArray R (a ++ b) = some (ma.mergeFrom mb) := by
  have htable := fields_table t
  rw [List.length_append] at hlimit
  obtain ⟨ha, -⟩ := (parse_eq_some hR htable (by omega)).1 ha
  obtain ⟨hb, hinit⟩ := (parse_eq_some hR htable (by omega)).1 hb
  refine (parse_eq_some hR htable (by rwa [List.length_append])).2 ⟨?_, isInitialized_mergeFrom hinit⟩
  have hfirst : ReflTransGen (Reads R) (new t.fields, a ++ b) (ma, b) :=
    ha.lift (fun x => (x.1, x.2 ++ b)) fun _ _ hstep => Reads.append hR hstep b
  have hsecond : ReadsAll R (ma.mergeFrom (new _)) b (ma.mergeFrom mb) :=
    hb.lift (fun x => (ma.mergeFrom x.1, x.2)) fun _ _ hstep => Reads.mergeFrom hstep
  rw [mergeFrom_new] at hsecond
  exact hfirst.trans hsecond

/-- Two `Quit`s, of the users 5 and 7. -/
theorem parse_concatenation_quits : ∃ ma mb : GeneratedMessage (Nat × Value) MessageType.Quit.fields,
    parseFromArray .reference [8, 5] = some ma ∧ parseFromArray .reference [8, 7] = some mb ∧
      parseFromArray .reference ([8, 5] ++ [8, 7]) = some (ma.mergeFrom mb) :=
  have ha := (Option.some_get (by decide +kernel)).symm
  have hb := (Option.some_get (by decide +kernel)).symm
  ⟨_, _, ha, hb, parse_concatenation Runtime.reference_lawful .Quit (by decide) ha hb⟩

end GeneratedMessage
end ChatReactor
