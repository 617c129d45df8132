import Mathlib.Algebra.Order.Group.Nat
import Mathlib.Data.List.Basic

/-!
# Readers and tagged values

A reader takes a value off the front of its input. A message on the wire is a sequence of fields: a tag, which is a field
number and a wire type, and a value. A varint has seven bits of its number in each byte, the lowest first, and the high bit
of a byte says that there is another one; a counted value is a run of bytes behind its length. The other wire types, which
are fixed sizes and groups, are refused.

What was written is read back (`readVarint_varint`, `readValue_encode`); what is read can be written, and is not longer then
(`readVarint_size`, `readValue_some`).
-/

namespace WireFormat

/-- A reader takes a value off the front of its input. -/
abbrev Reader (α : Type) := List UInt8 → Option (α × List UInt8)

/-- What a reader returns depends on the bytes it takes, of which there is at least one. -/
def Local {α : Type} (read : Reader α) : Prop :=
  ∀ bs a rest, read bs = some (a, rest) → ∃ used, used ≠ [] ∧ bs = used ++ rest ∧ ∀ t, read (used ++ t) = some (a, t)

variable {bs rest : List UInt8}

theorem Local.append {α : Type} {read : Reader α} (h : Local read) {a : α} (hread : read bs = some (a, rest))
    (t : List UInt8) : read (bs ++ t) = some (a, rest ++ t) := by
  obtain ⟨used, -, rfl, hused⟩ := h _ _ _ hread
  rw [List.append_assoc, hused]

theorem Local.shorter {α : Type} {read : Reader α} (h : Local read) {a : α} (hread : read bs = some (a, rest)) :
    rest.length < bs.length := by
  obtain ⟨used, hne, rfl, -⟩ := h _ _ _ hread
  have hpos := List.length_pos_iff.2 hne
  rw [List.length_append]
  omega

theorem Local.map {α β : Type} {read : Reader α} (h : Local read) (f : α → β) :
    Local fun bs => (read bs).map fun x => (f x.1, x.2) := by
  intro bs b rest hb
  obtain ⟨⟨a, rest'⟩, ha, hx⟩ := Option.map_eq_some_iff.1 hb
  cases hx
  obtain ⟨used, hne, rfl, hused⟩ := h _ _ _ ha
  exact ⟨used, hne, rfl, fun t => by simp [hused]⟩

/-! ## Varints -/

/-- At most `k + 1` bytes of seven bits each, the lowest first; all but the last have the high bit set. -/
def varintLoop : Nat → Nat → List UInt8
  | 0, n => [UInt8.ofNat n]
  | k + 1, n => if n < 128 then [UInt8.ofNat n] else UInt8.ofNat (n % 128 + 128) :: varintLoop k (n / 128)

/-- Ten bytes are enough for 64 bits. -/
def varint (n : Nat) : List UInt8 := varintLoop 9 n

/-- There is no end within `k` bytes: `none`. -/
def readVarintLoop : Nat → Reader Nat
  | 0, _ => none
  | _ + 1, [] => none
  | k + 1, b :: bs =>
    if b.toNat < 128 then some (b.toNat, bs)
    else (readVarintLoop k bs).map fun x => (b.toNat - 128 + 128 * x.1, x.2)

/-- The low `w` bits of a varint of at most ten bytes. -/
def readVarint (w : Nat) : Reader Nat := fun bs => (readVarintLoop 10 bs).map fun x => (x.1 % 2 ^ w, x.2)

theorem varintLoop_ne_nil (k n : Nat) : varintLoop k n ≠ [] := by
  cases k with
  | zero => simp [varintLoop]
  | succ k =>
    rw [varintLoop]
    split <;> simp

theorem readVarintLoop_varintLoop (k : Nat) {n : Nat} (hn : n < 128 ^ (k + 1)) (t : List UInt8) :
    readVarintLoop (k + 1) (varintLoop k n ++ t) = some (n, t) := by
  induction k generalizing n with
  | zero =>
    have hbyte : (UInt8.ofNat n).toNat = n := by rw [UInt8.toNat_ofNat']; omega
    simp [varintLoop, readVarintLoop, hbyte, show n < 128 by omega]
  | succ k ih =>
    rw [varintLoop]
    split
    case isTrue hlt =>
      have hbyte : (UInt8.ofNat n).toNat = n := by rw [UInt8.toNat_ofNat']; omega
      simp [readVarintLoop, hbyte, hlt]
    case isFalse hge =>
      have hbyte : (UInt8.ofNat (n % 128 + 128)).toNat = n % 128 + 128 := by rw [UInt8.toNat_ofNat']; omega
      have hrest : n / 128 < 128 ^ (k + 1) := by
        rw [Nat.div_lt_iff_lt_mul (by decide)]
        rwa [Nat.pow_succ] at hn
      simp only [List.cons_append, readVarintLoop, hbyte, ih hrest, Option.map_some]
      rw [if_neg (by omega)]
      congr 2
      omega

theorem readVarint_varint (w : Nat) {n : Nat} (hn : n < 2 ^ 64) (t : List UInt8) :
    readVarint w (varint n ++ t) = some (n % 2 ^ w, t) := by
  rw [readVarint, varint, readVarintLoop_varintLoop 9 (Nat.lt_trans hn (by decide)), Option.map_some]

theorem readVarintLoop_local (k : Nat) : Local (readVarintLoop k) := by
  induction k with
  | zero =>
    intro bs a rest h
    cases h
  | succ k ih =>
    intro bs a rest h
    cases bs with
    | nil => cases h
    | cons b bs =>
      rw [readVarintLoop] at h
      split at h
      case isTrue hlt =>
        cases h
        exact ⟨[b], List.cons_ne_nil _ _, rfl, fun t => by simp [readVarintLoop, hlt]⟩
      case isFalse hge =>
        obtain ⟨⟨n, rest'⟩, hn, hx⟩ := Option.map_eq_some_iff.1 h
        cases hx
        obtain ⟨used, -, rfl, hused⟩ := ih _ _ _ hn
        exact ⟨b :: used, List.cons_ne_nil _ _, rfl, fun t => by simp [readVarintLoop, hge, hused]⟩

theorem readVarint_local (w : Nat) : Local (readVarint w) := (readVarintLoop_local 10).map (· % 2 ^ w)

theorem length_varintLoop_le {k j : Nat} (hj : j < k) (n : Nat) : (varintLoop k n).length ≤ j + 1 ↔ n < 128 ^ (j + 1) := by
  induction k generalizing j n with
  | zero => omega
  | succ k ih =>
    rw [varintLoop]
    split
    case isTrue hlt =>
      have hle : 128 ^ 1 ≤ 128 ^ (j + 1) := Nat.pow_le_pow_right (by decide) (by omega)
      simp only [List.length_singleton]
      omega
    case isFalse hge =>
      cases j with
      | zero =>
        have hpos := List.length_pos_iff.2 (varintLoop_ne_nil k (n / 128))
        simp only [List.length_cons]
        omega
      | succ j =>
        rw [List.length_cons, Nat.add_le_add_iff_right, ih (by omega), Nat.div_lt_iff_lt_mul (by decide), ← Nat.pow_succ]

theorem length_varintLoop (k n : Nat) : (varintLoop k n).length ≤ k + 1 := by
  induction k generalizing n with
  | zero => exact Nat.le_refl 1
  | succ k ih =>
    rw [varintLoop]
    split
    · exact Nat.succ_le_succ (Nat.zero_le _)
    · exact Nat.succ_le_succ (ih _)

/-- The bytes read say how large the number can be. -/
theorem readVarintLoop_lt {k : Nat} {n : Nat} (h : readVarintLoop k bs = some (n, rest)) :
    ∃ j < k, bs.length = j + 1 + rest.length ∧ n < 128 ^ (j + 1) := by
  induction k generalizing bs n rest with
  | zero => cases h
  | succ k ih =>
    cases bs with
    | nil => cases h
    | cons b bs =>
      rw [readVarintLoop] at h
      split at h
      case isTrue hlt =>
        cases h
        exact ⟨0, Nat.succ_pos k, by simp; omega, by simpa using hlt⟩
      case isFalse hge =>
        obtain ⟨⟨n', rest'⟩, hn, hx⟩ := Option.map_eq_some_iff.1 h
        cases hx
        obtain ⟨j, hj, hlen, hlt⟩ := ih hn
        have hb := b.toNat_lt
        refine ⟨j + 1, Nat.succ_lt_succ hj, by simp; omega, ?_⟩
        rw [Nat.pow_succ]
        omega

section
variable {w n : Nat} {bs rest : List UInt8}

theorem readVarint_lt (h : readVarint w bs = some (n, rest)) : n < 2 ^ w := by
  obtain ⟨x, -, hx⟩ := Option.map_eq_some_iff.1 h
  cases hx
  exact Nat.mod_lt _ (Nat.two_pow_pos w)

/-- A number that was read is not longer when it is written. -/
theorem readVarint_size (h : readVarint w bs = some (n, rest)) : (varint n).length + rest.length ≤ bs.length := by
  obtain ⟨⟨m, rest'⟩, hm, hx⟩ := Option.map_eq_some_iff.1 h
  cases hx
  obtain ⟨j, hj, hlen, hlt⟩ := readVarintLoop_lt hm
  have hshort : (varint (m % 2 ^ w)).length ≤ j + 1 := by
    by_cases hnine : j < 9
    · exact (length_varintLoop_le hnine _).2 (Nat.lt_of_le_of_lt (Nat.mod_le _ _) hlt)
    · have hten : (varint (m % 2 ^ w)).length ≤ 10 := length_varintLoop 9 _
      omega
  show (varint (m % 2 ^ w)).length + rest'.length ≤ bs.length
  omega

end

/-! ## Counted bytes -/

/-- A run of bytes behind its length, which is an `int` that is not negative. -/
def readCounted : Reader (List UInt8) := fun bs =>
  (readVarint 32 bs).bind fun x =>
    if 2 ^ 31 ≤ x.1 ∨ x.2.length < x.1 then none else some (x.2.take x.1, x.2.drop x.1)

variable {data : List UInt8}

theorem readCounted_counted (hdata : data.length < 2 ^ 31) (t : List UInt8) :
    readCounted (varint data.length ++ (data ++ t)) = some (data, t) := by
  rw [readCounted, readVarint_varint 32 (Nat.lt_trans hdata (by decide)),
    Nat.mod_eq_of_lt (Nat.lt_trans hdata (by decide)), Option.bind_some]
  simp only [List.take_left, List.drop_left]
  rw [if_neg (by simp; omega)]

theorem readCounted_some (h : readCounted bs = some (data, rest)) :
    data.length < 2 ^ 31 ∧ readVarint 32 bs = some (data.length, data ++ rest) := by
  obtain ⟨⟨n, rest'⟩, hn, hx⟩ := Option.bind_eq_some_iff.1 h
  simp only at hx
  split at hx
  case isTrue => cases hx
  case isFalse hfit =>
    cases hx
    have hlen : (rest'.take n).length = n := List.length_take_of_le (by omega)
    rw [hlen, List.take_append_drop]
    exact ⟨by omega, hn⟩

theorem readCounted_local : Local readCounted := by
  intro bs data rest h
  obtain ⟨hlt, hn⟩ := readCounted_some h
  obtain ⟨used, hne, rfl, hused⟩ := readVarint_local 32 _ _ _ hn
  refine ⟨used ++ data, by simp [hne], by simp, fun t => ?_⟩
  rw [List.append_assoc, readCounted, hused, Option.bind_some]
  simp only [List.take_left, List.drop_left]
  rw [if_neg (by simp; omega)]

/-- A run that was read is not longer when it is written. -/
theorem readCounted_size (h : readCounted bs = some (data, rest)) :
    (varint data.length).length + data.length + rest.length ≤ bs.length := by
  have hsize := readVarint_size (readCounted_some h).2
  rw [List.length_append] at hsize
  omega

/-! ## Tags and values -/

/-- The next tag. No tag is 0. -/
def readTag : Reader Nat := fun bs => (readVarint 32 bs).filter fun x => x.1 ≠ 0

inductive Value
  | varint (n : Nat)
  | counted (data : List UInt8)
deriving DecidableEq, Repr

namespace Value

def wireType : Value → Nat
  | .varint _ => 0
  | .counted _ => 2

def encode : Value → List UInt8
  | .varint n => WireFormat.varint n
  | .counted data => WireFormat.varint data.length ++ data

/-- The number or the length fits. -/
def Valid : Value → Prop
  | .varint n => n < 2 ^ 64
  | .counted data => data.length < 2 ^ 31

end Value

/-- The value of a wire type. -/
def readValue : Nat → Reader Value
  | 0, bs => (readVarint 64 bs).map fun x => (.varint x.1, x.2)
  | 2, bs => (readCounted bs).map fun x => (.counted x.1, x.2)
  | _, _ => none

section
variable {bs rest : List UInt8}

theorem readTag_eq_some {t : Nat} : readTag bs = some (t, rest) ↔ readVarint 32 bs = some (t, rest) ∧ t ≠ 0 := by
  rw [readTag, Option.filter_eq_some_iff]
  simp

theorem readTag_local : Local readTag := by
  intro bs t rest h
  obtain ⟨hread, ht⟩ := readTag_eq_some.1 h
  obtain ⟨used, hne, rfl, hused⟩ := readVarint_local 32 _ _ _ hread
  exact ⟨used, hne, rfl, fun b => readTag_eq_some.2 ⟨hused b, ht⟩⟩

theorem readTag_varint {t : Nat} (hpos : 0 < t) (hlt : t < 2 ^ 32) (rest : List UInt8) :
    readTag (varint t ++ rest) = some (t, rest) := by
  refine readTag_eq_some.2 ⟨?_, Nat.pos_iff_ne_zero.1 hpos⟩
  rw [readVarint_varint 32 (Nat.lt_trans hlt (by decide)), Nat.mod_eq_of_lt hlt]

theorem readValue_encode {v : Value} (h : v.Valid) (t : List UInt8) : readValue v.wireType (v.encode ++ t) = some (v, t) := by
  cases v with
  | varint n =>
    rw [Value.wireType, Value.encode, readValue, readVarint_varint 64 h, Nat.mod_eq_of_lt h, Option.map_some]
  | counted data =>
    rw [Value.wireType, Value.encode, readValue, List.append_assoc, readCounted_counted h, Option.map_some]

theorem readValue_local (w : Nat) : Local (readValue w) := by
  intro bs v rest h
  unfold readValue at h ⊢
  split at h
  · exact (readVarint_local 64).map Value.varint _ _ _ h
  · exact readCounted_local.map Value.counted _ _ _ h
  · cases h

/-- **What is read can be written**, in no more bytes. -/
theorem readValue_some {w : Nat} {v : Value} (h : readValue w bs = some (v, rest)) :
    v.wireType = w ∧ v.Valid ∧ v.encode.length + rest.length ≤ bs.length := by
  unfold readValue at h
  split at h
  case h_3 => cases h
  all_goals
    obtain ⟨⟨n, rest'⟩, hn, hx⟩ := Option.map_eq_some_iff.1 h
    cases hx
  · exact ⟨rfl, readVarint_lt hn, readVarint_size hn⟩
  · exact ⟨rfl, (readCounted_some hn).1, by simpa [Value.encode] using readCounted_size hn⟩

end

end WireFormat
