import Mathlib.Algebra.Group.Nat.Defs
import Mathlib.Data.List.Basic

/-!
# Integers in text

`decimal` is the usual notation of an integer, in bytes: a `-` for a negative one and the digits without leading zeros.
`padded` and `zeroPadded` are what `printf` makes of `%4d` and `%04d`, with the width as a parameter: a text that is
already as long is not cut. `Canonical` says what a text of an integer is without saying how to write it: `decimal` is one,
and reading it gives the integer back (`canonical_decimal`).
-/

namespace Decimal

/-- The byte of an ASCII character. -/
def byteOf (c : Char) : UInt8 := UInt8.ofNat c.toNat

def sign (v : Int) : List UInt8 := if v < 0 then [45] else []

def digits (v : Int) : List UInt8 := (Nat.toDigits 10 v.natAbs).map byteOf

def decimal (v : Int) : List UInt8 := sign v ++ digits v

/-- In base 16, with capital letters. -/
def hexadecimal (n : Nat) : List UInt8 := (Nat.toDigits 16 n).map fun c => byteOf c.toUpper

/-- `%`*width*`d` -/
def padded (width : Nat) (v : Int) : List UInt8 := List.replicate (width - (decimal v).length) 32 ++ decimal v

/-- `%0`*width*`d` -/
def zeroPadded (width : Nat) (v : Int) : List UInt8 :=
  sign v ++ List.replicate (width - (decimal v).length) 48 ++ digits v

theorem length_sign_le (v : Int) : (sign v).length ≤ 1 := by
  unfold sign
  split <;> simp

theorem length_digits_le {v : Int} {k : Nat} (hk : 0 < k) (h : v.natAbs < 10 ^ k) : (digits v).length ≤ k := by
  rw [digits, List.length_map]
  exact (Nat.length_toDigits_le_iff (by decide) hk).2 h

theorem length_decimal_le {v : Int} {k : Nat} (hk : 0 < k) (h : v.natAbs < 10 ^ k) : (decimal v).length ≤ k + 1 := by
  have hsign := length_sign_le v
  have hdigits := length_digits_le hk h
  rw [decimal, List.length_append]
  omega

theorem length_hexadecimal_le {n k : Nat} (hk : 0 < k) (h : n < 16 ^ k) : (hexadecimal n).length ≤ k := by
  rw [hexadecimal, List.length_map]
  exact (Nat.length_toDigits_le_iff (by decide) hk).2 h

theorem length_padded (width : Nat) (v : Int) : (padded width v).length = max width (decimal v).length := by
  rw [padded, List.length_append, List.length_replicate]
  omega

/-! ## The texts are texts: no byte is NUL -/

theorem zero_not_mem_sign (v : Int) : 0 ∉ sign v := by
  unfold sign
  split <;> simp

theorem byteOf_ne_zero {c : Char} (h : c.isDigit) : byteOf c ≠ 0 := by
  have hrange : 48 ≤ c.toNat ∧ c.toNat ≤ 57 := by simpa [Char.isDigit, Char.le_def, UInt32.le_iff_toNat_le] using h
  intro hzero
  have hnat : c.toNat % 256 = 0 := congrArg UInt8.toNat hzero
  omega

theorem zero_not_mem_digits (v : Int) : 0 ∉ digits v := by
  intro hmem
  obtain ⟨c, hc, hzero⟩ := List.mem_map.1 hmem
  exact byteOf_ne_zero (Nat.isDigit_of_mem_toDigits (by decide) (by decide) hc) hzero

theorem zero_not_mem_decimal (v : Int) : 0 ∉ decimal v := by
  simp [decimal, zero_not_mem_sign, zero_not_mem_digits]

theorem zero_not_mem_padded (width : Nat) (v : Int) : 0 ∉ padded width v := by
  simp [padded, zero_not_mem_decimal]

theorem zero_not_mem_zeroPadded (width : Nat) (v : Int) : 0 ∉ zeroPadded width v := by
  simp [zeroPadded, zero_not_mem_sign, zero_not_mem_digits]

/-! ## Reading a text -/

/-- The value of a digit of a base; behind `9` come the capital letters. -/
def digitValue (base : Nat) (c : UInt8) : Option Nat :=
  let n := c.toNat
  if 48 ≤ n ∧ n ≤ 57 ∧ n - 48 < base then some (n - 48)
  else if 65 ≤ n ∧ n ≤ 90 ∧ n - 55 < base then some (n - 55)
  else none

/-- The number that some digits are, at least one. -/
def readNat (base : Nat) (text : List UInt8) : Option Nat :=
  if text = [] then none else text.foldlM (fun n c => (digitValue base c).map (base * n + ·)) 0

def readInt (text : List UInt8) : Option Int :=
  if text.head? = some 45 then (readNat 10 text.tail).map fun n => -(n : Int) else (readNat 10 text).map Int.ofNat

/-- Digits of a base, without leading zeros. -/
structure Numeral (base : Nat) (text : List UInt8) : Prop where
  nonempty : text ≠ []
  digit : ∀ c ∈ text, (digitValue base c).isSome
  lead : text.head? = some 48 → text = [48]

/-- The text of an integer: digits without leading zeros, with a `-` in front of them exactly if it is negative. -/
structure Canonical (v : Int) (text : List UInt8) : Prop where
  numeral : ∃ ds, Numeral 10 ds ∧ text = if v < 0 then 45 :: ds else ds
  value : readInt text = some v

section
variable {base : Nat} {f : Char → UInt8}

/-- A number is a digit, or the last digit stands behind the digits of a positive number. -/
theorem toDigits_induction {P : Nat → List Char → Prop} (hbase : 1 < base) (small : ∀ d < base, P d [Nat.digitChar d])
    (step : ∀ n d l, 0 < n → d < base → l ≠ [] → P n l → P (base * n + d) (l ++ [Nat.digitChar d])) (n : Nat) :
    P n (Nat.toDigits base n) := by
  induction n using Nat.strongRecOn with
  | ind n ih =>
    by_cases hlt : n < base
    · rw [Nat.toDigits_of_lt_base hlt]
      exact small n hlt
    · have hge : base ≤ n := Nat.not_lt.1 hlt
      have hnext := step (n / base) (n % base) _ (Nat.div_pos hge (by omega)) (Nat.mod_lt _ (by omega))
        (List.ne_nil_of_length_pos Nat.length_toDigits_pos) (ih _ (Nat.div_lt_self (by omega) hbase))
      rwa [Nat.div_add_mod, ← Nat.toDigits_of_base_le hbase hge] at hnext

/-- Only zero begins with a zero. -/
theorem eq_zero_of_head (hbase : 1 < base) (hf : ∀ d < base, digitValue base (f (Nat.digitChar d)) = some d) (n : Nat) :
    ((Nat.toDigits base n).map f).head? = some 48 → n = 0 := by
  refine toDigits_induction (P := fun n l => (l.map f).head? = some 48 → n = 0) hbase (fun d hd h => ?_) ?_ n
  · have hzero : digitValue base 48 = some 0 := by
      simp [digitValue]
      omega
    have hdigit := hf d hd
    rw [Option.some.inj h, hzero] at hdigit
    exact (Option.some.inj hdigit).symm
  · intro n d l hpos _ hne ih h
    rw [List.map_append, List.head?_append_of_ne_nil _ (by simpa using hne)] at h
    exact absurd (ih h) (Nat.ne_of_gt hpos)

/-- The digits that `f` writes are read as what they are. -/
theorem readNat_toDigits (hbase : 1 < base) (hf : ∀ d < base, digitValue base (f (Nat.digitChar d)) = some d) (n : Nat) :
    readNat base ((Nat.toDigits base n).map f) = some n := by
  have hne : (Nat.toDigits base n).map f ≠ [] :=
    List.ne_nil_of_length_pos (by rw [List.length_map]; exact Nat.length_toDigits_pos)
  rw [readNat, if_neg hne]
  refine toDigits_induction (P := fun n l => (l.map f).foldlM _ 0 = some n) hbase (fun d hd => ?_) ?_ n
  · simp [hf d hd]
  · intro n d l _ hd _ ih
    rw [List.map_append, List.foldlM_append, ih]
    simp [hf d hd]

theorem numeral_toDigits (hbase : 1 < base) (hf : ∀ d < base, digitValue base (f (Nat.digitChar d)) = some d) (n : Nat) :
    Numeral base ((Nat.toDigits base n).map f) where
  nonempty := List.ne_nil_of_length_pos (by rw [List.length_map]; exact Nat.length_toDigits_pos)
  digit := by
    refine toDigits_induction (P := fun _ l => ∀ c ∈ l.map f, (digitValue base c).isSome) hbase (fun d hd => ?_) ?_ n
    · simp [hf d hd]
    · intro n d l _ hd _ ih
      rw [List.map_append, List.forall_mem_append]
      exact ⟨ih, by simp [hf d hd]⟩
  lead h := by
    obtain rfl := eq_zero_of_head hbase hf n h
    rw [Nat.toDigits_of_lt_base (by omega)] at h ⊢
    exact congrArg (fun c => [c]) (Option.some.inj h)

end

theorem digitValue_byteOf : ∀ d < 10, digitValue 10 (byteOf (Nat.digitChar d)) = some d := by decide

theorem digitValue_toUpper : ∀ d < 16, digitValue 16 (byteOf (Nat.digitChar d).toUpper) = some d := by decide

theorem canonical_decimal (v : Int) : Canonical v (decimal v) := by
  have hnumeral : Numeral 10 (digits v) := numeral_toDigits (by decide) digitValue_byteOf v.natAbs
  have hread : readNat 10 (digits v) = some v.natAbs := readNat_toDigits (by decide) digitValue_byteOf v.natAbs
  by_cases hneg : v < 0
  · have hdecimal : decimal v = 45 :: digits v := by simp [decimal, sign, hneg]
    refine ⟨⟨digits v, hnumeral, by rw [if_pos hneg, hdecimal]⟩, ?_⟩
    rw [hdecimal, readInt, List.head?_cons, if_pos rfl, List.tail_cons, hread]
    exact congrArg some (by omega : -(v.natAbs : Int) = v)
  · have hdecimal : decimal v = digits v := by simp [decimal, sign, hneg]
    have hhead : (digits v).head? ≠ some 45 := by
      intro h
      exact absurd (hnumeral.digit 45 (List.mem_of_head? h)) (by decide)
    refine ⟨⟨digits v, hnumeral, by rw [if_neg hneg, hdecimal]⟩, ?_⟩
    rw [hdecimal, readInt, if_neg hhead, hread]
    exact congrArg some (by omega : (v.natAbs : Int) = v)

theorem numeral_hexadecimal (n : Nat) : Numeral 16 (hexadecimal n) := numeral_toDigits (by decide) digitValue_toUpper n

theorem readNat_hexadecimal (n : Nat) : readNat 16 (hexadecimal n) = some n :=
  readNat_toDigits (by decide) digitValue_toUpper n

end Decimal
