import Mathlib.Algebra.Ring.Int.Defs

/-!
# Arithmetic of the C type `int`

An expression of type `int` has the exact value as long as that fits 32 bits. Signed overflow and a
division by zero are undefined, here `none`. Division truncates towards zero, so that it is the floor only
where the dividend is not negative. `toInt64` is what comes of an overflow in 64 bits on the usual machines.
-/

namespace CheckedInt

/-- In the range of a 32-bit `int`. -/
def Fits (x : Int) : Prop := -2147483648 ≤ x ∧ x ≤ 2147483647

instance : DecidablePred Fits := fun x => inferInstanceAs (Decidable (-2147483648 ≤ x ∧ x ≤ 2147483647))

/-- The value of an `int` expression. -/
def int (x : Int) : Option Int := if Fits x then some x else none

def add (x y : Int) : Option Int := int (x + y)
def sub (x y : Int) : Option Int := int (x - y)
def mul (x y : Int) : Option Int := int (x * y)
def div (x y : Int) : Option Int := if y = 0 then none else int (x.tdiv y)
def mod (x y : Int) : Option Int := if y = 0 then none else int (x.tmod y)

/-- `static_cast<int>` of a wider integer. -/
def toInt (x : Int) : Int := (x + 2147483648) % 4294967296 - 2147483648

theorem toInt_eq {x : Int} (h : -2147483648 ≤ x ∧ x ≤ 2147483647) : toInt x = x := by
  unfold toInt
  omega

/-- A value of 64 bits, wrapped around. -/
def toInt64 (x : Int) : Int := (x + 2 ^ 63) % 2 ^ 64 - 2 ^ 63

theorem toInt64_eq {x : Int} (h : -2 ^ 63 ≤ x ∧ x < 2 ^ 63) : toInt64 x = x := by
  unfold toInt64
  omega

section
variable {α : Type} {x y : Int} {f : Int → Option α}

theorem int_eq (h : -2147483648 ≤ x ∧ x ≤ 2147483647) : int x = some x := if_pos h

theorem int_eq_some_iff : int x = some y ↔ Fits x ∧ x = y := by
  rw [int, Option.ite_none_right_eq_some, Option.some.injEq]

theorem add_eq (h : -2147483648 ≤ x + y ∧ x + y ≤ 2147483647) : add x y = some (x + y) := int_eq h

theorem add_eq_none (h : x + y < -2147483648 ∨ 2147483647 < x + y) : add x y = none := by
  refine if_neg fun hfits => ?_
  have hmin := hfits.1
  have hmax := hfits.2
  omega

theorem sub_eq (h : -2147483648 ≤ x - y ∧ x - y ≤ 2147483647) : sub x y = some (x - y) := int_eq h

theorem mul_eq (h : -2147483648 ≤ x * y ∧ x * y ≤ 2147483647) : mul x y = some (x * y) := int_eq h

theorem div_eq_some_iff {z : Int} : div x y = some z ↔ y ≠ 0 ∧ Fits (x.tdiv y) ∧ x.tdiv y = z := by
  rw [div, Option.ite_none_left_eq_some, int_eq_some_iff]

theorem div_eq (hy : 0 < y) (h : 0 ≤ x ∧ x ≤ 2147483647) : div x y = some (x / y) := by
  have hne : y ≠ 0 := by omega
  have hle : x / y ≤ x := Int.ediv_le_self y h.1
  have hnonneg : 0 ≤ x / y := Int.ediv_nonneg h.1 (by omega)
  rw [div, if_neg hne, Int.tdiv_eq_ediv_of_nonneg h.1]
  exact int_eq (by omega)

theorem mod_eq (hy : 0 < y ∧ y ≤ 2147483647) (h : 0 ≤ x) : mod x y = some (x % y) := by
  have hne : y ≠ 0 := by omega
  have hlt : x % y < y := Int.emod_lt_of_pos x hy.1
  have hnonneg : 0 ≤ x % y := Int.emod_nonneg x hne
  rw [mod, if_neg hne, Int.tmod_eq_emod_of_nonneg h]
  exact int_eq (by omega)

/-! An operation that does not overflow, at the head of a computation. -/

theorem add_bind (h : -2147483648 ≤ x + y ∧ x + y ≤ 2147483647) : (add x y >>= f) = f (x + y) := by
  rw [add_eq h]
  rfl

theorem sub_bind (h : -2147483648 ≤ x - y ∧ x - y ≤ 2147483647) : (sub x y >>= f) = f (x - y) := by
  rw [sub_eq h]
  rfl

theorem mul_bind (h : -2147483648 ≤ x * y ∧ x * y ≤ 2147483647) : (mul x y >>= f) = f (x * y) := by
  rw [mul_eq h]
  rfl

theorem div_bind (hy : 0 < y) (h : 0 ≤ x ∧ x ≤ 2147483647) : (div x y >>= f) = f (x / y) := by
  rw [div_eq hy h]
  rfl

end

end CheckedInt
