import Mathlib.Data.List.Basic
import Mathlib.Data.List.Induction
import Mathlib.Tactic.Ring

/-!
# Network byte order

`netBytes k n` is the `k`-byte big-endian image of `n mod 256^k`; `netValue` reads any number of
bytes back. `int32` is the two's-complement reading of a 32-bit pattern: what an `int32_t` holds
after a 4-byte copy into it.
-/

namespace NetOrder

/-- The `k` low bytes of `n`, most significant first. -/
def netBytes : Nat → Nat → List UInt8
  | 0, _ => []
  | k + 1, n => netBytes k (n / 256) ++ [UInt8.ofNat n]

/-- The number whose base-256 digits, most significant first, are `bs`. -/
def netValue (bs : List UInt8) : Nat := bs.foldl (fun acc b => acc * 256 + b.toNat) 0

@[simp] theorem length_netBytes (k n : Nat) : (netBytes k n).length = k := by
  induction k generalizing n with
  | zero => rfl
  | succ k ih => simp [netBytes, ih]

theorem netValue_concat (bs : List UInt8) (b : UInt8) :
    netValue (bs ++ [b]) = netValue bs * 256 + b.toNat := by
  simp [netValue, List.foldl_append]

theorem netValue_netBytes (k n : Nat) : netValue (netBytes k n) = n % 256 ^ k := by
  induction k generalizing n with
  | zero => simp [netBytes, netValue, Nat.mod_one]
  | succ k ih =>
    have hsplit : n % 256 ^ (k + 1) = n % 256 + 256 * (n / 256 % 256 ^ k) := by
      rw [pow_succ', Nat.mod_mul]
    rw [netBytes, netValue_concat, ih, UInt8.toNat_ofNat', hsplit]
    ring

theorem netBytes_netValue (bs : List UInt8) : netBytes bs.length (netValue bs) = bs := by
  induction bs using List.reverseRecOn with
  | nil => rfl
  | append_singleton bs b ih =>
    have hb : b.toNat < 256 := b.toNat_lt
    have hhigh : (netValue bs * 256 + b.toNat) / 256 = netValue bs := by omega
    have hlow : UInt8.ofNat (netValue bs * 256 + b.toNat) = b := by
      apply UInt8.toNat_inj.1
      rw [UInt8.toNat_ofNat']
      omega
    rw [List.length_append, List.length_singleton, netBytes, netValue_concat, hhigh, ih, hlow]

theorem netValue_lt (bs : List UInt8) : netValue bs < 256 ^ bs.length := by
  have h := netValue_netBytes bs.length (netValue bs)
  rw [netBytes_netValue] at h
  rw [h]
  exact Nat.mod_lt _ (Nat.pow_pos (by omega))

/-- A 32-bit pattern read as a signed integer: the two's-complement wrap onto `[-2^31, 2^31)`. -/
@[irreducible] def int32 (n : Nat) : Int :=
  if n % 4294967296 < 2147483648 then (n % 4294967296 : Nat) else (n % 4294967296 : Nat) - (4294967296 : Int)

theorem int32_of_lt {n : Nat} (h : n < 2147483648) : int32 n = n := by
  unfold int32; split <;> omega

/-- The pattern of a wrapped value is the pattern it was wrapped from. -/
theorem int32_toNat {n : Nat} (h : n < 4294967296) : (int32 n % 4294967296).toNat = n := by
  unfold int32; split <;> omega

/-- Only its own pattern reads as a number that is not negative. -/
theorem eq_of_int32 {n : Nat} (hn : n < 4294967296) (h : 0 ≤ int32 n) : int32 n = n := by
  unfold int32 at *; split <;> omega

end NetOrder
