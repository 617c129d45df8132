import Mathlib.Data.Int.ModEq
import Mathlib.Data.Nat.Prime.Int
import Mathlib.Tactic.NormNum.Prime
import Mathlib.Tactic.LinearCombination
import ChatReactor.Lib.NetOrder

/-!
# What an Adler-32 sum detects

The sum is a pair: of the bytes, and of these sums, both modulo the prime 65521. `distance` counts the places in which two
strings of the same length differ. Bytes with their sum behind them have distance at least 2 from any other such string,
and 3 as long as there are fewer than 65521 bytes (`two_le_distance`, `three_le_distance`).
-/

namespace Adler

open NetOrder

/-! ## Places that differ -/

/-- The number of places in which strings of the same length differ. -/
def distance : List UInt8 → List UInt8 → Nat
  | x :: xs, y :: ys => (if x = y then 0 else 1) + distance xs ys
  | _, _ => 0

theorem distance_append : ∀ {xs ys : List UInt8} (_ : xs.length = ys.length) (xs' ys' : List UInt8),
    distance (xs ++ xs') (ys ++ ys') = distance xs ys + distance xs' ys'
  | [], [], _, xs', ys' => by simp [distance]
  | x :: xs, y :: ys, h, xs', ys' => by
    have ih := distance_append (Nat.succ.inj h) xs' ys'
    simp only [List.cons_append, distance, ih, Nat.add_assoc]

theorem eq_of_distance_eq_zero : ∀ {xs ys : List UInt8}, xs.length = ys.length → distance xs ys = 0 → xs = ys
  | [], [], _, _ => rfl
  | x :: xs, y :: ys, hlen, h => by
    rw [distance] at h
    split at h
    case isTrue hxy => rw [hxy, eq_of_distance_eq_zero (Nat.succ.inj hlen) (by omega)]
    case isFalse => omega

theorem distance_pos {xs ys : List UInt8} (hlen : xs.length = ys.length) (h : xs ≠ ys) : 0 < distance xs ys :=
  Nat.pos_iff_ne_zero.2 fun hzero => h (eq_of_distance_eq_zero hlen hzero)

theorem distance_self (xs : List UInt8) : distance xs xs = 0 := by
  induction xs with
  | nil => rfl
  | cons x xs ih => simp [distance, ih]

/-- The first place that differs. -/
theorem first_difference : ∀ {xs ys : List UInt8}, xs.length = ys.length → 0 < distance xs ys →
    ∃ p x y xs' ys', xs = p ++ x :: xs' ∧ ys = p ++ y :: ys' ∧ x ≠ y ∧ xs'.length = ys'.length ∧
      distance xs ys = 1 + distance xs' ys'
  | [], [], _, h => absurd h (Nat.lt_irrefl 0)
  | x :: xs, y :: ys, hlen, h => by
    by_cases hxy : x = y
    · subst hxy
      have hrest : distance (x :: xs) (x :: ys) = distance xs ys := by simp [distance]
      obtain ⟨p, a, b, xs', ys', rfl, rfl, hab, hlen', hd⟩ := first_difference (Nat.succ.inj hlen) (hrest ▸ h)
      exact ⟨x :: p, a, b, xs', ys', rfl, rfl, hab, hlen', hrest.trans hd⟩
    · exact ⟨[], x, y, xs, ys, rfl, rfl, hxy, Nat.succ.inj hlen, by simp [distance, hxy]⟩

/-! ## The two sums -/

def step (s : Nat × Nat) (b : UInt8) : Nat × Nat := ((s.1 + b.toNat) % 65521, (s.2 + (s.1 + b.toNat)) % 65521)

def sums (bs : List UInt8) : Nat × Nat := bs.foldl step (1, 0)

/-- The second sum in the high half. -/
def value (bs : List UInt8) : Nat := (sums bs).2 * 65536 + (sums bs).1

theorem sums_lt (bs : List UInt8) : (sums bs).1 < 65521 ∧ (sums bs).2 < 65521 := by
  induction bs using List.reverseRecOn with
  | nil => decide
  | append_singleton bs b _ =>
    rw [sums, List.foldl_concat]
    exact ⟨Nat.mod_lt _ (by decide), Nat.mod_lt _ (by decide)⟩

def total (bs : List UInt8) : Int := (bs.map fun b => (b.toNat : Int)).sum

/-- Each byte is in the first sum from its place on. -/
def weighted : List UInt8 → Int
  | [] => 0
  | b :: bs => (bs.length + 1) * b.toNat + weighted bs

theorem total_cons (x : UInt8) (xs : List UInt8) : total (x :: xs) = x.toNat + total xs := by simp [total]

theorem foldl_step (bs : List UInt8) (s : Nat × Nat) :
    ((bs.foldl step s).1 : Int) ≡ s.1 + total bs [ZMOD 65521] ∧
      ((bs.foldl step s).2 : Int) ≡ s.2 + bs.length * s.1 + weighted bs [ZMOD 65521] := by
  induction bs generalizing s with
  | nil => simp [total, weighted]
  | cons b bs ih =>
    obtain ⟨h1, h2⟩ := ih (step s b)
    have hone : ((step s b).1 : Int) ≡ s.1 + b.toNat [ZMOD 65521] := by
      simp only [step, Int.natCast_mod]
      exact Int.mod_modEq _ _
    have htwo : ((step s b).2 : Int) ≡ s.2 + (s.1 + b.toNat) [ZMOD 65521] := by
      simp only [step, Int.natCast_mod]
      exact Int.mod_modEq _ _
    constructor
    · calc ((bs.foldl step (step s b)).1 : Int) ≡ (step s b).1 + total bs [ZMOD 65521] := h1
        _ ≡ s.1 + b.toNat + total bs [ZMOD 65521] := hone.add_right _
        _ = s.1 + total (b :: bs) := by rw [total_cons, add_assoc]
    · calc ((bs.foldl step (step s b)).2 : Int) ≡ (step s b).2 + bs.length * (step s b).1 + weighted bs [ZMOD 65521] := h2
        _ ≡ s.2 + (s.1 + b.toNat) + bs.length * (s.1 + b.toNat) + weighted bs [ZMOD 65521] :=
          (htwo.add (hone.mul_left _)).add_right _
        _ = s.2 + ((b :: bs).length : Nat) * s.1 + weighted (b :: bs) := by
          simp only [weighted, List.length_cons]
          push_cast
          ring

theorem total_append (xs ys : List UInt8) : total (xs ++ ys) = total xs + total ys := by simp [total]

theorem weighted_append (xs ys : List UInt8) : weighted (xs ++ ys) = weighted xs + ys.length * total xs + weighted ys := by
  induction xs with
  | nil => simp [weighted, total]
  | cons x xs ih =>
    simp only [List.cons_append, weighted, ih, List.length_append, total_cons]
    push_cast
    ring

theorem sums_modEq (bs : List UInt8) :
    ((sums bs).1 : Int) ≡ 1 + total bs [ZMOD 65521] ∧ ((sums bs).2 : Int) ≡ bs.length + weighted bs [ZMOD 65521] := by
  simpa [sums] using foldl_step bs (1, 0)

section
variable {xs ys : List UInt8}

theorem dvd_total (h : (sums xs).1 = (sums ys).1) : (65521 : Int) ∣ total xs - total ys := by
  have hx := (sums_modEq xs).1
  rw [h] at hx
  have hdvd := ((sums_modEq ys).1.symm.trans hx).dvd
  rwa [add_sub_add_left_eq_sub] at hdvd

theorem dvd_weighted (hlen : xs.length = ys.length) (h : (sums xs).2 = (sums ys).2) :
    (65521 : Int) ∣ weighted xs - weighted ys := by
  have hx := (sums_modEq xs).2
  rw [h, hlen] at hx
  have hdvd := ((sums_modEq ys).2.symm.trans hx).dvd
  rwa [add_sub_add_left_eq_sub] at hdvd

/-- Bytes are too small for a difference that the prime divides. -/
theorem not_dvd_sub {x y : UInt8} (h : x ≠ y) : ¬ (65521 : Int) ∣ (x.toNat : Int) - y.toNat := by
  have hne : x.toNat ≠ y.toNat := fun heq => h (UInt8.toNat_inj.1 heq)
  have hx := x.toNat_lt
  have hy := y.toNat_lt
  omega

theorem not_dvd_mul {k d : Int} (hk : ¬ (65521 : Int) ∣ k) (hd : ¬ (65521 : Int) ∣ d) : ¬ (65521 : Int) ∣ k * d := by
  have hprime : Prime ((65521 : Nat) : Int) := Nat.prime_iff_prime_int.1 (by norm_num)
  intro h
  rcases hprime.dvd_or_dvd h with h | h
  · exact hk h
  · exact hd h

/-- One byte is changed: the first sum shows it, and the second as well if it is near enough to the end. -/
theorem sums_ne_of_one (hlen : xs.length = ys.length) (h : distance xs ys = 1) :
    (sums xs).1 ≠ (sums ys).1 ∧ (xs.length < 65521 → (sums xs).2 ≠ (sums ys).2) := by
  obtain ⟨p, x, y, xs', ys', rfl, rfl, hxy, hlen', hd⟩ := first_difference hlen (by omega)
  obtain rfl : xs' = ys' := eq_of_distance_eq_zero hlen' (by omega)
  constructor
  · intro heq
    have hdvd := dvd_total heq
    rw [total_append, total_append, total_cons, total_cons] at hdvd
    exact not_dvd_sub hxy (by convert hdvd using 1; ring)
  · intro hshort heq
    have hdvd := dvd_weighted hlen heq
    simp only [weighted_append, weighted, List.length_cons] at hdvd
    rw [List.length_append, List.length_cons] at hshort
    refine not_dvd_mul (k := (xs'.length : Int) + 1) (by omega) (not_dvd_sub hxy) ?_
    convert hdvd using 1
    ring

/-- Two bytes are changed: one of the sums shows it. -/
theorem sums_ne_of_two (hlen : xs.length = ys.length) (h : distance xs ys = 2) (hshort : xs.length < 65521) :
    (sums xs).1 ≠ (sums ys).1 ∨ (sums xs).2 ≠ (sums ys).2 := by
  obtain ⟨p, x, y, xs', ys', rfl, rfl, hxy, hlen', hd⟩ := first_difference hlen (by omega)
  obtain ⟨q, x', y', xs'', ys'', rfl, rfl, hxy', hlen'', hd'⟩ := first_difference hlen' (by omega)
  obtain rfl : xs'' = ys'' := eq_of_distance_eq_zero hlen'' (by omega)
  by_contra hboth
  obtain ⟨h1, h2⟩ := not_or.1 hboth
  have htotal := dvd_total (not_not.1 h1)
  have hweighted := dvd_weighted hlen (not_not.1 h2)
  simp only [total_append, total_cons] at htotal
  simp only [weighted_append, weighted, List.length_append, List.length_cons] at hweighted
  simp only [List.length_append, List.length_cons] at hshort
  -- the changes cancel in the first sum, so in the second there remains one of them times their distance
  have hcancel : (x'.toNat : Int) - y'.toNat = - ((x.toNat : Int) - y.toNat) := by
    have hx := x.toNat_lt
    have hy := y.toNat_lt
    have hx' := x'.toNat_lt
    have hy' := y'.toNat_lt
    omega
  refine not_dvd_mul (k := (q.length : Int) + 1) (by omega) (not_dvd_sub hxy) ?_
  convert hweighted using 1
  push_cast
  linear_combination -((xs''.length : Int) + 1) * hcancel

end

/-! ## Bytes with their sum -/

theorem netBytes_value (bs : List UInt8) : netBytes 4 (value bs) = netBytes 2 (sums bs).2 ++ netBytes 2 (sums bs).1 := by
  obtain ⟨h1, h2⟩ := sums_lt bs
  have hhigh : value bs / 256 / 256 = (sums bs).2 := by
    rw [value]
    omega
  have hmiddle : UInt8.ofNat (value bs / 256) = UInt8.ofNat ((sums bs).1 / 256) := by
    apply UInt8.toNat_inj.1
    rw [UInt8.toNat_ofNat', UInt8.toNat_ofNat', value]
    omega
  have hlow : UInt8.ofNat (value bs) = UInt8.ofNat (sums bs).1 := by
    apply UInt8.toNat_inj.1
    rw [UInt8.toNat_ofNat', UInt8.toNat_ofNat', value]
    omega
  have hfour : netBytes 4 (value bs) =
      netBytes 2 (value bs / 256 / 256) ++ [UInt8.ofNat (value bs / 256)] ++ [UInt8.ofNat (value bs)] := rfl
  have htwo : netBytes 2 (sums bs).1 = [UInt8.ofNat ((sums bs).1 / 256), UInt8.ofNat (sums bs).1] := rfl
  rw [hfour, htwo, hhigh, hmiddle, hlow, List.append_assoc]
  rfl

theorem distance_netBytes {a b : Nat} (ha : a < 65521) (hb : b < 65521) (h : a ≠ b) :
    0 < distance (netBytes 2 a) (netBytes 2 b) := by
  refine distance_pos (by simp) fun heq => h ?_
  have hvalue := congrArg netValue heq
  rw [netValue_netBytes, netValue_netBytes] at hvalue
  omega

/-- Bytes with their sum behind them. -/
def protect (bs : List UInt8) : List UInt8 := bs ++ netBytes 4 (value bs)

theorem distance_protect {xs ys : List UInt8} (hlen : xs.length = ys.length) :
    distance (protect xs) (protect ys) = distance xs ys +
      (distance (netBytes 2 (sums xs).2) (netBytes 2 (sums ys).2) + distance (netBytes 2 (sums xs).1) (netBytes 2 (sums ys).1)) := by
  rw [protect, protect, distance_append hlen, netBytes_value, netBytes_value, distance_append (by simp)]

/-- **One changed byte is detected.** -/
theorem two_le_distance {xs ys : List UInt8} (hlen : xs.length = ys.length) (h : xs ≠ ys) :
    2 ≤ distance (protect xs) (protect ys) := by
  have hpos := distance_pos hlen h
  rw [distance_protect hlen]
  by_cases hone : distance xs ys = 1
  · have hsum := distance_netBytes (sums_lt xs).1 (sums_lt ys).1 (sums_ne_of_one hlen hone).1
    omega
  · omega

/-- **Two changed bytes are detected**, if there are not too many. -/
theorem three_le_distance {xs ys : List UInt8} (hlen : xs.length = ys.length) (h : xs ≠ ys) (hshort : xs.length < 65521) :
    3 ≤ distance (protect xs) (protect ys) := by
  have hpos := distance_pos hlen h
  rw [distance_protect hlen]
  by_cases hone : distance xs ys = 1
  · obtain ⟨h1, h2⟩ := sums_ne_of_one hlen hone
    have hsum := distance_netBytes (sums_lt xs).1 (sums_lt ys).1 h1
    have hsum' := distance_netBytes (sums_lt xs).2 (sums_lt ys).2 (h2 hshort)
    omega
  by_cases htwo : distance xs ys = 2
  · rcases sums_ne_of_two hlen htwo hshort with h1 | h2
    · have hsum := distance_netBytes (sums_lt xs).1 (sums_lt ys).1 h1
      omega
    · have hsum := distance_netBytes (sums_lt xs).2 (sums_lt ys).2 h2
      omega
  · omega

end Adler
