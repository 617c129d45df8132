import Mathlib.Algebra.Order.Ring.Int
import Mathlib.Algebra.Order.BigOperators.Group.List

/-!
# The proleptic Gregorian calendar

Days are numbered by integers from 1 March of the year 0. Counting years from March puts the leap day at the
end, and then centuries, years and months each begin at a rounded-down multiple: century `b` on day
`⌊146097 b / 4⌋`, year `d` of a century on day `⌊1461 d / 4⌋` of it, month `m` of a year on day
`⌊(153 m + 2) / 5⌋`. Such a staircase and the search in it are adjoint (`stair_le_iff`), and that gives the date back.
-/

namespace Gregorian

/-! ## Rounded multiples -/

/-- Where step `k` begins. -/
def stair (p q r k : Int) : Int := (p * k + r) / q

/-- The step that `n` is on. -/
def stepOf (p q r n : Int) : Int := (q * n + (q - 1 - r)) / p

/-- A Galois connection. -/
theorem stair_le_iff {p q : Int} (hp : 0 < p) (hq : 0 < q) (r k n : Int) : stair p q r k ≤ n ↔ k ≤ stepOf p q r n := by
  unfold stair stepOf
  rw [Int.le_ediv_iff_mul_le hp, ← Int.lt_add_one_iff, Int.ediv_lt_iff_lt_mul hq]
  have hk : k * p = p * k := Int.mul_comm k p
  have hn : (n + 1) * q = q * n + q := by rw [Int.add_mul, Int.one_mul, Int.mul_comm]
  omega

theorem stepOf_eq {p q : Int} (hp : 0 < p) (hq : 0 < q) {r k n : Int} (hle : stair p q r k ≤ n)
    (hlt : n < stair p q r (k + 1)) : stepOf p q r n = k := by
  have h := (stair_le_iff hp hq r k n).1 hle
  have h' := (stair_le_iff hp hq r (k + 1) n).not.1 (by omega)
  omega

theorem stair_stepOf {p q : Int} (hp : 0 < p) (hq : 0 < q) (r n : Int) :
    stair p q r (stepOf p q r n) ≤ n ∧ n < stair p q r (stepOf p q r n + 1) := by
  have h := (stair_le_iff hp hq r (stepOf p q r n) n).2 le_rfl
  have h' := (stair_le_iff hp hq r (stepOf p q r n + 1) n).not.2 (by omega)
  exact ⟨h, by omega⟩

/-! ## Dates -/

structure YearMonthDay where
  year : Int
  month : Int
  day : Int
  deriving DecidableEq, Repr

/-- The rule of 4, 100 and 400. -/
def IsLeap (year : Int) : Prop := year % 4 = 0 ∧ (year % 100 ≠ 0 ∨ year % 400 = 0)

instance : DecidablePred IsLeap := fun year =>
  inferInstanceAs (Decidable (year % 4 = 0 ∧ (year % 100 ≠ 0 ∨ year % 400 = 0)))

def monthLength (year month : Int) : Int :=
  if month = 2 then if IsLeap year then 29 else 28
  else if month = 4 ∨ month = 6 ∨ month = 9 ∨ month = 11 then 30 else 31

namespace YearMonthDay

structure Valid (date : YearMonthDay) : Prop where
  month_pos : 1 ≤ date.month
  month_le : date.month ≤ 12
  day_pos : 1 ≤ date.day
  day_le : date.day ≤ monthLength date.year date.month

instance (date : YearMonthDay) : Decidable date.Valid :=
  decidable_of_iff (1 ≤ date.month ∧ date.month ≤ 12 ∧ 1 ≤ date.day ∧ date.day ≤ monthLength date.year date.month)
    ⟨fun h => ⟨h.1, h.2.1, h.2.2.1, h.2.2.2⟩, fun h => ⟨h.1, h.2, h.3, h.4⟩⟩

/-- The next day. -/
def next (date : YearMonthDay) : YearMonthDay :=
  if date.day < monthLength date.year date.month then { date with day := date.day + 1 }
  else if date.month < 12 then ⟨date.year, date.month + 1, 1⟩
  else ⟨date.year + 1, 1, 1⟩

/-- The days of the year before the date. -/
def dayOfYear (date : YearMonthDay) : Int :=
  ((List.range (date.month - 1).toNat).map fun k : Nat => monthLength date.year (k + 1)).sum + (date.day - 1)

/-! ## Numbering the days -/

/-- The year that began on the last 1 March. -/
def marchYear (date : YearMonthDay) : Int := if date.month ≤ 2 then date.year - 1 else date.year

/-- The month, counted from March as 0. -/
def marchMonth (date : YearMonthDay) : Int := if date.month ≤ 2 then date.month + 9 else date.month - 3

end YearMonthDay

open YearMonthDay

/-- The day on which March-based year `y` begins. -/
def yearStart (y : Int) : Int := 365 * y + y / 4 - y / 100 + y / 400

def dayNumber (date : YearMonthDay) : Int :=
  yearStart date.marchYear + stair 153 5 2 date.marchMonth + (date.day - 1)

def ofDayNumber (n : Int) : YearMonthDay :=
  let b := stepOf 146097 4 0 n
  let c := n - stair 146097 4 0 b
  let d := stepOf 1461 4 0 c
  let e := c - stair 1461 4 0 d
  let m := stepOf 153 5 2 e
  { year := 100 * b + d + m / 10, month := m + 3 - 12 * (m / 10), day := e - stair 153 5 2 m + 1 }

theorem stair_century (b : Int) : stair 146097 4 0 b = 36524 * b + b / 4 := by
  unfold stair
  omega

theorem stair_year (d : Int) : stair 1461 4 0 d = 365 * d + d / 4 := by
  unfold stair
  omega

/-- Centuries, and years in a century. -/
theorem yearStart_eq (y : Int) : yearStart y = stair 146097 4 0 (y / 100) + stair 1461 4 0 (y % 100) := by
  have h4 : y / 4 = 25 * (y / 100) + y % 100 / 4 := by omega
  have h400 : y / 400 = y / 100 / 4 := by omega
  rw [yearStart, stair_century, stair_year]
  omega

variable {date : YearMonthDay}

theorem YearMonthDay.Valid.month_cases (h : date.Valid) :
    date.month = 1 ∨ date.month = 2 ∨ date.month = 3 ∨ date.month = 4 ∨ date.month = 5 ∨ date.month = 6 ∨
      date.month = 7 ∨ date.month = 8 ∨ date.month = 9 ∨ date.month = 10 ∨ date.month = 11 ∨ date.month = 12 := by
  obtain ⟨h1, h12, -, -⟩ := h
  omega

/-- A month is as long as the staircase has it, but for February, the last one. -/
theorem monthLength_eq (h : date.Valid) (hfeb : date.month ≠ 2) :
    monthLength date.year date.month = stair 153 5 2 (date.marchMonth + 1) - stair 153 5 2 date.marchMonth := by
  unfold monthLength stair marchMonth
  rcases h.month_cases with hm | hm | hm | hm | hm | hm | hm | hm | hm | hm | hm | hm
  case inr.inl => exact absurd hm hfeb
  all_goals simp [hm]

theorem february_le (year : Int) : monthLength year 2 ≤ 28 ∨ monthLength year 2 = 29 ∧ IsLeap year := by
  unfold monthLength
  by_cases hleap : IsLeap year <;> simp [hleap]

theorem marchMonth_range (h : date.Valid) : 0 ≤ date.marchMonth ∧ date.marchMonth ≤ 11 := by
  obtain ⟨h1, h12, -, -⟩ := h
  unfold marchMonth
  split_ifs <;> omega

theorem day_le_stair (h : date.Valid) :
    stair 153 5 2 date.marchMonth + date.day ≤ stair 153 5 2 (date.marchMonth + 1) := by
  have hday := h.day_le
  by_cases hfeb : date.month = 2
  · have hle := february_le date.year
    rw [hfeb] at hday
    simp only [marchMonth, hfeb, stair]
    omega
  · rw [monthLength_eq h hfeb] at hday
    omega

/-- A March-based year has 366 days at most, and 365 if the next February has no leap day. -/
theorem marchDay_lt (h : date.Valid) :
    0 ≤ stair 153 5 2 date.marchMonth + (date.day - 1) ∧
      (stair 153 5 2 date.marchMonth + (date.day - 1) ≤ 364 ∨
        stair 153 5 2 date.marchMonth + (date.day - 1) = 365 ∧ IsLeap (date.marchYear + 1)) := by
  obtain ⟨h0, h11⟩ := marchMonth_range h
  have hpos := h.day_pos
  have hstair := day_le_stair h
  refine ⟨by unfold stair; omega, ?_⟩
  by_cases hfeb : date.month = 2
  · have hyear : date.marchYear + 1 = date.year := by simp [marchYear, hfeb]
    have hmonth : date.marchMonth = 11 := by simp [marchMonth, hfeb]
    have hday := h.day_le
    rw [hfeb] at hday
    rw [hyear, hmonth]
    obtain hle | ⟨hle, hleap⟩ := february_le date.year
    · left
      unfold stair
      omega
    · simp only [hleap, and_true]
      unfold stair
      omega
  · have hmonth : date.marchMonth ≤ 10 := by
      obtain ⟨hmin, hmax, -, -⟩ := h
      unfold marchMonth
      split_ifs <;> omega
    left
    unfold stair at hstair ⊢
    omega

/-- The date that year, month and day counted from March make. -/
theorem date_eq (h : date.Valid) :
    date.marchYear + date.marchMonth / 10 = date.year ∧
      date.marchMonth + 3 - 12 * (date.marchMonth / 10) = date.month := by
  obtain ⟨h1, h12, -, -⟩ := h
  unfold marchYear marchMonth
  split_ifs <;> omega

/-- The last year of a century is a leap year only if the century is the last of four. -/
theorem yearDay_lt {y e : Int} (he : e ≤ 364 ∨ e = 365 ∧ IsLeap (y + 1)) :
    stair 1461 4 0 (y % 100) + e < stair 1461 4 0 (y % 100 + 1) ∧
      stair 146097 4 0 (y / 100) + (stair 1461 4 0 (y % 100) + e) < stair 146097 4 0 (y / 100 + 1) := by
  unfold IsLeap at he
  simp only [stair_century, stair_year]
  by_cases hlast : y % 100 = 99
  · rw [hlast]
    constructor <;> omega
  · constructor <;> omega

/-- **The date of a day number is the date that was numbered.** -/
theorem ofDayNumber_dayNumber (h : date.Valid) : ofDayNumber (dayNumber date) = date := by
  obtain ⟨hday0, hday⟩ := marchDay_lt h
  have hstair := day_le_stair h
  obtain ⟨hyear, hmonth⟩ := date_eq h
  have hpos := h.day_pos
  have hnumber : dayNumber date = stair 146097 4 0 (date.marchYear / 100) +
      (stair 1461 4 0 (date.marchYear % 100) + (stair 153 5 2 date.marchMonth + (date.day - 1))) := by
    rw [dayNumber, yearStart_eq]
    omega
  obtain ⟨hlt, hlt'⟩ := yearDay_lt hday
  have hnonneg : 0 ≤ stair 1461 4 0 (date.marchYear % 100) := by unfold stair; omega
  have hb : stepOf 146097 4 0 (dayNumber date) = date.marchYear / 100 :=
    stepOf_eq (by decide) (by decide) (by omega) (by omega)
  have hd : stepOf 1461 4 0 (dayNumber date - stair 146097 4 0 (date.marchYear / 100)) = date.marchYear % 100 :=
    stepOf_eq (by decide) (by decide) (by omega) (by omega)
  have hm : stepOf 153 5 2 (dayNumber date - stair 146097 4 0 (date.marchYear / 100) -
      stair 1461 4 0 (date.marchYear % 100)) = date.marchMonth :=
    stepOf_eq (by decide) (by decide) (by omega) (by omega)
  simp only [ofDayNumber, hb, hd, hm]
  cases date with
  | mk year month day =>
    simp only [YearMonthDay.mk.injEq]
    simp only at hyear hmonth hnumber
    refine ⟨?_, hmonth, ?_⟩ <;> omega

/-- And conversely a day that is not past the century is a leap day only in a leap year. -/
theorem yearDay_leap {b d e : Int} (hd : 0 ≤ d ∧ d ≤ 99) (hlt : stair 1461 4 0 d + e < stair 1461 4 0 (d + 1))
    (hlt' : stair 146097 4 0 b + (stair 1461 4 0 d + e) < stair 146097 4 0 (b + 1)) :
    e ≤ 364 ∨ e = 365 ∧ IsLeap (100 * b + d + 1) := by
  simp only [stair_century, stair_year] at hlt hlt'
  unfold IsLeap
  by_cases hlast : d = 99
  · subst hlast
    omega
  · have h100 : (100 * b + d + 1) % 100 = d + 1 := by omega
    have h4 : (100 * b + d + 1) % 4 = (d + 1) % 4 := by omega
    rw [h100, h4]
    omega

/-- What the three searches of `ofDayNumber` find: a March-based year and a day of it, a leap day only in a leap
year, and the month of that day. -/
theorem ofDayNumber_march (n : Int) : ∃ y m e : Int,
    ofDayNumber n = ⟨y + m / 10, m + 3 - 12 * (m / 10), e - stair 153 5 2 m + 1⟩ ∧ n = yearStart y + e ∧
      0 ≤ m ∧ m ≤ 11 ∧ stair 153 5 2 m ≤ e ∧ e < stair 153 5 2 (m + 1) ∧ (e ≤ 364 ∨ e = 365 ∧ IsLeap (y + 1)) := by
  obtain ⟨hb, hb'⟩ := stair_stepOf (p := 146097) (q := 4) (by decide) (by decide) 0 n
  generalize hbdef : stepOf 146097 4 0 n = b at hb hb'
  obtain ⟨c, rfl⟩ : ∃ c, n = stair 146097 4 0 b + c := ⟨n - stair 146097 4 0 b, by omega⟩
  obtain ⟨hd, hd'⟩ := stair_stepOf (p := 1461) (q := 4) (by decide) (by decide) 0 c
  generalize hddef : stepOf 1461 4 0 c = d at hd hd'
  obtain ⟨e, rfl⟩ : ∃ e, c = stair 1461 4 0 d + e := ⟨c - stair 1461 4 0 d, by omega⟩
  obtain ⟨hm, hm'⟩ := stair_stepOf (p := 153) (q := 5) (by decide) (by decide) 2 e
  generalize hmdef : stepOf 153 5 2 e = m at hm hm'
  -- the year of the century, then the day of the year
  have hdrange : 0 ≤ d ∧ d ≤ 99 := by
    simp only [stair_century, stair_year] at *
    omega
  have he := yearDay_leap hdrange hd' hb'
  have hmrange : 0 ≤ m ∧ m ≤ 11 := by
    unfold stair at hm hm'
    omega
  refine ⟨100 * b + d, m, e, ?_, ?_, hmrange.1, hmrange.2, hm, hm', he⟩
  · simp only [ofDayNumber, hbdef, add_sub_cancel_left, hddef, hmdef]
  · have hdiv : (100 * b + d) / 100 = b := by omega
    have hmod : (100 * b + d) % 100 = d := by omega
    rw [yearStart_eq, hdiv, hmod]
    omega

/-- **Every day has a date.** -/
theorem ofDayNumber_valid (n : Int) : (ofDayNumber n).Valid := by
  obtain ⟨y, m, e, heq, -, h0, h11, hm, hm', he⟩ := ofDayNumber_march n
  rw [heq]
  unfold stair at hm hm' ⊢
  refine ⟨?_, ?_, ?_, ?_⟩
  · show 1 ≤ m + 3 - 12 * (m / 10)
    omega
  · show m + 3 - 12 * (m / 10) ≤ 12
    omega
  · show 1 ≤ e - (153 * m + 2) / 5 + 1
    omega
  · show e - (153 * m + 2) / 5 + 1 ≤ monthLength (y + m / 10) (m + 3 - 12 * (m / 10))
    obtain rfl | rfl | rfl | rfl | rfl | rfl | rfl | rfl | rfl | rfl | rfl | rfl : m = 0 ∨ m = 1 ∨ m = 2 ∨ m = 3 ∨
      m = 4 ∨ m = 5 ∨ m = 6 ∨ m = 7 ∨ m = 8 ∨ m = 9 ∨ m = 10 ∨ m = 11 := by omega
    all_goals simp [monthLength] at hm hm' he ⊢; try omega
    split_ifs with hleap
    · omega
    · simp only [hleap, and_false, or_false] at he
      omega

/-- **The number of the date of a day is the day.** -/
theorem dayNumber_ofDayNumber (n : Int) : dayNumber (ofDayNumber n) = n := by
  obtain ⟨y, m, e, heq, hn, h0, h11, -, -, -⟩ := ofDayNumber_march n
  have hyear : marchYear ⟨y + m / 10, m + 3 - 12 * (m / 10), e - stair 153 5 2 m + 1⟩ = y := by
    simp only [marchYear]
    split_ifs <;> omega
  have hmonth : marchMonth ⟨y + m / 10, m + 3 - 12 * (m / 10), e - stair 153 5 2 m + 1⟩ = m := by
    simp only [marchMonth]
    split_ifs <;> omega
  rw [heq, dayNumber, hyear, hmonth, hn]
  simp only
  omega

/-- The leap day of a year is the last day of the March-based year before it. -/
theorem yearStart_eq_pred (y : Int) : yearStart y = yearStart (y - 1) + if IsLeap y then 366 else 365 := by
  unfold yearStart IsLeap
  split_ifs <;> omega

/-- **Consecutive days have consecutive numbers.** -/
theorem dayNumber_next (h : date.Valid) : dayNumber date.next = dayNumber date + 1 := by
  have hday := h.day_le
  unfold YearMonthDay.next
  split_ifs with hlt hmonth
  · simp only [dayNumber, marchYear, marchMonth]
    omega
  · -- the last day of a month; the leap day is the last of a March-based year
    have hlast : date.day = monthLength date.year date.month := by omega
    have h1 := h.month_pos
    by_cases hfeb : date.month = 2
    · have hyear := yearStart_eq_pred date.year
      simp only [dayNumber, marchYear, marchMonth, hlast, hfeb, monthLength, stair]
      split_ifs at hyear ⊢ <;> simp at * <;> omega
    · rw [monthLength_eq h hfeb] at hlast
      have hnext : marchMonth ⟨date.year, date.month + 1, 1⟩ = date.marchMonth + 1 := by
        simp only [marchMonth]
        split_ifs <;> omega
      have hyear : marchYear ⟨date.year, date.month + 1, 1⟩ = date.marchYear := by
        simp only [marchYear]
        split_ifs <;> omega
      rw [dayNumber, dayNumber, hnext, hyear]
      simp only
      omega
  · have hdec : date.month = 12 := by have := h.month_le; omega
    have hlen : monthLength date.year 12 = 31 := by simp [monthLength]
    rw [hdec] at hlt hday
    simp only [dayNumber, marchYear, marchMonth, hdec, stair]
    simp
    omega

theorem dayNumber_day (year month day : Int) :
    dayNumber ⟨year, month, day⟩ = dayNumber ⟨year, month, 1⟩ + (day - 1) := by
  simp only [dayNumber, marchYear, marchMonth]
  omega

theorem monthLength_pos (year month : Int) : 1 ≤ monthLength year month := by
  unfold monthLength
  split_ifs <;> omega

theorem next_valid (h : date.Valid) : date.next.Valid := by
  obtain ⟨h1, h12, hday, hday'⟩ := h
  unfold YearMonthDay.next
  split_ifs
  · exact ⟨h1, h12, by simp only; omega, by simp only; omega⟩
  · exact ⟨by simp only; omega, by simp only; omega, le_rfl, monthLength_pos _ _⟩
  · exact ⟨le_rfl, by simp, le_rfl, monthLength_pos _ _⟩

theorem year_le_next (date : YearMonthDay) : date.year ≤ date.next.year := by
  unfold YearMonthDay.next
  split_ifs <;> simp

/-- The first of a month comes after the months before it. -/
theorem dayNumber_month (year : Int) : ∀ k : Nat, k < 12 → dayNumber ⟨year, k + 1, 1⟩ =
    dayNumber ⟨year, 1, 1⟩ + ((List.range k).map fun k : Nat => monthLength year (k + 1)).sum
  | 0, _ => by simp
  | k + 1, hk => by
    have hvalid : Valid ⟨year, k + 1, monthLength year (k + 1)⟩ := by
      refine ⟨?_, ?_, monthLength_pos _ _, le_rfl⟩
      · show 1 ≤ (k : Int) + 1
        omega
      · show (k : Int) + 1 ≤ 12
        omega
    have hnext : YearMonthDay.next ⟨year, k + 1, monthLength year (k + 1)⟩ = ⟨year, k + 1 + 1, 1⟩ := by
      have hlt : (k : Int) + 1 < 12 := by omega
      simp [YearMonthDay.next, hlt]
    have hstep := dayNumber_next hvalid
    rw [hnext, dayNumber_day year (k + 1) (monthLength _ _), dayNumber_month year k (by omega)] at hstep
    push_cast
    rw [hstep, List.range_succ, List.map_append, List.sum_append]
    simp only [List.map_cons, List.map_nil, List.sum_cons, List.sum_nil]
    omega

/-- The day of the year, from the day numbers. -/
theorem dayNumber_sub_newYear (h : date.Valid) : dayNumber date - dayNumber ⟨date.year, 1, 1⟩ = date.dayOfYear := by
  obtain ⟨h1, h12, -, -⟩ := h
  have hmonth := dayNumber_month date.year (date.month - 1).toNat (by omega)
  have hcast : ((date.month - 1).toNat : Int) + 1 = date.month := by omega
  rw [hcast] at hmonth
  have hday : dayNumber date = dayNumber ⟨date.year, date.month, 1⟩ + (date.day - 1) := dayNumber_day _ _ _
  unfold dayOfYear
  omega

theorem dayOfYear_nonneg (h : date.Valid) : 0 ≤ date.dayOfYear := by
  have hmonths : 0 ≤ ((List.range (date.month - 1).toNat).map fun k : Nat => monthLength date.year (k + 1)).sum := by
    refine List.sum_nonneg fun x hx => ?_
    obtain ⟨k, -, rfl⟩ := List.mem_map.1 hx
    have := monthLength_pos date.year (k + 1)
    omega
  have hday := h.day_pos
  unfold dayOfYear
  omega

end Gregorian
