import ChatReactor.Lib.CheckedInt
import ChatReactor.Lib.Gregorian

/-!
# `Date` (`Date.h`, `Date.cc`)

| here | there |
| --- | --- |
| `getJulianDayNumber`, `getYearMonthDay` | the functions of the same name (`Date.cc:16-39`), every `int` operation checked |
| `Date` | the class, with `julianDayNumber_` |
| `Date.weekDay`, `Date.yearMonthDay` | the members (`Date.h:93-97`, `Date.cc:64-67`) |
| `julianDay` | the Julian day number of a calendar date, over all integers |

`none` is an overflow of `int`. `toIsoString` and the comparisons are left out.
-/

namespace ChatReactor

open CheckedInt Gregorian YearMonthDay

def getJulianDayNumber (year month day : Int) : Option Int := do
  let a ← div (← sub 14 month) 12
  let y ← sub (← add year 4800) a
  let m ← sub (← add month (← mul 12 a)) 3
  -- the sum, from left to right
  let days ← add day (← div (← add (← mul 153 m) 2) 5)
  let days ← add days (← mul y 365)
  let days ← add days (← div y 4)
  let days ← sub days (← div y 100)
  let days ← add days (← div y 400)
  sub days 32045

def getYearMonthDay (julianDayNumber : Int) : Option YearMonthDay := do
  let a ← add julianDayNumber 32044
  let b ← div (← add (← mul 4 a) 3) 146097
  let c ← sub a (← div (← mul b 146097) 4)
  let d ← div (← add (← mul 4 c) 3) 1461
  let e ← sub c (← div (← mul 1461 d) 4)
  let m ← div (← add (← mul 5 e) 2) 153
  let day ← add (← sub e (← div (← add (← mul 153 m) 2) 5)) 1
  let month ← sub (← add m 3) (← mul 12 (← div m 10))
  let year ← add (← sub (← add (← mul b 100) d) 4800) (← div m 10)
  return ⟨year, month, day⟩

structure Date where
  julianDayNumber : Int
  deriving DecidableEq, Repr

namespace Date

def kDaysPerWeek : Int := 7

/-- `Date::kJulianDayOf1970_01_01`; nothing overflows. -/
def kJulianDayOf1970_01_01 : Int := (getJulianDayNumber 1970 1 1).getD 0

/-- `Date::Date(int, int, int)` -/
def ofYearMonthDay (year month day : Int) : Option Date := do
  return ⟨← getJulianDayNumber year month day⟩

def yearMonthDay (date : Date) : Option YearMonthDay := getYearMonthDay date.julianDayNumber

def weekDay (date : Date) : Option Int := do
  mod (← add date.julianDayNumber 1) kDaysPerWeek

theorem kJulianDayOf1970_01_01_eq : kJulianDayOf1970_01_01 = 2440588 := by decide

end Date

/-- The Julian day number of a date; 1 March of the year 0 is day 1721120. -/
def julianDay (date : YearMonthDay) : Int := dayNumber date + 1721120

/-- The first day that `getYearMonthDay` can handle is 1 March 4801 BC, the last one the greatest for which
`4 * a + 3` is an `int`. -/
def kMinJulianDay : Int := -32044
def kMaxJulianDay : Int := 536838867

/-- No operation overflows, and the divisions are of numbers that are not negative. -/
theorem getJulianDayNumber_sum {year month day a y m : Int} (hmonth : 1 ≤ month ∧ month ≤ 12) (hday : 1 ≤ day ∧ day ≤ 31)
    (ha : (14 - month) / 12 = a) (hy : year + 4800 - a = y) (hm : month + 12 * a - 3 = m) (hmin : 0 ≤ y)
    (hmax : y ≤ 1500000) : getJulianDayNumber year month day =
      some (day + (153 * m + 2) / 5 + y * 365 + y / 4 - y / 100 + y / 400 - 32045) := by
  have ha' : 0 ≤ a ∧ a ≤ 1 := by omega
  have hm' : 0 ≤ m ∧ m ≤ 11 := by omega
  rw [getJulianDayNumber, sub_bind (by omega), div_bind (by decide) (by omega), ha]
  rw [add_bind (by omega), sub_bind (by omega), hy]
  rw [mul_bind (by omega), add_bind (by omega), sub_bind (by omega), hm]
  rw [mul_bind (by omega), add_bind (by omega), div_bind (by decide) (by omega), add_bind (by omega)]
  rw [mul_bind (by omega), add_bind (by omega)]
  rw [div_bind (by decide) (by omega), add_bind (by omega)]
  rw [div_bind (by decide) (by omega), sub_bind (by omega)]
  rw [div_bind (by decide) (by omega), add_bind (by omega)]
  exact sub_eq (by omega)

/-- The calendar repeats after 4800 years. -/
theorem yearStart_add (y : Int) : yearStart (y + 4800) = yearStart y + 1753164 := by
  unfold yearStart
  omega

theorem yearStart_bounds {y : Int} (hy : 0 ≤ y) : 365 * y ≤ yearStart y := by
  unfold yearStart
  omega

variable {date : YearMonthDay}

theorem getJulianDayNumber_eq (h : date.Valid) (hmin : -4800 ≤ date.marchYear) (hmax : julianDay date ≤ kMaxJulianDay) :
    getJulianDayNumber date.year date.month date.day = some (julianDay date) := by
  obtain ⟨hday0, -⟩ := marchDay_lt h
  have hshift := yearStart_add date.marchYear
  have hbound : 365 * (date.marchYear + 4800) ≤ yearStart (date.marchYear + 4800) := yearStart_bounds (by omega)
  unfold julianDay dayNumber kMaxJulianDay at hmax
  have ha : (14 - date.month) / 12 = date.year - date.marchYear := by
    obtain ⟨h1, h12, -, -⟩ := h
    unfold marchYear
    split_ifs <;> omega
  have hm : date.month + 12 * (date.year - date.marchYear) - 3 = date.marchMonth := by
    unfold marchYear marchMonth
    split_ifs <;> omega
  rw [getJulianDayNumber_sum ⟨h.month_pos, h.month_le⟩ ⟨h.day_pos, ?_⟩ ha (y := date.marchYear + 4800) (by omega) hm
    (by omega) (by omega), julianDay, dayNumber]
  · congr 1
    unfold yearStart at hshift
    unfold yearStart stair
    omega
  · have := h.day_le
    unfold monthLength at this
    split_ifs at this <;> omega

theorem getYearMonthDay_sum {n a b c d e m : Int} (hmin : 0 ≤ a) (hmax : a ≤ 536870911) (ha : n + 32044 = a)
    (hb : (4 * a + 3) / 146097 = b) (hc : a - b * 146097 / 4 = c) (hd : (4 * c + 3) / 1461 = d)
    (he : c - 1461 * d / 4 = e) (hm : (5 * e + 2) / 153 = m) :
    getYearMonthDay n = some ⟨b * 100 + d - 4800 + m / 10, m + 3 - 12 * (m / 10), e - (153 * m + 2) / 5 + 1⟩ := by
  have hb' : 0 ≤ b ∧ b ≤ 14699 := by omega
  have hc' : 0 ≤ c ∧ c ≤ 36524 := by omega
  have hd' : 0 ≤ d ∧ d ≤ 99 := by omega
  have he' : 0 ≤ e ∧ e ≤ 365 := by omega
  have hm' : 0 ≤ m ∧ m ≤ 11 := by omega
  rw [getYearMonthDay, add_bind (by omega), ha]
  rw [mul_bind (by omega), add_bind (by omega), div_bind (by decide) (by omega), hb]
  rw [mul_bind (by omega), div_bind (by decide) (by omega), sub_bind (by omega), hc]
  rw [mul_bind (by omega), add_bind (by omega), div_bind (by decide) (by omega), hd]
  rw [mul_bind (by omega), div_bind (by decide) (by omega), sub_bind (by omega), he]
  rw [mul_bind (by omega), add_bind (by omega), div_bind (by decide) (by omega), hm]
  rw [mul_bind (by omega), add_bind (by omega), div_bind (by decide) (by omega), sub_bind (by omega),
    add_bind (by omega)]
  rw [add_bind (by omega), div_bind (by decide) (by omega), mul_bind (by omega), sub_bind (by omega)]
  rw [mul_bind (by omega), add_bind (by omega), sub_bind (by omega), div_bind (by decide) (by omega),
    add_bind (by omega)]
  rfl

/-- `getYearMonthDay` counts centuries from 4801 BC, the calendar counts them from the year 0. -/
theorem getYearMonthDay_eq {n : Int} (hmin : kMinJulianDay ≤ n) (hmax : n ≤ kMaxJulianDay) :
    getYearMonthDay n = some (ofDayNumber (n - 1721120)) := by
  unfold kMinJulianDay at hmin
  unfold kMaxJulianDay at hmax
  obtain ⟨b, hb⟩ : ∃ b, (4 * (n + 32044) + 3) / 146097 = b := ⟨_, rfl⟩
  obtain ⟨c, hc⟩ : ∃ c, n + 32044 - b * 146097 / 4 = c := ⟨_, rfl⟩
  obtain ⟨d, hd⟩ : ∃ d, (4 * c + 3) / 1461 = d := ⟨_, rfl⟩
  obtain ⟨e, he⟩ : ∃ e, c - 1461 * d / 4 = e := ⟨_, rfl⟩
  obtain ⟨m, hm⟩ : ∃ m, (5 * e + 2) / 153 = m := ⟨_, rfl⟩
  have hb' : stepOf 146097 4 0 (n - 1721120) = b - 48 := by
    unfold stepOf
    omega
  have hc' : n - 1721120 - stair 146097 4 0 (b - 48) = c := by
    unfold stair
    omega
  have hd' : stepOf 1461 4 0 c = d := by simpa [stepOf] using hd
  have he' : c - stair 1461 4 0 d = e := by simpa [stair] using he
  have hm' : stepOf 153 5 2 e = m := by simpa [stepOf] using hm
  rw [getYearMonthDay_sum (by omega) (by omega) rfl hb hc hd he hm]
  simp only [ofDayNumber, hb', hc', hd', he', hm', Option.some.injEq, YearMonthDay.mk.injEq]
  unfold stair
  refine ⟨?_, trivial, rfl⟩
  omega

theorem marchYear_ge (h : date.Valid) (hmin : kMinJulianDay ≤ julianDay date) : -4800 ≤ date.marchYear := by
  obtain ⟨-, hday⟩ := marchDay_lt h
  have hshift := yearStart_add date.marchYear
  unfold julianDay dayNumber kMinJulianDay at hmin
  by_contra hlt
  have hneg : yearStart (date.marchYear + 4800) ≤ -366 := by
    unfold yearStart
    omega
  omega

theorem julianDay_ge (h : date.Valid) (hyear : -4800 ≤ date.marchYear) : kMinJulianDay ≤ julianDay date := by
  obtain ⟨hday, -⟩ := marchDay_lt h
  have hshift := yearStart_add date.marchYear
  have hbound : 365 * (date.marchYear + 4800) ≤ yearStart (date.marchYear + 4800) := yearStart_bounds (by omega)
  unfold julianDay dayNumber kMinJulianDay
  omega

theorem marchYear_of_year (h : -4799 ≤ date.year) : -4800 ≤ date.marchYear := by
  unfold marchYear
  split_ifs <;> omega

theorem julianDay_next (h : date.Valid) : julianDay date.next = julianDay date + 1 := by
  have hnext := dayNumber_next h
  unfold julianDay
  omega

/-- The date of a day number, as `getYearMonthDay` finds it. -/
theorem julianDay_ofDayNumber (n : Int) : julianDay (ofDayNumber (n - 1721120)) = n := by
  rw [julianDay, dayNumber_ofDayNumber]
  omega

/-- From a date to its number and back. -/
theorem getYearMonthDay_julianDay (h : date.Valid) (hyear : -4800 ≤ date.marchYear)
    (hmax : julianDay date ≤ kMaxJulianDay) : getYearMonthDay (julianDay date) = some date := by
  have hn : julianDay date - 1721120 = dayNumber date := by
    unfold julianDay
    omega
  rw [getYearMonthDay_eq (julianDay_ge h hyear) hmax, hn, ofDayNumber_dayNumber h]

/-- From a number to its date and back. -/
theorem getJulianDayNumber_ofDayNumber {n : Int} (hmin : kMinJulianDay ≤ n) (hmax : n ≤ kMaxJulianDay)
    (hdate : ofDayNumber (n - 1721120) = date) : getJulianDayNumber date.year date.month date.day = some n := by
  subst hdate
  have hn := julianDay_ofDayNumber n
  have hvalid := ofDayNumber_valid (n - 1721120)
  rw [getJulianDayNumber_eq hvalid (marchYear_ge hvalid (by omega)) (by omega), hn]

/-! ## The calendar -/

/-- **The two functions are inverse to each other on the calendar**, without overflow: from date to day number and
back for the years from 4800 BC on, from a day number to a date and back for every number that `getYearMonthDay`
can handle; and the day after a date has the next number. -/
theorem gregorian_bijection :
    (∀ date : YearMonthDay, date.Valid → -4799 ≤ date.year → julianDay date ≤ kMaxJulianDay →
      ∃ n, getJulianDayNumber date.year date.month date.day = some n ∧ getYearMonthDay n = some date) ∧
    (∀ n, kMinJulianDay ≤ n → n ≤ kMaxJulianDay → ∃ date, getYearMonthDay n = some date ∧ date.Valid ∧
      getJulianDayNumber date.year date.month date.day = some n) ∧
    ∀ date : YearMonthDay, date.Valid → -4799 ≤ date.year → julianDay date.next ≤ kMaxJulianDay →
      ∃ n, getJulianDayNumber date.year date.month date.day = some n ∧
        getJulianDayNumber date.next.year date.next.month date.next.day = some (n + 1) := by
  refine ⟨?_, ?_, ?_⟩
  · intro date h hyear hmax
    have hmarch := marchYear_of_year hyear
    exact ⟨julianDay date, getJulianDayNumber_eq h hmarch hmax, getYearMonthDay_julianDay h hmarch hmax⟩
  · intro n hmin hmax
    exact ⟨ofDayNumber (n - 1721120), getYearMonthDay_eq hmin hmax, ofDayNumber_valid _,
      getJulianDayNumber_ofDayNumber hmin hmax rfl⟩
  · intro date h hyear hmax
    have hnext := julianDay_next h
    rw [hnext] at hmax
    refine ⟨julianDay date, getJulianDayNumber_eq h (marchYear_of_year hyear) (by omega), ?_⟩
    rw [← hnext] at hmax ⊢
    exact getJulianDayNumber_eq (next_valid h) (marchYear_of_year (by have := year_le_next date; omega)) hmax

/-- The last day of February 2000, its number, and the day after it. -/
theorem gregorian_bijection_leap_day :
    (∃ n, getJulianDayNumber 2000 2 29 = some n ∧ getYearMonthDay n = some ⟨2000, 2, 29⟩) ∧
    (∃ date, getYearMonthDay 2451604 = some date ∧ date.Valid ∧
      getJulianDayNumber date.year date.month date.day = some 2451604) ∧
    ∃ n, getJulianDayNumber 2000 2 29 = some n ∧ getJulianDayNumber 2000 3 1 = some (n + 1) :=
  ⟨gregorian_bijection.1 ⟨2000, 2, 29⟩ (by decide) (by decide) (by decide),
    gregorian_bijection.2.1 2451604 (by decide) (by decide),
    gregorian_bijection.2.2 ⟨2000, 2, 29⟩ (by decide) (by decide) (by decide)⟩

end ChatReactor
