import ChatReactor.Date

/-!
# UTC (`TimeZone::toUtcTime`, `TimeZone::fromUtcTime`)

| here | there |
| --- | --- |
| `Tm` | `struct tm`; `tmZone` is the string that `tm_zone` points to |
| `fillHMS` | `detail::fillHMS` (`TimeZone.cc:71-77`) |
| `toUtcTime` | `TimeZone::toUtcTime` (`TimeZone.cc:317-342`) |
| `fromUtcTime`, `fromFields` | the two overloads of `TimeZone::fromUtcTime` (`TimeZone.cc:344-358`) |

`time_t` is `Int`. `/` and `%` truncate, so that the remainder of a time before 1970 is negative; `toUtcTime` then takes
a day back, which makes the pair the floor and the remainder of it.
-/

namespace ChatReactor

open CheckedInt Gregorian

structure Tm where
  tmSec : Int
  tmMin : Int
  tmHour : Int
  tmMday : Int
  tmMon : Int
  tmYear : Int
  tmWday : Int
  tmYday : Int
  tmIsdst : Int
  tmGmtoff : Int
  tmZone : List UInt8
  deriving DecidableEq, Repr

def kSecondsPerDay : Int := 24 * 60 * 60

theorem kSecondsPerDay_eq : kSecondsPerDay = 86400 := rfl

/-- A cleared `struct tm` (`bzero`). -/
def Tm.zero : Tm := ⟨0, 0, 0, 0, 0, 0, 0, 0, 0, 0, []⟩

/-- "GMT" -/
def gmt : List UInt8 := [71, 77, 84]

/-- The parameter is `unsigned`. -/
def fillHMS (seconds : Int) (utc : Tm) : Tm :=
  let seconds := seconds % 4294967296
  let minutes := seconds / 60
  { utc with tmSec := seconds % 60, tmMin := minutes % 60, tmHour := minutes / 60 }

/-- The first lines of `toUtcTime`: the second of the day and the day. -/
def splitDay (secondsSinceEpoch : Int) : Option (Int × Int) :=
  let seconds := toInt (secondsSinceEpoch.tmod kSecondsPerDay)
  let days := toInt (secondsSinceEpoch.tdiv kSecondsPerDay)
  if seconds < 0 then do
    return (← add seconds kSecondsPerDay, ← sub days 1)
  else some (seconds, days)

def toUtcTime (secondsSinceEpoch : Int) (yday : Bool) : Option Tm := do
  let (seconds, days) ← splitDay secondsSinceEpoch
  let utc := fillHMS seconds { Tm.zero with tmZone := gmt }
  let date : Date := ⟨← add days Date.kJulianDayOf1970_01_01⟩
  let ymd ← date.yearMonthDay
  let tmYear ← sub ymd.year 1900
  let tmMon ← sub ymd.month 1
  let tmWday ← date.weekDay
  let utc := { utc with tmYear := tmYear, tmMon := tmMon, tmMday := ymd.day, tmWday := tmWday }
  if yday then
    let startOfYear ← Date.ofYearMonthDay ymd.year 1 1
    return { utc with tmYday := ← sub date.julianDayNumber startOfYear.julianDayNumber }
  else return utc

def fromFields (year month day hour minute seconds : Int) : Option Int := do
  let date ← Date.ofYearMonthDay year month day
  let secondsInDay ← add (← add (← mul hour 3600) (← mul minute 60)) seconds
  let days ← sub date.julianDayNumber Date.kJulianDayOf1970_01_01
  return days * kSecondsPerDay + secondsInDay

def fromUtcTime (utc : Tm) : Option Int := do
  fromFields (← add utc.tmYear 1900) (← add utc.tmMon 1) utc.tmMday utc.tmHour utc.tmMin utc.tmSec

/-! ## The day and the second of the day -/

theorem splitDay_eq {t : Int} (hmin : -2440588 ≤ t / 86400) (hmax : t / 86400 ≤ 2147483646) :
    splitDay t = some (t % 86400, t / 86400) := by
  have hsplit := Int.tmod_add_tdiv_mul t 86400
  have hlt : t.tmod 86400 < 86400 := Int.tmod_lt_of_pos t (by decide)
  have hgt : -86400 < t.tmod 86400 := Int.lt_tmod_of_pos t (by decide)
  have hseconds : toInt (t.tmod 86400) = t.tmod 86400 := toInt_eq (by omega)
  have hdays : toInt (t.tdiv 86400) = t.tdiv 86400 := toInt_eq (by omega)
  simp only [splitDay, kSecondsPerDay_eq, hseconds, hdays]
  split_ifs with hneg
  · rw [add_bind (by omega), sub_bind (by omega)]
    simp only [pure, Option.some.injEq, Prod.mk.injEq]
    omega
  · simp only [Option.some.injEq, Prod.mk.injEq]
    omega

theorem fillHMS_eq {s : Int} (h0 : 0 ≤ s) (h : s < 86400) (utc : Tm) : fillHMS s utc =
    { utc with tmSec := s % 60, tmMin := s / 60 % 60, tmHour := s / 60 / 60 } := by
  have hmod : s % 4294967296 = s := by omega
  simp only [fillHMS, hmod]

/-! ## The date -/

/-- The date of day `days`, counted from 1970. -/
def dateOf (days : Int) : YearMonthDay := ofDayNumber (days + 719468)

section
variable {days : Int}

theorem dateOf_valid (days : Int) : (dateOf days).Valid := ofDayNumber_valid _

theorem julianDay_dateOf (days : Int) : julianDay (dateOf days) = days + 2440588 := by
  rw [julianDay, dateOf, dayNumber_ofDayNumber]
  omega

theorem yearMonthDay_dateOf (hmin : -2440588 ≤ days) (hmax : days + 2440588 ≤ kMaxJulianDay) :
    Date.yearMonthDay ⟨days + 2440588⟩ = some (dateOf days) := by
  have hshift : days + 2440588 - 1721120 = days + 719468 := by omega
  rw [Date.yearMonthDay, getYearMonthDay_eq (by unfold kMinJulianDay; omega) hmax, hshift, dateOf]

theorem ofYearMonthDay_dateOf (hmin : -2440588 ≤ days) (hmax : days + 2440588 ≤ kMaxJulianDay) :
    Date.ofYearMonthDay (dateOf days).year (dateOf days).month (dateOf days).day = some ⟨days + 2440588⟩ := by
  have hn := julianDay_dateOf days
  have hmarch := marchYear_ge (dateOf_valid days) (by unfold kMinJulianDay; omega)
  rw [Date.ofYearMonthDay, getJulianDayNumber_eq (dateOf_valid days) hmarch (by omega), hn]
  rfl

theorem weekDay_dateOf (hmin : -2440588 ≤ days) (hmax : days + 2440588 ≤ kMaxJulianDay) :
    Date.weekDay ⟨days + 2440588⟩ = some ((days + 4) % 7) := by
  unfold kMaxJulianDay at hmax
  have hmod : (days + 2440588 + 1) % 7 = (days + 4) % 7 := by omega
  simp only [Date.weekDay, Date.kDaysPerWeek]
  rw [add_bind (by omega), mod_eq (by decide) (by omega), hmod]

theorem dateOf_year (hmin : -2440588 ≤ days) (hmax : days + 2440588 ≤ kMaxJulianDay) :
    -4799 ≤ (dateOf days).year ∧ (dateOf days).year ≤ 1500000 := by
  have hn := julianDay_dateOf days
  obtain ⟨hday, hday'⟩ := marchDay_lt (dateOf_valid days)
  have hshift := yearStart_add (dateOf days).marchYear
  have hmarch : (dateOf days).marchYear ≤ (dateOf days).year ∧ (dateOf days).year ≤ (dateOf days).marchYear + 1 := by
    unfold YearMonthDay.marchYear
    split_ifs <;> omega
  unfold julianDay dayNumber at hn
  unfold kMaxJulianDay at hmax
  constructor
  · by_contra hlt
    have hneg : yearStart ((dateOf days).marchYear + 4800) ≤ 0 := by
      unfold yearStart
      omega
    omega
  · by_contra hlt
    have hbound := yearStart_bounds (y := (dateOf days).marchYear + 4800) (by omega)
    omega

/-- The first of January of that year, and the days since. -/
theorem newYear_dateOf (hmin : -2440588 ≤ days) (hmax : days + 2440588 ≤ kMaxJulianDay) :
    ∃ start : Date, Date.ofYearMonthDay (dateOf days).year 1 1 = some start ∧
      sub (days + 2440588) start.julianDayNumber = some (dateOf days).dayOfYear := by
  have hvalid : YearMonthDay.Valid ⟨(dateOf days).year, 1, 1⟩ := ⟨le_rfl, by simp, le_rfl, monthLength_pos _ _⟩
  have hmarch : -4800 ≤ YearMonthDay.marchYear ⟨(dateOf days).year, 1, 1⟩ :=
    marchYear_of_year (dateOf_year hmin hmax).1
  have hn := julianDay_dateOf days
  have hyday := dayNumber_sub_newYear (dateOf_valid days)
  have hmin' := julianDay_ge hvalid hmarch
  have hpos := dayOfYear_nonneg (dateOf_valid days)
  unfold julianDay at hn
  unfold kMinJulianDay julianDay at hmin'
  have hstart : julianDay ⟨(dateOf days).year, 1, 1⟩ = days + 2440588 - (dateOf days).dayOfYear := by
    unfold julianDay
    omega
  refine ⟨⟨julianDay ⟨(dateOf days).year, 1, 1⟩⟩, ?_, ?_⟩
  · rw [Date.ofYearMonthDay, getJulianDayNumber_eq hvalid hmarch (by omega)]
    rfl
  · unfold kMaxJulianDay at hmax
    simp only [hstart]
    rw [sub_eq (by omega)]
    congr 1
    omega

end

/-! ## The conversions -/

/-- The fields of time `t`. -/
def utcFields (t : Int) (yday : Bool) : Tm :=
  let seconds := t % 86400
  let date := dateOf (t / 86400)
  { tmSec := seconds % 60, tmMin := seconds / 60 % 60, tmHour := seconds / 60 / 60
    tmMday := date.day, tmMon := date.month - 1, tmYear := date.year - 1900
    tmWday := (t / 86400 + 4) % 7, tmYday := if yday then date.dayOfYear else 0
    tmIsdst := 0, tmGmtoff := 0, tmZone := gmt }

section
variable {t : Int}

theorem toUtcTime_eq (hmin : 0 ≤ t / 86400 + 2440588) (hmax : t / 86400 + 2440588 ≤ kMaxJulianDay) (yday : Bool) :
    toUtcTime t yday = some (utcFields t yday) := by
  have hmin' : -2440588 ≤ t / 86400 := by omega
  obtain ⟨hyear, hyear'⟩ := dateOf_year hmin' hmax
  have hmonth := (dateOf_valid (t / 86400)).month_pos
  have hmonth' := (dateOf_valid (t / 86400)).month_le
  obtain ⟨start, hstart, hyday⟩ := newYear_dateOf hmin' hmax
  have hweek := weekDay_dateOf hmin' hmax
  have hdate := yearMonthDay_dateOf hmin' hmax
  have hmax' : t / 86400 + 2440588 ≤ 536838867 := hmax
  have hsplit := splitDay_eq hmin' (by omega)
  have hadd : add (t / 86400) 2440588 = some (t / 86400 + 2440588) := add_eq (by omega)
  have hsub : sub (dateOf (t / 86400)).year 1900 = some ((dateOf (t / 86400)).year - 1900) := sub_eq (by omega)
  have hsub' : sub (dateOf (t / 86400)).month 1 = some ((dateOf (t / 86400)).month - 1) := sub_eq (by omega)
  have hms := fun utc => fillHMS_eq (s := t % 86400) (by omega) (by omega) utc
  cases yday
  · simp [toUtcTime, utcFields, hsplit, Date.kJulianDayOf1970_01_01_eq, hadd, hdate, hsub, hsub', hweek, hms, Tm.zero]
  · simp [toUtcTime, utcFields, hsplit, Date.kJulianDayOf1970_01_01_eq, hadd, hdate, hsub, hsub', hweek, hms, hstart,
      hyday, Tm.zero]

theorem fromUtcTime_eq (hmin : 0 ≤ t / 86400 + 2440588) (hmax : t / 86400 + 2440588 ≤ kMaxJulianDay) (yday : Bool) :
    fromUtcTime (utcFields t yday) = some t := by
  have hmin' : -2440588 ≤ t / 86400 := by omega
  obtain ⟨hyear, hyear'⟩ := dateOf_year hmin' hmax
  have hmonth := (dateOf_valid (t / 86400)).month_pos
  have hmonth' := (dateOf_valid (t / 86400)).month_le
  have hdate := ofYearMonthDay_dateOf hmin' hmax
  have hmax' : t / 86400 + 2440588 ≤ 536838867 := hmax
  have hy : (dateOf (t / 86400)).year - 1900 + 1900 = (dateOf (t / 86400)).year := by omega
  have hm : (dateOf (t / 86400)).month - 1 + 1 = (dateOf (t / 86400)).month := by omega
  simp only [fromUtcTime, utcFields]
  rw [add_bind (by omega), add_bind (by omega), hy, hm, fromFields, hdate]
  show (mul (t % 86400 / 60 / 60) 3600 >>= _) = some t
  rw [mul_bind (by omega), mul_bind (by omega), add_bind (by omega), add_bind (by omega),
    Date.kJulianDayOf1970_01_01_eq, kSecondsPerDay_eq]
  simp only
  rw [sub_bind (by omega)]
  show some _ = some t
  congr 1
  omega

/-- **UTC and back.** For every time whose day has a Julian day number that the calendar functions can handle and that is
not negative: the conversion succeeds, it gives the time back, and the fields are what they should be. The day of the
week counts from Thursday, 1 January 1970. -/
theorem utc_round_trip (hmin : 0 ≤ t / 86400 + Date.kJulianDayOf1970_01_01)
    (hmax : t / 86400 + Date.kJulianDayOf1970_01_01 ≤ kMaxJulianDay) (yday : Bool) :
    ∃ utc, toUtcTime t yday = some utc ∧ fromUtcTime utc = some t ∧
      (0 ≤ utc.tmSec ∧ utc.tmSec < 60) ∧ (0 ≤ utc.tmMin ∧ utc.tmMin < 60) ∧ (0 ≤ utc.tmHour ∧ utc.tmHour < 24) ∧
      (0 ≤ utc.tmWday ∧ utc.tmWday < 7) ∧ utc.tmWday = (t / 86400 + 4) % 7 ∧
      (yday = true → utc.tmYday = YearMonthDay.dayOfYear ⟨utc.tmYear + 1900, utc.tmMon + 1, utc.tmMday⟩) := by
  rw [Date.kJulianDayOf1970_01_01_eq] at hmin hmax
  refine ⟨utcFields t yday, toUtcTime_eq hmin hmax yday, fromUtcTime_eq hmin hmax yday, ?_⟩
  simp only [utcFields]
  refine ⟨by omega, by omega, by omega, by omega, trivial, ?_⟩
  rintro rfl
  simp

end

/-- The last second of 29 February 1968, a Thursday and day 59 of its year. -/
theorem utc_round_trip_leap_day : ∃ utc, toUtcTime (-57974401) true = some utc ∧ fromUtcTime utc = some (-57974401) ∧
    utc.tmWday = 4 ∧ utc.tmYday = YearMonthDay.dayOfYear ⟨1968, 2, 29⟩ := by
  obtain ⟨utc, hutc, hback, -, -, -, -, hweek, -⟩ := utc_round_trip (t := -57974401) (by decide) (by decide) true
  refine ⟨utc, hutc, hback, hweek, ?_⟩
  have hfields : toUtcTime (-57974401) true = some ⟨59, 59, 23, 29, 1, 68, 4, 59, 0, 0, gmt⟩ := by decide
  obtain rfl := Option.some.inj (hutc.symm.trans hfields)
  decide

end ChatReactor
