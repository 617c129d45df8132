import ChatReactor.Buffer
import ChatReactor.Lib.LowerBound
import ChatReactor.UtcTime

/-!
# Local time (`TimeZone.h`, `TimeZone.cc`)

| here | there |
| --- | --- |
| `Transition`, `Comp`, `Localtime`, `Data` | the structs of `TimeZone.cc:23-91`; nothing uses `Data::names` |
| `findLocaltime` | `detail::findLocaltime` (`TimeZone.cc:218-250`), with the binary search of `std::lower_bound` |
| `TimeZone.toLocalTime`, `fromLocalTime` | the members (`TimeZone.cc:272-315`) |
| `Utc` | `gmtime_r` and `timegm` of the C library, exact inverses of each other |

`none` is a vector or a string indexed out of range, a `front()` or `back()` of an empty vector, or a failed assert.
`time_t` is `Int`. `tm_zone` points into `data.abbreviation`; `tmZone` is the string that begins there.
-/

namespace ChatReactor

open LowerBound

structure Transition where
  gmttime : Int
  localtime : Int
  localtimeIdx : Nat
  deriving DecidableEq, Repr

structure Comp where
  compareGmt : Bool
  deriving DecidableEq, Repr

/-- What `comp` compares. -/
def Comp.key (comp : Comp) (tr : Transition) : Int := if comp.compareGmt then tr.gmttime else tr.localtime

@[simp] theorem Comp.key_gmt (tr : Transition) : Comp.key ⟨true⟩ tr = tr.gmttime := rfl

@[simp] theorem Comp.key_local (tr : Transition) : Comp.key ⟨false⟩ tr = tr.localtime := rfl

/-- `Comp::operator()` -/
def Comp.less (comp : Comp) (lhs rhs : Transition) : Bool := comp.key lhs < comp.key rhs

def Comp.equal (comp : Comp) (lhs rhs : Transition) : Bool := comp.key lhs = comp.key rhs

structure Localtime where
  gmtOffset : Int
  isDst : Bool
  arrbIdx : Nat
  deriving DecidableEq, Repr

structure Data where
  transitions : List Transition
  localtimes : List Localtime
  abbreviation : List UInt8
  deriving DecidableEq, Repr

/-- `&data.localtimes[tr.localtimeIdx]` -/
def Data.localtimeOf (data : Data) (tr : Transition) : Option Localtime := data.localtimes[tr.localtimeIdx]?

def findLocaltime (data : Data) (sentry : Transition) (comp : Comp) : Option Localtime :=
  if data.transitions.head?.all (comp.less sentry) then
    data.localtimes.head?
  else
    let transI := lowerBound (fun tr => comp.less tr sentry) data.transitions
    match data.transitions[transI]? with
    | some tr =>
      if comp.equal sentry tr then data.localtimeOf tr
      else do
        check (transI ≠ 0)
        data.localtimeOf (← data.transitions[transI - 1]?)
    | none => do
      data.localtimeOf (← data.transitions.getLast?)

/-- `gmtime_r` and `timegm`: every time has its fields, `timegm` reads the time from them and ignores the last three,
and hour and minute are those of the day. -/
structure Utc where
  gmtimeR : Int → Tm
  timegm : Tm → Int
  timegm_gmtimeR : ∀ seconds isdst gmtoff zone,
    timegm { gmtimeR seconds with tmIsdst := isdst, tmGmtoff := gmtoff, tmZone := zone } = seconds
  hour : ∀ seconds, (gmtimeR seconds).tmHour = seconds % 86400 / 3600
  min : ∀ seconds, (gmtimeR seconds).tmMin = seconds % 3600 / 60

section
open Gregorian

/-- `timegm` by the proleptic calendar, for months and days that are in range. -/
def exactTimegm (tm : Tm) : Int :=
  (dayNumber ⟨tm.tmYear + 1900, tm.tmMon + 1, tm.tmMday⟩ - 719468) * 86400 + tm.tmHour * 3600 + tm.tmMin * 60 + tm.tmSec

theorem exactTimegm_utcFields (seconds isdst gmtoff : Int) (zone : List UInt8) :
    exactTimegm { utcFields seconds true with tmIsdst := isdst, tmGmtoff := gmtoff, tmZone := zone } = seconds := by
  have hday : dayNumber (dateOf (seconds / 86400)) = seconds / 86400 + 719468 := dayNumber_ofDayNumber _
  simp only [exactTimegm, utcFields, Int.sub_add_cancel, hday]
  omega

theorem tmHour_utcFields (seconds : Int) : (utcFields seconds true).tmHour = seconds % 86400 / 3600 := by
  simp only [utcFields]
  omega

theorem tmMin_utcFields (seconds : Int) : (utcFields seconds true).tmMin = seconds % 3600 / 60 := by
  simp only [utcFields]
  omega

end

/-- The conversions by the proleptic calendar, without the bounds of `struct tm`. -/
def Utc.exact : Utc where
  gmtimeR seconds := utcFields seconds true
  timegm := exactTimegm
  timegm_gmtimeR := exactTimegm_utcFields
  hour := tmHour_utcFields
  min := tmMin_utcFields

structure TimeZone where
  data : Option Data
  deriving DecidableEq, Repr

namespace TimeZone

/-- `TimeZone(int eastOfUtc, const char* name)`: a zone without transitions. -/
def new (eastOfUtc : Int) (name : List UInt8) : TimeZone := ⟨some ⟨[], [⟨eastOfUtc, false, 0⟩], name⟩⟩

def valid (tz : TimeZone) : Bool := tz.data.isSome

/-- The string at offset `i` of a buffer that ends in a NUL. -/
def stringAt (s : List UInt8) (i : Nat) : List UInt8 := (s.drop i).takeWhile (· ≠ 0)

variable (utc : Utc)

def toLocalTime (tz : TimeZone) (seconds : Int) : Option Tm := do
  let data ← tz.data
  let sentry : Transition := ⟨seconds, 0, 0⟩
  let loc ← findLocaltime data sentry ⟨true⟩
  let localSeconds := seconds + loc.gmtOffset
  let localTime := utc.gmtimeR localSeconds
  check (loc.arrbIdx ≤ data.abbreviation.length)
  return { localTime with
    tmIsdst := if loc.isDst then 1 else 0
    tmGmtoff := loc.gmtOffset
    tmZone := stringAt data.abbreviation loc.arrbIdx }

def fromLocalTime (tz : TimeZone) (localTm : Tm) : Option Int := do
  let data ← tz.data
  let seconds := utc.timegm localTm
  let sentry : Transition := ⟨0, seconds, 0⟩
  let loc ← findLocaltime data sentry ⟨false⟩
  if localTm.tmIsdst ≠ 0 then
    let tryTm ← tz.toLocalTime utc (seconds - loc.gmtOffset)
    if tryTm.tmIsdst = 0 ∧ tryTm.tmHour = localTm.tmHour ∧ tryTm.tmMin = localTm.tmMin then
      -- FIXME: HACK
      return seconds - 3600 - loc.gmtOffset
    else return seconds - loc.gmtOffset
  else return seconds - loc.gmtOffset

end TimeZone
end ChatReactor
