import ChatReactor.TimeZone

/-!
# Local time and back

`findLocaltime` takes the last transition that is not after its argument (`findLocaltime_eq`), by UTC for `toLocalTime`
and by local clock for `fromLocalTime`. The two agree as long as the clock has not been put back: a time whose reading is
before the local time of the next transition is found again (`Settled`). A reading that comes twice is taken for the
second time that it comes; `fromLocalTime` repairs this by subtracting 3600 if the time given is in daylight saving and
the one found is not, and shows the same hour and minute. That is right if the clock has been put back by one hour from
daylight saving to standard time (`HourBack`), and in no other case.
-/

namespace ChatReactor

open LowerBound

/-! ## The search -/

namespace Data

/-- The local time in force at `time`: that of the last transition which is not after it, or the first one of all. -/
def current (data : Data) (comp : Comp) (time : Int) : Option Localtime :=
  match (data.transitions.filter fun tr => comp.key tr ≤ time).getLast? with
  | some tr => data.localtimeOf tr
  | none => data.localtimes.head?

/-- A local time that the data uses: the first one, or that of a transition. -/
def Named (data : Data) (loc : Localtime) : Prop :=
  data.localtimes.head? = some loc ∨ ∃ tr ∈ data.transitions, data.localtimeOf tr = some loc

/-- There is a local time, and every transition has one. -/
structure InRange (data : Data) : Prop where
  nonempty : data.localtimes ≠ []
  idx_lt : ∀ tr ∈ data.transitions, tr.localtimeIdx < data.localtimes.length

/-- Every index that the data uses is in range. -/
structure Sound (data : Data) : Prop extends data.InRange where
  arrb_le : ∀ loc, data.Named loc → loc.arrbIdx ≤ data.abbreviation.length

/-- Earlier in the vector is earlier in time. -/
def Increasing (data : Data) (comp : Comp) : Prop :=
  data.transitions.Pairwise fun a b => comp.key a < comp.key b

theorem Named.mem {data : Data} {loc : Localtime} (h : data.Named loc) : loc ∈ data.localtimes := by
  obtain h | ⟨tr, -, h⟩ := h
  · exact List.mem_of_head? h
  · exact List.mem_of_getElem? h

end Data

variable {tr : Transition}

section Find
variable {data : Data} {comp : Comp} {sentry : Transition} {r : Nat}

/-- The place behind the last transition that is not after the sentry: where the search has stopped, or one further if
there is a transition at the very time of the sentry. -/
def behind (data : Data) (comp : Comp) (sentry : Transition) (r : Nat) : Nat :=
  if (data.transitions[r]?).any (comp.equal sentry) then r + 1 else r

theorem cut_behind (hsorted : data.Increasing comp) (h : Cut (fun tr => comp.less tr sentry) data.transitions r) :
    Cut (fun tr => comp.key tr ≤ comp.key sentry) data.transitions (behind data comp sentry r) := by
  obtain ⟨hlen, hbefore, hbehind⟩ := h
  unfold behind
  split_ifs with hequal
  · obtain ⟨tr, htr, hkey⟩ := (Option.any_eq_true _ _).1 hequal
    obtain ⟨hlt, rfl⟩ := List.getElem?_eq_some_iff.1 htr
    simp only [Comp.equal, decide_eq_true_eq] at hkey
    refine ⟨hlt, .inr ?_, ?_⟩
    · rw [Nat.add_sub_cancel, htr]
      simp [hkey]
    · by_cases hlast : r + 1 = data.transitions.length
      · exact .inl hlast
      · have hnext := List.pairwise_iff_getElem.1 hsorted r (r + 1) hlt (by omega) (by omega)
        rw [List.getElem?_eq_getElem (by omega)]
        simp [hkey, hnext]
  · refine ⟨hlen, hbefore.imp_right fun h => ?_, hbehind.imp_right fun h => ?_⟩
    · obtain ⟨tr, htr, hless⟩ := (Option.any_eq_true _ _).1 h
      simp only [Comp.less, decide_eq_true_eq] at hless
      rw [htr]
      simp [hless.le]
    · cases htr : data.transitions[r]? with
      | none => rfl
      | some tr =>
        simp only [htr, Option.any_some, Comp.less, Comp.equal, decide_eq_false_iff_not, decide_eq_true_eq] at h hequal ⊢
        omega

theorem take_behind (hsorted : data.Increasing comp) (h : Cut (fun tr => comp.less tr sentry) data.transitions r) :
    data.transitions.take (behind data comp sentry r) =
      data.transitions.filter fun tr => comp.key tr ≤ comp.key sentry := by
  refine (cut_behind hsorted h).take_eq (hsorted.imp fun hlt hle => ?_)
  simp only [decide_eq_true_eq] at hle ⊢
  omega

theorem current_of_none {time : Int} (hnone : ∀ tr ∈ data.transitions, time < comp.key tr) :
    data.current comp time = data.localtimes.head? := by
  have hnil : (data.transitions.filter fun tr => comp.key tr ≤ time) = [] :=
    List.filter_eq_nil_iff.2 fun tr htr => by simpa using hnone tr htr
  rw [Data.current, hnil, List.getLast?_nil]

/-- The sentry is before the first transition. -/
theorem current_before (hsorted : data.Increasing comp)
    (h : data.transitions.head?.all (comp.less sentry) = true) :
    data.current comp (comp.key sentry) = data.localtimes.head? := by
  refine current_of_none fun tr hmem => ?_
  unfold Data.Increasing at hsorted
  obtain ⟨first, rest, htr⟩ := List.exists_cons_of_ne_nil (List.ne_nil_of_mem hmem)
  rw [htr] at h hsorted hmem
  simp only [List.head?_cons, Option.all_some, Comp.less, decide_eq_true_eq] at h
  obtain rfl | hmem := List.mem_cons.1 hmem
  · exact h
  · exact h.trans ((List.pairwise_cons.1 hsorted).1 tr hmem)

/-- The last transition that is not after the sentry, where there is one. -/
theorem current_behind (hsorted : data.Increasing comp) (h : Cut (fun tr => comp.less tr sentry) data.transitions r)
    (hfront : ¬ data.transitions.head?.all (comp.less sentry) = true) :
    0 < behind data comp sentry r ∧
      data.current comp (comp.key sentry) = (data.transitions[behind data comp sentry r - 1]?).bind data.localtimeOf := by
  have htake := take_behind hsorted h
  have hle := (cut_behind hsorted h).le_length
  have hpos : 0 < behind data comp sentry r := by
    by_contra hzero
    obtain hzero : behind data comp sentry r = 0 := by omega
    rw [hzero, List.take_zero] at htake
    cases htr : data.transitions with
    | nil => simp [htr] at hfront
    | cons first rest =>
      rw [htr] at hfront htake
      have hfirst := List.filter_eq_nil_iff.1 htake.symm first (by simp)
      simp only [List.head?_cons, Option.all_some, Comp.less, decide_eq_true_eq] at hfront hfirst
      omega
  refine ⟨hpos, ?_⟩
  have hlt : behind data comp sentry r - 1 < data.transitions.length := by omega
  have hlast : (data.transitions.take (behind data comp sentry r)).getLast? =
      data.transitions[behind data comp sentry r - 1]? := by
    rw [List.getLast?_take, if_neg (by omega), List.getElem?_eq_getElem hlt]
    rfl
  rw [Data.current, ← htake, hlast, List.getElem?_eq_getElem hlt]
  rfl

/-- Wherever the binary search ends: if it is at the first transition, that one is neither earlier nor later than the
sentry. -/
theorem cut_ne_zero (h : Cut (fun tr => comp.less tr sentry) data.transitions r)
    (hfront : ¬ data.transitions.head?.all (comp.less sentry) = true) (htr : data.transitions[r]? = some tr)
    (hequal : ¬ comp.equal sentry tr = true) : r ≠ 0 := by
  rintro rfl
  obtain hlen | hnot := h.behind
  · simp [← hlen] at htr
  · rw [List.head?_eq_getElem?] at hfront
    simp only [htr, Option.any_some, Option.all_some, Comp.less, Comp.equal, decide_eq_true_eq,
      decide_eq_false_iff_not] at hfront hequal hnot
    omega

/-- `findLocaltime` takes the last transition that is not after the sentry. -/
theorem findLocaltime_eq (hsorted : data.Increasing comp) (sentry : Transition) :
    findLocaltime data sentry comp = data.current comp (comp.key sentry) := by
  have hcut := lowerBound_cut (fun tr => comp.less tr sentry) data.transitions
  unfold findLocaltime
  split_ifs with hfront
  · rw [current_before hsorted hfront]
  · obtain ⟨hpos, hcurrent⟩ := current_behind hsorted hcut hfront
    rw [hcurrent]
    simp only
    generalize lowerBound (fun tr => comp.less tr sentry) data.transitions = r at hcut hpos ⊢
    cases htr : data.transitions[r]? with
    | some tr =>
      by_cases hequal : comp.equal sentry tr = true
      · simp [behind, htr, hequal]
      · have hbehind : behind data comp sentry r = r := by simp [behind, htr, hequal]
        rw [hbehind] at hpos ⊢
        simp [hequal, check_of (Nat.pos_iff_ne_zero.1 hpos)]
    | none =>
      have hr : r = data.transitions.length := by
        have := List.getElem?_eq_none_iff.1 htr
        have := hcut.le_length
        omega
      have hbehind : behind data comp sentry r = r := by simp [behind, htr]
      rw [hbehind, hr, List.getLast?_eq_getElem?]
      rfl

/-- `assert(transI != data.transitions.begin())` holds if it is reached. -/
def Data.AssertHolds (data : Data) (sentry : Transition) (comp : Comp) : Prop :=
  let transI := lowerBound (fun tr => comp.less tr sentry) data.transitions
  ∀ tr, ¬ data.transitions.head?.all (comp.less sentry) = true → data.transitions[transI]? = some tr →
    ¬ comp.equal sentry tr = true → transI ≠ 0

theorem current_of_last {before after : List Transition} {time : Int}
    (hsplit : data.transitions = before ++ tr :: after) (hle : comp.key tr ≤ time)
    (hafter : ∀ later ∈ after, time < comp.key later) : data.current comp time = data.localtimeOf tr := by
  have hnil : (after.filter fun tr => comp.key tr ≤ time) = [] :=
    List.filter_eq_nil_iff.2 fun later hlater => by simpa using hafter later hlater
  have hfilter : (data.transitions.filter fun tr => comp.key tr ≤ time) =
      (before.filter fun tr => comp.key tr ≤ time) ++ [tr] := by
    rw [hsplit, List.filter_append, List.filter_cons_of_pos (by simpa using hle), hnil]
  rw [Data.current, hfilter, List.getLast?_concat]

/-- **The governing transition.** Its assertion never fails, and `findLocaltime` returns the local time of the last
transition whose key is not greater than that of the sentry, or the first local time if there is no such transition. -/
theorem findLocaltime_governing (hne : data.localtimes ≠ []) (hsorted : data.Increasing comp) (sentry : Transition) :
    data.AssertHolds sentry comp ∧
      (∀ before tr after, data.transitions = before ++ tr :: after → comp.key tr ≤ comp.key sentry →
        (∀ later ∈ after, comp.key sentry < comp.key later) → findLocaltime data sentry comp = data.localtimeOf tr) ∧
      ((∀ tr ∈ data.transitions, comp.key sentry < comp.key tr) →
        findLocaltime data sentry comp = some (data.localtimes.head hne)) := by
  rw [findLocaltime_eq hsorted]
  refine ⟨fun tr hfront htr hequal => ?_, fun before tr after => current_of_last, fun hnone => ?_⟩
  · exact cut_ne_zero (lowerBound_cut _ _) hfront htr hequal
  · rw [current_of_none hnone, List.head?_eq_some_head hne]

/-- At 15, between the transitions at 10 and 20, by UTC. -/
theorem findLocaltime_governing_fifteen :
    let data : Data := ⟨[⟨10, 3610, 1⟩, ⟨20, 20, 0⟩], [⟨0, false, 0⟩, ⟨3600, true, 4⟩], []⟩
    data.AssertHolds ⟨15, 0, 0⟩ ⟨true⟩ ∧ findLocaltime data ⟨15, 0, 0⟩ ⟨true⟩ = some ⟨3600, true, 4⟩ := by
  intro data
  have hsorted : data.Increasing ⟨true⟩ := by
    unfold Data.Increasing
    decide
  obtain ⟨hassert, hfind, -⟩ := findLocaltime_governing (List.cons_ne_nil _ _ : data.localtimes ≠ []) hsorted ⟨15, 0, 0⟩
  exact ⟨hassert, hfind [] ⟨10, 3610, 1⟩ [⟨20, 20, 0⟩] rfl (by decide) (by decide)⟩

end Find

/-- The last one of an increasing list is the greatest. -/
theorem key_le_last {f : Transition → Int} {l : List Transition} (hsorted : l.Pairwise fun a b => f a < f b)
    {last : Transition} (hlast : l.getLast? = some last) (htr : tr ∈ l) : f tr ≤ f last := by
  obtain ⟨l, rfl⟩ := List.getLast?_eq_some_iff.1 hlast
  obtain htr | htr := List.mem_append.1 htr
  · exact ((List.pairwise_append.1 hsorted).2.2 tr htr last (by simp)).le
  · obtain rfl := List.mem_singleton.1 htr
    exact le_rfl

section Current
variable {data : Data}

theorem Data.InRange.localtimeOf (h : data.InRange) (htr : tr ∈ data.transitions) :
    ∃ loc, data.localtimeOf tr = some loc :=
  ⟨_, List.getElem?_eq_getElem (h.idx_lt tr htr)⟩

/-- There is then a local time for every time: that of the last transition until then, or the first one. -/
theorem Data.InRange.current (h : data.InRange) (comp : Comp) (time : Int) : ∃ loc, data.current comp time = some loc ∧
    ((∃ last, (data.transitions.filter fun tr => comp.key tr ≤ time).getLast? = some last ∧
        data.localtimeOf last = some loc) ∨
      (data.transitions.filter fun tr => comp.key tr ≤ time) = [] ∧ data.localtimes.head? = some loc) := by
  unfold Data.current
  cases hlast : (data.transitions.filter fun tr => comp.key tr ≤ time).getLast? with
  | none =>
    rw [List.getLast?_eq_none_iff] at hlast
    cases hhead : data.localtimes with
    | nil => exact absurd hhead h.nonempty
    | cons first rest => exact ⟨first, rfl, .inr ⟨hlast, rfl⟩⟩
  | some last =>
    obtain ⟨loc, hloc⟩ := h.localtimeOf (List.mem_filter.1 (List.mem_of_getLast? hlast)).1
    exact ⟨loc, hloc, .inl ⟨last, rfl, hloc⟩⟩

theorem Data.InRange.named (h : data.InRange) {comp : Comp} {time : Int} {loc : Localtime}
    (hloc : data.current comp time = some loc) : data.Named loc := by
  obtain ⟨loc', hloc', ⟨last, hlast, hof⟩ | ⟨-, hhead⟩⟩ := h.current comp time
  · obtain rfl : loc = loc' := Option.some.inj (hloc.symm.trans hloc')
    exact .inr ⟨last, (List.mem_filter.1 (List.mem_of_getLast? hlast)).1, hof⟩
  · obtain rfl : loc = loc' := Option.some.inj (hloc.symm.trans hloc')
    exact .inl hhead

end Current

/-! ## Time zones -/

/-- Data as `readTimeZoneFile` makes it (a transition carries its local time), with transitions in order by both
clocks. -/
structure Zone where
  data : Data
  sound : data.Sound
  localtime_eq : ∀ tr ∈ data.transitions, ∀ loc, data.localtimeOf tr = some loc → tr.localtime = tr.gmttime + loc.gmtOffset
  gmt_increasing : data.Increasing ⟨true⟩
  local_increasing : data.Increasing ⟨false⟩

namespace Zone
variable (zone : Zone)

def tz : TimeZone := ⟨some zone.data⟩

theorem current_isSome (comp : Comp) (time : Int) : (zone.data.current comp time).isSome := by
  obtain ⟨loc, hloc, -⟩ := zone.sound.current comp time
  rw [hloc]
  rfl

/-- The local time in force at a time. -/
def localAt (time : Int) : Localtime := (zone.data.current ⟨true⟩ time).get (zone.current_isSome _ _)

/-- The local time that `fromLocalTime` finds for a reading of the local clock. -/
def shownBy (reading : Int) : Localtime := (zone.data.current ⟨false⟩ reading).get (zone.current_isSome _ _)

/-- What the local clock shows, in seconds. -/
def reading (time : Int) : Int := time + (zone.localAt time).gmtOffset

/-- The clock has not been put back from later than now. -/
def Settled (time : Int) : Prop :=
  ∀ tr ∈ zone.data.transitions, time < tr.gmttime → zone.reading time < tr.localtime

/-- It is daylight saving time, the clock has been put back by an hour from later than now, and an hour from now it is
standard time and the same minute of the day. -/
def HourBack (time : Int) : Prop :=
  (zone.localAt time).isDst = true ∧
    (zone.shownBy (zone.reading time)).gmtOffset = (zone.localAt time).gmtOffset - 3600 ∧
    (zone.localAt (time + 3600)).isDst = false ∧
    zone.reading (time + 3600) % 86400 / 60 = zone.reading time % 86400 / 60

theorem current_localAt (time : Int) : zone.data.current ⟨true⟩ time = some (zone.localAt time) := by
  simp [localAt]

theorem current_shownBy (reading : Int) : zone.data.current ⟨false⟩ reading = some (zone.shownBy reading) := by
  simp [shownBy]

variable {zone} {time : Int}

/-- The transition that a local time comes from. -/
theorem last_of_mem {comp : Comp} {loc : Localtime} (hcurrent : zone.data.current comp time = some loc)
    (htr : tr ∈ zone.data.transitions) (hle : comp.key tr ≤ time) :
    ∃ last, (zone.data.transitions.filter fun tr => comp.key tr ≤ time).getLast? = some last ∧
      tr ∈ zone.data.transitions.filter (fun tr => comp.key tr ≤ time) ∧ comp.key last ≤ time ∧
      last.localtime = last.gmttime + loc.gmtOffset := by
  have hmem : tr ∈ zone.data.transitions.filter fun tr => comp.key tr ≤ time := by simp [htr, hle]
  obtain ⟨loc', hloc', ⟨last, hlast, hof⟩ | ⟨hnil, -⟩⟩ := zone.sound.current comp time
  · obtain rfl : loc = loc' := Option.some.inj (hcurrent.symm.trans hloc')
    obtain ⟨hlast', hkey⟩ := List.mem_filter.1 (List.mem_of_getLast? hlast)
    exact ⟨last, hlast, hmem, by simpa using hkey, zone.localtime_eq last hlast' loc hof⟩
  · rw [hnil] at hmem
    cases hmem

/-- A transition that has happened is in the past by the local clock too. -/
theorem localtime_le (htr : tr ∈ zone.data.transitions) (h : tr.gmttime ≤ time) : tr.localtime ≤ zone.reading time := by
  obtain ⟨last, hlast, hmem, hle, hlocal⟩ := last_of_mem (zone.current_localAt time) htr h
  have hkey : tr.localtime ≤ last.localtime := key_le_last (zone.local_increasing.filter _) hlast hmem
  simp only [Comp.key_gmt] at hle
  unfold reading
  omega

/-- A time that is settled is found again. -/
theorem Settled.shownBy_eq (h : zone.Settled time) : zone.shownBy (zone.reading time) = zone.localAt time := by
  have hsame : (zone.data.transitions.filter fun tr => Comp.key ⟨false⟩ tr ≤ zone.reading time) =
      zone.data.transitions.filter fun tr => Comp.key ⟨true⟩ tr ≤ time := by
    refine List.filter_congr fun tr htr => ?_
    rw [Bool.eq_iff_iff, decide_eq_true_eq, decide_eq_true_eq, Comp.key_gmt, Comp.key_local]
    constructor
    · intro hle
      by_contra hlt
      have := h tr htr (by omega)
      omega
    · exact localtime_le htr
  have hcurrent : zone.data.current ⟨false⟩ (zone.reading time) = zone.data.current ⟨true⟩ time := by
    rw [Data.current, Data.current, hsame]
  rw [current_localAt, current_shownBy] at hcurrent
  exact Option.some.inj hcurrent

/-- A time that is not settled is taken for a later one, with a smaller offset. -/
theorem shownBy_lt (h : ¬ zone.Settled time) :
    (zone.shownBy (zone.reading time)).gmtOffset < (zone.localAt time).gmtOffset := by
  unfold Settled at h
  push Not at h
  obtain ⟨tr, htr, hgmt, hlocal⟩ := h
  obtain ⟨last, hlast, hmem, hle, hlast'⟩ := last_of_mem (zone.current_shownBy (zone.reading time)) htr hlocal
  have hkey : tr.gmttime ≤ last.gmttime := key_le_last (zone.gmt_increasing.filter _) hlast hmem
  have hreading : zone.reading time = time + (zone.localAt time).gmtOffset := rfl
  simp only [Comp.key_local] at hle
  omega

/-! ## The conversions -/

variable (utc : Utc)

/-- What `toLocalTime` returns. -/
def localTm (zone : Zone) (time : Int) : Tm :=
  { utc.gmtimeR (zone.reading time) with
    tmIsdst := if (zone.localAt time).isDst then 1 else 0
    tmGmtoff := (zone.localAt time).gmtOffset
    tmZone := TimeZone.stringAt zone.data.abbreviation (zone.localAt time).arrbIdx }

theorem toLocalTime_eq (time : Int) : zone.tz.toLocalTime utc time = some (zone.localTm utc time) := by
  have hfind := findLocaltime_eq zone.gmt_increasing ⟨time, 0, 0⟩
  rw [Comp.key_gmt, current_localAt] at hfind
  have harrb := zone.sound.arrb_le _ (zone.sound.named (zone.current_localAt time))
  simp only [TimeZone.toLocalTime, tz, hfind, check_of harrb, Option.bind_eq_bind, Option.bind_some, Option.pure_def]
  rfl

theorem localTm_isdst (time : Int) : (zone.localTm utc time).tmIsdst = 0 ↔ (zone.localAt time).isDst = false := by
  cases hdst : (zone.localAt time).isDst <;> simp [localTm, hdst]

/-- Hour and minute are compared. -/
theorem localTm_minute (time time' : Int) :
    (zone.localTm utc time).tmHour = (zone.localTm utc time').tmHour ∧
        (zone.localTm utc time).tmMin = (zone.localTm utc time').tmMin ↔
      zone.reading time % 86400 / 60 = zone.reading time' % 86400 / 60 := by
  simp only [localTm, utc.hour, utc.min]
  omega

/-- The time that `fromLocalTime` finds before the correction. -/
def found (zone : Zone) (time : Int) : Int := zone.reading time - (zone.shownBy (zone.reading time)).gmtOffset

/-- `fromLocalTime` takes off an hour. -/
def Hacked (zone : Zone) (time : Int) : Prop :=
  (zone.localAt time).isDst = true ∧ (zone.localAt (zone.found time)).isDst = false ∧
    zone.reading (zone.found time) % 86400 / 60 = zone.reading time % 86400 / 60

instance (zone : Zone) (time : Int) : Decidable (zone.Hacked time) := inferInstanceAs (Decidable (_ ∧ _ ∧ _))

theorem fromLocalTime_eq (time : Int) : zone.tz.fromLocalTime utc (zone.localTm utc time) =
    some (if zone.Hacked time then zone.found time - 3600 else zone.found time) := by
  have hseconds : utc.timegm (zone.localTm utc time) = zone.reading time := utc.timegm_gmtimeR _ _ _ _
  have hfind := findLocaltime_eq zone.local_increasing ⟨0, zone.reading time, 0⟩
  rw [Comp.key_local, current_shownBy] at hfind
  have hfound : zone.reading time - (zone.shownBy (zone.reading time)).gmtOffset = zone.found time := rfl
  have hback : zone.reading time - 3600 - (zone.shownBy (zone.reading time)).gmtOffset = zone.found time - 3600 := by
    omega
  have hdata : zone.tz.data = some zone.data := rfl
  unfold TimeZone.fromLocalTime
  simp only [hdata, hseconds, hfind, hfound, hback, toLocalTime_eq, Option.bind_eq_bind, Option.bind_some, ne_eq,
    localTm_isdst, localTm_minute, Option.pure_def]
  by_cases hdst : (zone.localAt time).isDst = false
  · have hnot : ¬ zone.Hacked time := by simp [Hacked, hdst]
    rw [if_neg (not_not.2 hdst), if_neg hnot]
  · have hhacked : zone.Hacked time ↔ (zone.localAt (zone.found time)).isDst = false ∧
        zone.reading (zone.found time) % 86400 / 60 = zone.reading time % 86400 / 60 := by
      simp [Hacked, hdst]
    simp only [if_pos hdst, ← apply_ite some, hhacked]

theorem Settled.found_eq (h : zone.Settled time) : zone.found time = time := by
  rw [found, h.shownBy_eq, reading]
  omega

theorem lt_found (h : ¬ zone.Settled time) : time < zone.found time := by
  have := shownBy_lt h
  have hreading : zone.reading time = time + (zone.localAt time).gmtOffset := rfl
  unfold found
  omega

theorem hourBack_iff : zone.HourBack time ↔ zone.Hacked time ∧ zone.found time = time + 3600 := by
  have hfound : zone.found time = time + 3600 ↔
      (zone.shownBy (zone.reading time)).gmtOffset = (zone.localAt time).gmtOffset - 3600 := by
    have hreading : zone.reading time = time + (zone.localAt time).gmtOffset := rfl
    unfold found
    omega
  unfold HourBack Hacked
  rw [← hfound]
  constructor
  · rintro ⟨hdst, hlater, hstandard, hminute⟩
    rw [hlater]
    exact ⟨⟨hdst, hstandard, hminute⟩, rfl⟩
  · rintro ⟨⟨hdst, hstandard, hminute⟩, hlater⟩
    rw [hlater] at hstandard hminute
    exact ⟨hdst, hlater, hstandard, hminute⟩

/-- A time comes back from its local time exactly when the clock has not been put back from later than now, or by an
hour that the correction knows. -/
theorem local_round_trip_iff (zone : Zone) (time : Int) :
    (∃ tm, zone.tz.toLocalTime utc time = some tm ∧ zone.tz.fromLocalTime utc tm = some time) ↔
      zone.Settled time ∨ zone.HourBack time := by
  have hback : (∃ tm, zone.tz.toLocalTime utc time = some tm ∧ zone.tz.fromLocalTime utc tm = some time) ↔
      (if zone.Hacked time then zone.found time - 3600 else zone.found time) = time := by
    simp [toLocalTime_eq, fromLocalTime_eq]
  rw [hback, hourBack_iff]
  by_cases hsettled : zone.Settled time
  · have hnot : ¬ zone.Hacked time := by
      rintro ⟨hdst, hstandard, -⟩
      rw [hsettled.found_eq, hdst] at hstandard
      cases hstandard
    simp [hsettled, hnot, hsettled.found_eq]
  · have hlt := lt_found hsettled
    by_cases hhacked : zone.Hacked time
    · simp only [hsettled, hhacked, if_true, true_and, false_or]
      omega
    · simp only [hsettled, hhacked, if_false, false_and, or_self, iff_false]
      omega

/-! ## A clock that goes back by half an hour -/

/-- Lord Howe Island, 2013 and 2014: at UTC +11 in summer and at +10:30 in winter. -/
def lordHoweData : Data where
  transitions := [⟨1380987000, 1381026600, 1⟩, ⟨1396710000, 1396747800, 0⟩]
  localtimes := [⟨37800, false, 0⟩, ⟨39600, true, 6⟩]
  abbreviation := [43, 49, 48, 51, 48, 0, 43, 49, 49, 0]

def lordHowe : Zone where
  data := lordHoweData
  sound := {
    nonempty := by decide
    idx_lt := by decide
    arrb_le := by
      have harrb : ∀ loc ∈ lordHoweData.localtimes, loc.arrbIdx ≤ lordHoweData.abbreviation.length := by decide
      exact fun loc hnamed => harrb loc hnamed.mem }
  localtime_eq := by decide
  gmt_increasing := by
    unfold Data.Increasing
    decide
  local_increasing := by
    unfold Data.Increasing
    decide

/-- Summer and winter time have their own offsets. -/
theorem lordHowe_gmtOffset (time : Int) :
    (lordHowe.localAt time).gmtOffset = if (lordHowe.localAt time).isDst then 39600 else 37800 := by
  have hoffset : ∀ loc ∈ lordHoweData.localtimes, loc.gmtOffset = if loc.isDst then 39600 else 37800 := by decide
  exact hoffset _ (lordHowe.sound.named (lordHowe.current_localAt time)).mem

/-- The last second of summer time comes back as one half an hour earlier, although the two readings of a time differ in
`isDst`. -/
theorem half_hour_lost :
    (∀ time time', time ≠ time' → lordHowe.reading time = lordHowe.reading time' →
        (lordHowe.localAt time).isDst ≠ (lordHowe.localAt time').isDst) ∧
      ∃ tm, lordHowe.tz.toLocalTime .exact 1396709999 = some tm ∧
        lordHowe.tz.fromLocalTime .exact tm = some 1396708199 := by
  constructor
  · intro time time' hne hreading hdst
    unfold reading at hreading
    rw [lordHowe_gmtOffset, lordHowe_gmtOffset, hdst] at hreading
    omega
  · refine ⟨_, toLocalTime_eq .exact 1396709999, ?_⟩
    decide +kernel

end Zone
end ChatReactor
