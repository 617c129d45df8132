import ChatReactor.LoggingProofs
import ChatReactor.Lib.Runs

/-!
# The cached time

| here | there |
| --- | --- |
| `LogEvent`, `LogState.step` | a record of one thread at some time, and `Logger::setTimeZone` (`Logging.cc:215-218`) |
| `written` | what `formatTime` puts at the front of a record |
| `fresh` | the same without `t_time`: the slow path for the time and the zone of the record |
| `Current` | the condition for the two to agree all along |

`t_time` is kept for a second, whatever the zone. The argument goes over a run with the zone that `t_time` was formatted in
(`Holds`), or none as long as the thread has not logged.
-/

namespace ChatReactor

open BoundedLog Decimal

inductive LogEvent
  /-- a record, and what is in the memory of its stream -/
  | log (time : Int) (data : Fin kSmallBuffer → UInt8)
  | setTimeZone (tz : TimeZone)

structure LogState where
  /-- `g_logTimeZone` -/
  zone : TimeZone
  thread : LogThread

section
variable (utc : Utc)

namespace LogState

def step (s : LogState) : LogEvent → Option LogState
  | .log time data => (formatTime utc s.zone s.thread time (LogStream.new data)).map fun r => { s with thread := r.1 }
  | .setTimeZone tz => some { s with zone := tz }

def written (s : LogState) (time : Int) (data : Fin kSmallBuffer → UInt8) : Option (List UInt8) :=
  (formatTime utc s.zone s.thread time (LogStream.new data)).map fun r => r.2.buffer.toString

end LogState

/-- The date and the time, formatted for this record; `none` is a failed assertion here, too. -/
def fresh (zone : TimeZone) (time : Int) : Option (List UInt8) := do
  let text ← dateTime utc zone (secondsOf time)
  let us ← usText zone.valid (microsecondsOf time)
  return text ++ us

/-- Every record that is reached begins with the text for its time in the zone set at that moment. -/
def LogState.Fresh (s : LogState) (events : List LogEvent) : Prop :=
  ∀ before time data after s', events = before ++ .log time data :: after →
    Run (step utc) (fun _ _ => True) s before s' → s'.written utc time data = fresh utc s'.zone time

/-- The zone `t_time` is formatted in, after a record that finds the text for `last` in the zone `src`. -/
def srcAfter (src : Option TimeZone) (last : Int) (zone : TimeZone) (seconds : Int) : Option TimeZone :=
  if seconds = last then src else some zone

/-- From a `t_time` formatted in the zone `src` for the second `last`: in each record, as far as its assertions let the
program come, the zone of `t_time` and the zone set give the same text for the second. -/
def Current : Option TimeZone → Int → TimeZone → List LogEvent → Prop
  | _, _, _, [] => True
  | src, last, _, .setTimeZone tz :: events => Current src last tz events
  | src, last, zone, .log time _ :: events =>
    let seconds := secondsOf time
    let src := srcAfter src last zone seconds
    (usText zone.valid (microsecondsOf time)).isSome →
      src.bind (dateTime utc · seconds) = dateTime utc zone seconds ∧
        ((dateTime utc zone seconds).isSome → Current src seconds zone events)

/-- `t_time` is the text for `t_lastSecond` in the zone `src`. -/
def Holds (src : Option TimeZone) (th : LogThread) : Prop :=
  match src with
  | none => cString th.tTime = []
  | some tz => dateTime utc tz th.tLastSecond = some (cString th.tTime)

end

/-! ## One record -/

section
variable {utc : Utc} {zone : TimeZone} {seconds time : Int} {text : List UInt8}

theorem dateTime_spec (h : dateTime utc zone seconds = some text) : text.length = 17 ∧ 0 ∉ text := by
  simp only [dateTime, Option.bind_eq_bind, Option.bind_eq_some_iff, check_eq_some] at h
  obtain ⟨tm, -, year, -, month, -, _, hlen, hpure⟩ := h
  cases hpure
  refine ⟨hlen, ?_⟩
  simp [zero_not_mem_padded, zero_not_mem_zeroPadded]

theorem usText_spec {valid : Bool} {us : List UInt8} {microseconds : Int} (h : usText valid microseconds = some us) :
    us.length < 32 ∧ 0 ∉ us := by
  simp only [usText, Option.bind_eq_bind, Option.bind_eq_some_iff, check_eq_some] at h
  obtain ⟨_, hlen, _, -, hpure⟩ := h
  cases hpure
  refine ⟨hlen, ?_⟩
  cases valid <;> simp [zero_not_mem_zeroPadded]

/-- The cache after a record, and its text: that of the zone `src`, which is the zone set unless the second is the last
one. -/
theorem cacheTime_spec {src : Option TimeZone} {th th' : LogThread} (h : Holds utc src th)
    (hcache : cacheTime utc zone th seconds = some th') :
    th'.tLastSecond = seconds ∧ Holds utc (srcAfter src th.tLastSecond zone seconds) th' := by
  unfold cacheTime at hcache
  split at hcache
  · rename_i hne
    obtain ⟨text, htext, hpure⟩ := Option.bind_eq_some_iff.1 hcache
    cases hpure
    refine ⟨rfl, ?_⟩
    rw [srcAfter, if_neg hne, Holds, cString_terminated (dateTime_spec htext).2]
    exact htext
  · rename_i heq
    cases hcache
    rw [not_not] at heq
    exact ⟨heq.symm, by rwa [srcAfter, if_pos heq]⟩

/-- An empty stream has room for the text of the cache and the microseconds. -/
theorem formatTime_new {th th' : LogThread} {us : List UInt8} (data : Fin kSmallBuffer → UInt8)
    (hcache : cacheTime utc zone th (secondsOf time) = some th') (hus : usText zone.valid (microsecondsOf time) = some us)
    (hlen : (cString th'.tTime).length = 17) :
    ∃ s, formatTime utc zone th time (LogStream.new data) = some (th', s) ∧ s.buffer.toString = cString th'.tTime ++ us := by
  obtain ⟨hlt, hzero⟩ := usText_spec hus
  have hstr := cString_of_not_mem hzero
  have hstrLen : (cString us).length = us.length := congrArg List.length hstr
  obtain ⟨s₁, hs₁, h₁⟩ := LogStream.insertT_shows (LogStream.new_shows data) hlen (by decide)
  obtain ⟨s₂, hs₂, h₂⟩ := LogStream.insertT_shows h₁ hstrLen (by omega)
  refine ⟨s₂, ?_, ?_⟩
  · simp only [formatTime, hcache, hus, Option.bind_eq_bind, Option.bind_some, hs₁, hs₂, pure]
  · have hall := LogStream.emptyLog.offers_all [whole (cString th'.tTime), whole (cString us)] (by
      simp [LogStream.emptyLog, hlen, hstr, kSmallBuffer]
      omega)
    simpa [LogStream.emptyLog, hstr] using Eq.trans h₂ hall

/-- The constructor of `T` asserts the length. -/
theorem formatTime_eq_none {th th' : LogThread} (data : Fin kSmallBuffer → UInt8)
    (hcache : cacheTime utc zone th (secondsOf time) = some th') (hlen : (cString th'.tTime).length ≠ 17) :
    formatTime utc zone th time (LogStream.new data) = none := by
  simp [formatTime, hcache, insertT, check, hlen]

end

section
variable {utc : Utc} {src : Option TimeZone} {s s' : LogState} {time : Int} {data : Fin kSmallBuffer → UInt8}

namespace LogState

/-- A record begins with the text for its second in the zone of the cache. -/
theorem written_eq (h : Holds utc src s.thread) :
    s.written utc time data =
      ((srcAfter src s.thread.tLastSecond s.zone (secondsOf time)).bind (dateTime utc · (secondsOf time))).bind
        fun text => (usText s.zone.valid (microsecondsOf time)).map (text ++ ·) := by
  cases hcache : cacheTime utc s.zone s.thread (secondsOf time) with
  | none =>
    have hfail : secondsOf time ≠ s.thread.tLastSecond ∧ dateTime utc s.zone (secondsOf time) = none := by
      unfold cacheTime at hcache
      split at hcache
      · refine ⟨‹_›, ?_⟩
        cases htext : dateTime utc s.zone (secondsOf time) with
        | none => rfl
        | some text =>
          rw [htext] at hcache
          cases hcache
      · cases hcache
    simp [written, formatTime, hcache, srcAfter, hfail]
  | some th =>
    obtain ⟨hlast, hholds⟩ := cacheTime_spec h hcache
    generalize srcAfter src s.thread.tLastSecond s.zone (secondsOf time) = src at hholds ⊢
    cases src with
    | none =>
      -- nothing has been formatted: `t_time` is empty
      have hempty : cString th.tTime = [] := hholds
      rw [written, formatTime_eq_none data hcache (by rw [hempty]; decide)]
      rfl
    | some tz =>
      have htext : dateTime utc tz th.tLastSecond = some (cString th.tTime) := hholds
      rw [hlast] at htext
      rw [Option.bind_some, htext, Option.bind_some]
      cases hus : usText s.zone.valid (microsecondsOf time) with
      | none => simp [written, formatTime, hcache, hus]
      | some us =>
        obtain ⟨stream, hstream, hbytes⟩ := formatTime_new data hcache hus (dateTime_spec htext).1
        simp [written, hstream, hbytes]

/-- What a record leaves behind. -/
theorem step_log (h : Holds utc src s.thread) (hstep : s.step utc (.log time data) = some s') :
    s'.zone = s.zone ∧ s'.thread.tLastSecond = secondsOf time ∧
      Holds utc (srcAfter src s.thread.tLastSecond s.zone (secondsOf time)) s'.thread := by
  simp only [step, formatTime, Option.bind_eq_bind, Option.map_eq_some_iff, Option.bind_eq_some_iff] at hstep
  obtain ⟨r, ⟨th, hcache, us, -, s₁, -, s₂, -, hpure⟩, hs'⟩ := hstep
  cases hpure
  cases hs'
  exact ⟨rfl, cacheTime_spec h hcache⟩

theorem step_log_isSome (s : LogState) (time : Int) (data : Fin kSmallBuffer → UInt8) :
    (s.step utc (.log time data)).isSome = (s.written utc time data).isSome := by
  simp [step, written]

/-- With other microseconds neither text gets past the assertion, and the program ends. -/
theorem log_eq_none (data : Fin kSmallBuffer → UInt8) (h : Holds utc src s.thread)
    (hus : usText s.zone.valid (microsecondsOf time) = none) :
    s.written utc time data = fresh utc s.zone time ∧ s.step utc (.log time data) = none := by
  have hwritten : s.written utc time data = none := by simp [written_eq h, hus]
  have hsome : (s.step utc (.log time data)).isSome = _ := s.step_log_isSome time data
  constructor
  · simp [hwritten, fresh, hus]
  · simpa [hwritten] using hsome

/-- With microseconds of the asserted length, the two texts for the second decide. -/
theorem written_eq_fresh_iff (data : Fin kSmallBuffer → UInt8) (h : Holds utc src s.thread) {us : List UInt8}
    (hus : usText s.zone.valid (microsecondsOf time) = some us) :
    let text := (srcAfter src s.thread.tLastSecond s.zone (secondsOf time)).bind (dateTime utc · (secondsOf time))
    (s.written utc time data = fresh utc s.zone time ↔ text = dateTime utc s.zone (secondsOf time)) ∧
      (s.step utc (.log time data)).isSome = text.isSome := by
  intro text
  have hwritten : s.written utc time data = text.map (· ++ us) := by
    simp [written_eq h, text, hus, Option.map_eq_bind]
  have hfresh : fresh utc s.zone time = (dateTime utc s.zone (secondsOf time)).map (· ++ us) := by
    simp [fresh, hus, Option.map_eq_bind]
  constructor
  · rw [hwritten, hfresh]
    exact (Option.map_injective (List.append_left_injective us)).eq_iff
  · rw [step_log_isSome, hwritten, Option.isSome_map]

theorem fresh_cons {event : LogEvent} {events : List LogEvent} :
    s.Fresh utc (event :: events) ↔
      (∀ time data, event = .log time data → s.written utc time data = fresh utc s.zone time) ∧
        ∀ s', s.step utc event = some s' → s'.Fresh utc events := by
  constructor
  · refine fun h => ⟨?_, ?_⟩
    · rintro time data rfl
      exact h [] time data events s rfl (.nil s)
    · rintro s' hs' before time data after s'' rfl hrun
      exact h (event :: before) time data after s'' rfl (.cons trivial hs' hrun)
  · rintro ⟨hfirst, hrest⟩ before time data after s' heq hrun
    cases hrun with
    | nil =>
      cases heq
      exact hfirst time data rfl
    | cons _ hs' hrun =>
      cases heq
      exact hrest _ hs' _ _ _ _ _ rfl hrun

/-- The invariant of a run is `Holds`. -/
theorem fresh_iff_current (events : List LogEvent) (h : Holds utc src s.thread) :
    s.Fresh utc events ↔ Current utc src s.thread.tLastSecond s.zone events := by
  induction events generalizing src s with
  | nil => simp [Fresh, Current]
  | cons event events ih =>
    rw [fresh_cons]
    cases event with
    | setTimeZone tz =>
      have htail := ih (s := { s with zone := tz }) h
      simpa [step, Current] using htail
    | log time data =>
      have hnext : ∀ s', s.step utc (.log time data) = some s' → (s'.Fresh utc events ↔
          Current utc (srcAfter src s.thread.tLastSecond s.zone (secondsOf time)) (secondsOf time) s.zone events) := by
        intro s' hs'
        obtain ⟨hzone, hlast, hholds⟩ := step_log h hs'
        rw [ih hholds, hzone, hlast]
      simp only [Current]
      cases hus : usText s.zone.valid (microsecondsOf time) with
      | none =>
        obtain ⟨hwritten, hstep⟩ := log_eq_none data h hus
        refine iff_of_true ⟨?_, by simp [hstep]⟩ (by simp)
        rintro time' data' ⟨⟩
        exact hwritten
      | some us =>
        obtain ⟨heq, hsome⟩ := written_eq_fresh_iff data h hus
        constructor
        · rintro ⟨hfirst, hrest⟩ -
          have htext := heq.1 (hfirst time data rfl)
          refine ⟨htext, fun hok => ?_⟩
          obtain ⟨s', hs'⟩ := Option.isSome_iff_exists.1 (hsome.trans (htext ▸ hok))
          exact (hnext s' hs').1 (hrest s' hs')
        · intro hcurrent
          obtain ⟨htext, hrest⟩ := hcurrent rfl
          refine ⟨?_, fun s' hs' => (hnext s' hs').2 (hrest ?_)⟩
          · rintro time' data' ⟨⟩
            exact heq.2 htext
          · rw [← htext, ← hsome, hs', Option.isSome_some]

end LogState

/-- **The cached times are those of a fresh formatting**, from the first record of a thread on, exactly if the zone that the
second was formatted in and the zone set give the same text each time. -/
theorem cached_iff (utc : Utc) (zone : TimeZone) (tidString : List UInt8) (tidStringLength : Nat) (events : List LogEvent) :
    LogState.Fresh utc ⟨zone, LogThread.start tidString tidStringLength⟩ events ↔ Current utc none 0 zone events :=
  LogState.fresh_iff_current events (rfl : Holds utc none (LogThread.start tidString tidStringLength))

end

/-- A record, then `setTimeZone(TimeZone(8*3600, "CST"))`, and a record half a second later. -/
theorem stale_zone :
    ∃ s, Run (LogState.step Utc.exact) (fun _ _ => True) ⟨⟨none⟩, LogThread.start (bytesOf "    7 ") 6⟩
        [.log 1000000 (fun _ => 0), .setTimeZone (.new 28800 (bytesOf "CST"))] s ∧
      s.written Utc.exact 1500000 (fun _ => 0) = some (bytesOf "19700101 00:00:01.500000 ") ∧
      fresh Utc.exact s.zone 1500000 = some (bytesOf "19700101 08:00:01.500000 ") := by
  have heval : (exec (LogState.step Utc.exact) (fun _ _ => True) ⟨⟨none⟩, LogThread.start (bytesOf "    7 ") 6⟩
      [.log 1000000 (fun _ => 0), .setTimeZone (.new 28800 (bytesOf "CST"))]).map
        (fun s => (s.written Utc.exact 1500000 (fun _ => 0), fresh Utc.exact s.zone 1500000)) =
      some (some (bytesOf "19700101 00:00:01.500000 "), some (bytesOf "19700101 08:00:01.500000 ")) := by
    decide +kernel
  obtain ⟨s, hs, htexts⟩ := Option.map_eq_some_iff.1 heval
  exact ⟨s, Run.of_exec_eq hs, congrArg Prod.fst htexts, congrArg Prod.snd htexts⟩

end ChatReactor
