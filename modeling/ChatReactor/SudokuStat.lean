import Mathlib.Algebra.Group.Nat.Defs
import Mathlib.Algebra.Ring.Int.Defs
import ChatReactor.Lib.CheckedInt
import ChatReactor.Lib.CircularBuffer

/-!
# The statistics of the Sudoku server (`excercises/sudoku/stat.h`)

| here | there |
| --- | --- |
| `SudokuStat.fresh` | the constructor |
| `addLatency` | `+= elapsed_us` |
| `addBack` | `++requests_.back(); latencies_.back() += elapsed_us;` |
| `pushSecond` | `requests_.push_back(0); latencies_.push_back(0);` |
| `advance` | the `while (lastSecond_ < second)` of the short jump |
| `Item` | what one `<<` of `report` writes |

A time is its number of microseconds. The result `none` is a failed `assert` or a `back()` of an empty
buffer. Latencies and their sums wrap around in 64 bits. What counts calls is an integer without a bound, as no
run of the server comes near `2^63` of them. The mutex makes every call one step.
-/

namespace ChatReactor

/-- `Timestamp::secondsSinceEpoch`. -/
def secondsSinceEpoch (microSeconds : Int) : Int := microSeconds.tdiv 1000000

def kSeconds : Nat := 60

structure SudokuStat where
  lastSecond : Int
  requests : CircularBuffer Int kSeconds
  latencies : CircularBuffer Int kSeconds
  totalRequests : Int
  totalResponses : Int
  totalSolved : Int
  badRequests : Int
  droppedRequests : Int
  totalLatency : Int
  badLatency : Int

namespace SudokuStat

def fresh : SudokuStat where
  lastSecond := 0
  requests := .empty
  latencies := .empty
  totalRequests := 0
  totalResponses := 0
  totalSolved := 0
  badRequests := 0
  droppedRequests := 0
  totalLatency := 0
  badLatency := 0

def reset (s : SudokuStat) : SudokuStat :=
  { s with
    lastSecond := 0, requests := .empty, latencies := .empty, totalRequests := 0, totalResponses := 0,
    totalSolved := 0, badRequests := 0, totalLatency := 0, badLatency := 0 }

def addLatency (elapsed_us sum : Int) : Int := CheckedInt.toInt64 (sum + elapsed_us)

def addBack (s : SudokuStat) (elapsed_us : Int) : Option SudokuStat := do
  let requests ← s.requests.modifyBack (· + 1)
  let latencies ← s.latencies.modifyBack (addLatency elapsed_us)
  some { s with requests := requests, latencies := latencies }

def pushSecond (s : SudokuStat) : SudokuStat :=
  { s with requests := s.requests.pushBack 0, latencies := s.latencies.pushBack 0 }

/-- The loop of the short jump; the fuel is the number of its rounds. -/
def advance (second : Int) : Nat → SudokuStat → SudokuStat
  | 0, s => s
  | fuel + 1, s =>
    if s.lastSecond < second then advance second fuel { s.pushSecond with lastSecond := s.lastSecond + 1 } else s

/-- The part of `recordResponse` that finds the entry of the second. -/
def place (s : SudokuStat) (second elapsed_us : Int) : Option SudokuStat :=
  let firstSecond := s.lastSecond - s.requests.size + 1
  if s.lastSecond = second then s.addBack elapsed_us
  else if s.lastSecond + 1 = second ∨ s.lastSecond = 0 then
    { s with lastSecond := second }.pushSecond.addBack elapsed_us
  else if s.lastSecond < second then
    if second < s.lastSecond + kSeconds then
      (advance second (second - s.lastSecond).toNat s).addBack elapsed_us
    else
      { s with requests := .empty, latencies := .empty, lastSecond := second }.pushSecond.addBack elapsed_us
  else if firstSecond ≤ second then do
    let idx := (second - firstSecond).toNat
    let requests ← s.requests.modify idx (· + 1)
    let latencies ← s.latencies.modify idx (addLatency elapsed_us)
    some { s with requests := requests, latencies := latencies }
  else if second < firstSecond then some s
  else none

/-- The counters that `recordResponse` changes before it looks at the latency. -/
def countResponse (s : SudokuStat) (solved : Bool) : SudokuStat :=
  { s with
    totalResponses := s.totalResponses + 1, totalSolved := if solved then s.totalSolved + 1 else s.totalSolved }

def recordResponse (s : SudokuStat) (now receive : Int) (solved : Bool) : Option SudokuStat :=
  let second := secondsSinceEpoch now
  let elapsed_us := CheckedInt.toInt64 (now - receive)
  if s.requests.size = s.latencies.size then
    let s := s.countResponse solved
    if elapsed_us < 0 then some { s with badLatency := s.badLatency + 1 }
    else do
      let s ← { s with totalLatency := addLatency elapsed_us s.totalLatency }.place second elapsed_us
      if s.requests.size = s.latencies.size then some s else none
  else none

/-- The calls that change the statistics. -/
inductive Call
  | recordRequest
  | recordBadRequest
  | recordDroppedRequest
  | recordResponse (now receive : Int) (solved : Bool)
  deriving DecidableEq

def call (s : SudokuStat) : Call → Option SudokuStat
  | .recordRequest => some { s with totalRequests := s.totalRequests + 1 }
  | .recordBadRequest => some { s with badRequests := s.badRequests + 1 }
  | .recordDroppedRequest => some { s with droppedRequests := s.droppedRequests + 1 }
  | .recordResponse now receive solved => s.recordResponse now receive solved

def calls (s : SudokuStat) (cs : List Call) : Option SudokuStat := cs.foldlM call s

/-! ## The report -/

inductive Item
  | text (s : String)
  | number (n : Int)
  deriving DecidableEq

/-- A line with one number. -/
def line (label : String) (n : Int) : List Item := [.text label, .number n, .text "\n"]

/-- A line with a window, and the line with its sum. -/
def windowLines (label : String) (l : List Int) (labelSum : String) : List Item :=
  [.text label] ++ l.flatMap (fun n => [.text " ", .number n]) ++ [.text "\n"] ++ line labelSum l.sum

/-- What `report` writes, where the pool's queue holds `queueSize` tasks. -/
def report (s : SudokuStat) (queueSize : Nat) : List Item :=
  let requests := s.requests.elems.sum
  let latency := s.latencies.elems.sum
  line "task_queue_size " queueSize
    ++ line "total_requests " s.totalRequests
    ++ line "total_responses " s.totalResponses
    ++ line "total_solved " s.totalSolved
    ++ line "bad_requests " s.badRequests
    ++ line "dropped_requests " s.droppedRequests
    ++ line "latency_sum_us " s.totalLatency
    ++ (if s.badLatency > 0 then line "bad_latency" s.badLatency else [])
    ++ line "last_second " s.lastSecond
    ++ windowLines "requests_per_second" s.requests.elems "requests_60s "
    ++ windowLines "latency_sum_us_per_second" s.latencies.elems "latency_sum_us_60s "
    ++ line "latency_us_60s " (if requests = 0 then 0 else latency.tdiv requests)
    ++ line "latency_us_avg " (if s.totalResponses = 0 then 0 else s.totalLatency.tdiv s.totalResponses)

/-! ## What `reset` forgets

Every member but `droppedRequests_`. No other member depends on it, so that two runs that differ in it at their start
differ in it alone, by the same amount. -/

def setDropped (d : Int) (s : SudokuStat) : SudokuStat := { s with droppedRequests := d }

theorem reset_eq (s : SudokuStat) : s.reset = fresh.setDropped s.droppedRequests := rfl

theorem addBack_setDropped (s : SudokuStat) (d elapsed_us : Int) :
    (s.setDropped d).addBack elapsed_us = (s.addBack elapsed_us).map (setDropped d) := by
  unfold addBack
  cases h₁ : s.requests.modifyBack (· + 1) with
  | none => simp [setDropped, h₁]
  | some requests =>
    cases h₂ : s.latencies.modifyBack (addLatency elapsed_us) with
    | none => simp [setDropped, h₁, h₂]
    | some latencies => simp [setDropped, h₁, h₂]

theorem advance_setDropped (second d : Int) (fuel : Nat) (s : SudokuStat) :
    advance second fuel (s.setDropped d) = (advance second fuel s).setDropped d := by
  induction fuel generalizing s with
  | zero => rfl
  | succ fuel ih =>
    unfold advance
    by_cases h : s.lastSecond < second
    · rw [if_pos h, if_pos (by exact h), ← ih]
      rfl
    · rw [if_neg h, if_neg (by exact h)]

theorem place_setDropped (s : SudokuStat) (d second elapsed_us : Int) :
    (s.setDropped d).place second elapsed_us = (s.place second elapsed_us).map (setDropped d) := by
  unfold place
  have hlast : (s.setDropped d).lastSecond = s.lastSecond := rfl
  have hrequests : (s.setDropped d).requests = s.requests := rfl
  have hlatencies : (s.setDropped d).latencies = s.latencies := rfl
  simp only [hlast, hrequests, hlatencies]
  split_ifs
  · exact addBack_setDropped s d elapsed_us
  · rw [← addBack_setDropped]
    rfl
  · rw [advance_setDropped, addBack_setDropped]
  · rw [← addBack_setDropped]
    rfl
  · cases s.requests.modify (second - (s.lastSecond - s.requests.size + 1)).toNat (· + 1) with
    | none => rfl
    | some requests =>
      cases s.latencies.modify (second - (s.lastSecond - s.requests.size + 1)).toNat (addLatency elapsed_us) with
      | none => rfl
      | some latencies => rfl
  · rfl
  · rfl

theorem recordResponse_setDropped (s : SudokuStat) (d now receive : Int) (solved : Bool) :
    (s.setDropped d).recordResponse now receive solved = (s.recordResponse now receive solved).map (setDropped d) := by
  unfold recordResponse
  have hsizes : ((s.setDropped d).requests.size = (s.setDropped d).latencies.size) =
    (s.requests.size = s.latencies.size) := rfl
  simp only [hsizes]
  generalize CheckedInt.toInt64 (now - receive) = elapsed_us
  split_ifs with h₁ h₂
  · rfl
  · have hplace := place_setDropped
      { s.countResponse solved with totalLatency := addLatency elapsed_us (s.countResponse solved).totalLatency } d
      (secondsSinceEpoch now) elapsed_us
    refine (congrArg (Option.bind · _) hplace).trans ?_
    cases place _ (secondsSinceEpoch now) elapsed_us with
    | none => rfl
    | some t =>
      simp only [Option.map_some, Option.bind_some]
      by_cases ht : t.requests.size = t.latencies.size
      · simp [ht, setDropped]
      · simp [ht, setDropped]
  · rfl

theorem call_setDropped (s : SudokuStat) (d : Int) (c : Call) :
    (s.setDropped d).call c = (s.call c).map (setDropped (d + [c].count .recordDroppedRequest)) := by
  cases c with
  | recordRequest => simp [call, setDropped]
  | recordBadRequest => simp [call, setDropped]
  | recordDroppedRequest => simp [call, setDropped]
  | recordResponse now receive solved => simpa [call] using recordResponse_setDropped s d now receive solved

/-- A run from another count of dropped requests is the same run, with the same requests dropped on top. -/
theorem calls_setDropped (s : SudokuStat) (d : Int) (cs : List Call) :
    (s.setDropped d).calls cs = (s.calls cs).map (setDropped (d + cs.count .recordDroppedRequest)) := by
  induction cs generalizing s d with
  | nil => simp [calls]
  | cons c cs ih =>
    simp only [calls, List.foldlM_cons, call_setDropped] at ih ⊢
    cases s.call c with
    | none => rfl
    | some s₁ =>
      refine (ih s₁ _).trans ?_
      have hcount : (c :: cs).count .recordDroppedRequest =
          [c].count .recordDroppedRequest + cs.count Call.recordDroppedRequest := by
        rw [← List.count_append, List.singleton_append]
      rw [hcount, Int.natCast_add, ← Int.add_assoc]
      rfl

/-- The counter counts. -/
theorem droppedRequests_calls {s t : SudokuStat} {cs : List Call} (h : s.calls cs = some t) :
    t.droppedRequests = s.droppedRequests + cs.count .recordDroppedRequest := by
  have hself := calls_setDropped s s.droppedRequests cs
  rw [show s.setDropped s.droppedRequests = s from rfl, h, Option.map_some, Option.some.injEq] at hself
  exact congrArg droppedRequests hself

theorem report_setDropped (s : SudokuStat) (d : Int) (queueSize : Nat) :
    (s.setDropped d).report queueSize = s.report queueSize ↔ d = s.droppedRequests := by
  constructor
  · intro h
    simp only [report, setDropped, line, List.append_assoc, List.cons_append, List.nil_append,
      List.cons.injEq, Item.number.injEq, true_and] at h
    exact h.1
  · rintro rfl
    rfl

/-- After a history, a reset and a continuation the report is that of the continuation alone exactly if the history
has dropped no request (or the continuation runs into a `back()` of an empty window, with or without the history). -/
theorem report_reset_iff {h : List Call} {s : SudokuStat} (hs : fresh.calls h = some s) (k : List Call)
    (queueSize : Nat) :
    (s.reset.calls k).map (report · queueSize) = (fresh.calls k).map (report · queueSize) ↔
      .recordDroppedRequest ∉ h ∨ fresh.calls k = none := by
  have hdropped := droppedRequests_calls hs
  rw [reset_eq, calls_setDropped]
  cases hk : fresh.calls k with
  | none => simp
  | some t =>
    have ht := droppedRequests_calls hk
    simp only [Option.map_some, Option.some.injEq, reduceCtorEq, or_false, report_setDropped, ht, hdropped]
    have hfresh : fresh.droppedRequests = 0 := rfl
    rw [hfresh, ← List.count_eq_zero]
    omega

/-- A request dropped before the reset is still in the report. -/
theorem report_reset_dropped :
    (fresh.calls [.recordDroppedRequest]).bind (fun s => (s.reset.calls []).map (report · 0)) ≠
      (fresh.calls []).map (report · 0) := by
  decide

theorem report_reset_kept :
    ∃ s, fresh.calls [.recordRequest, .recordResponse 5000000 4000000 true] = some s ∧
      (s.reset.calls [.recordBadRequest]).map (report · 0) = (fresh.calls [.recordBadRequest]).map (report · 0) := by
  obtain ⟨s, hs⟩ := Option.isSome_iff_exists.1
    (by decide : (fresh.calls [.recordRequest, .recordResponse 5000000 4000000 true]).isSome = true)
  exact ⟨s, hs, (report_reset_iff hs _ 0).2 (.inl (by decide))⟩

end SudokuStat
end ChatReactor
