import Mathlib.Order.Bounds.Basic
import Mathlib.Algebra.Order.BigOperators.Group.List
import Mathlib.Algebra.Order.Ring.Int
import Mathlib.Data.List.Induction
import ChatReactor.SudokuStat

/-!
# The sliding window of the statistics is exact

`Windows f g last` says that the two buffers show `f` (the requests of a second) and `g` (the sum of their latencies)
up to `last`. Each branch of `place` keeps it, for the functions changed at one second. A second before the window is
dropped and the start of the window never moves back, so that no second comes in again whose responses are lost.

The sums that are shown are wrapped around; they are the sums themselves if these are below `2^63` (`recordResponse_exact`).
-/

namespace ChatReactor
namespace SudokuStat

/-- `f` with its value at `second` changed. -/
def record (f : Int → Int) (second : Int) (change : Int → Int) : Int → Int := fun t => if t = second then change (f t) else f t

structure Windows (s : SudokuStat) (f g : Int → Int) (last : Int) : Prop where
  sizes : s.requests.size = s.latencies.size
  requests : s.requests.Shows f last
  latencies : s.latencies.Shows g last

variable {s : SudokuStat} {f g : Int → Int} {last : Int}

/-- An empty window shows anything. -/
theorem Windows.of_size_zero (hsizes : s.requests.size = s.latencies.size) (h : s.requests.size = 0) :
    s.Windows f g last where
  sizes := hsizes
  requests i hi := by omega
  latencies i hi := by omega

theorem Windows.addBack (h : s.Windows f g last) (hsize : 0 < s.requests.size) (elapsed_us : Int) :
    ∃ s', s.addBack elapsed_us = some s' ∧ s'.lastSecond = s.lastSecond ∧ 0 < s'.requests.size ∧
      s'.Windows (record f last (· + 1)) (record g last (addLatency elapsed_us)) last := by
  obtain ⟨requests, hr, hrsize, hrshows⟩ : ∃ b, s.requests.modifyBack (· + 1) = some b ∧
      b.size = s.requests.size ∧ b.Shows (record f last (· + 1)) last :=
    h.requests.modifyBack hsize fun t _ _ => rfl
  obtain ⟨latencies, hl, hlsize, hlshows⟩ : ∃ b, s.latencies.modifyBack (addLatency elapsed_us) = some b ∧
      b.size = s.latencies.size ∧ b.Shows (record g last (addLatency elapsed_us)) last :=
    h.latencies.modifyBack (h.sizes ▸ hsize) fun t _ _ => rfl
  refine ⟨{ s with requests := requests, latencies := latencies }, ?_, rfl, hrsize ▸ hsize, ?_, hrshows, hlshows⟩
  · simp [SudokuStat.addBack, hr, hl]
  · simp only [hrsize, hlsize, h.sizes]

/-- A new second, of which nothing is recorded yet. -/
theorem Windows.pushSecond (h : s.Windows f g last) (hf : f (last + 1) = 0) (hg : g (last + 1) = 0) :
    s.pushSecond.Windows f g (last + 1) where
  sizes := by simp only [SudokuStat.pushSecond, CircularBuffer.size_pushBack, h.sizes]
  requests := by
    have hpush := h.requests.pushBack
    rwa [hf] at hpush
  latencies := by
    have hpush := h.latencies.pushBack
    rwa [hg] at hpush

theorem size_pushSecond (s : SudokuStat) : 0 < s.pushSecond.requests.size := by
  have hsize : s.pushSecond.requests.size = min (s.requests.size + 1) 60 := CircularBuffer.size_pushBack _ _
  omega

variable {s : SudokuStat}

/-- The loop of the short jump stops at the second, with a window that ends there. -/
theorem Windows.advance {second : Int} (fuel : Nat) (h : s.Windows f g s.lastSecond)
    (hf : ∀ t, s.lastSecond < t → f t = 0) (hg : ∀ t, s.lastSecond < t → g t = 0) (hsize : 0 < s.requests.size)
    (hle : s.lastSecond ≤ second) (hfuel : (second - s.lastSecond).toNat ≤ fuel) :
    (advance second fuel s).lastSecond = second ∧ 0 < (advance second fuel s).requests.size ∧
      (advance second fuel s).Windows f g second := by
  induction fuel generalizing s with
  | zero =>
    obtain rfl : s.lastSecond = second := by omega
    exact ⟨rfl, hsize, h⟩
  | succ fuel ih =>
    unfold SudokuStat.advance
    split_ifs with hlt
    · have hpush := h.pushSecond (hf _ (by omega)) (hg _ (by omega))
      refine ih ⟨hpush.sizes, hpush.requests, hpush.latencies⟩ ?_ ?_ s.size_pushSecond ?_ ?_
      · intro t ht
        exact hf t (by simp only at ht; omega)
      · intro t ht
        exact hg t (by simp only at ht; omega)
      · simp only
        omega
      · simp only
        omega
    · obtain rfl : s.lastSecond = second := by omega
      exact ⟨rfl, hsize, h⟩

/-- A second of the window, by its index. -/
theorem Windows.modify_at (h : s.Windows f g s.lastSecond) {second : Int} (hlt : second ≤ s.lastSecond)
    (hle : s.lastSecond - s.requests.size + 1 ≤ second) (elapsed_us : Int) :
    ∃ s', (do
        let requests ← s.requests.modify (second - (s.lastSecond - s.requests.size + 1)).toNat (· + 1)
        let latencies ← s.latencies.modify (second - (s.lastSecond - s.requests.size + 1)).toNat (addLatency elapsed_us)
        some { s with requests := requests, latencies := latencies } : Option SudokuStat) = some s' ∧
      s'.lastSecond = max s.lastSecond second ∧ 0 < s'.requests.size ∧
      s'.Windows (record f second (· + 1)) (record g second (addLatency elapsed_us)) s'.lastSecond := by
  generalize hidx : (second - (s.lastSecond - s.requests.size + 1)).toNat = idx
  have hsecond : s.lastSecond - s.requests.size + 1 + idx = second := by omega
  obtain ⟨requests, hr, hrsize, hrshows⟩ : ∃ b, s.requests.modify idx (· + 1) = some b ∧
      b.size = s.requests.size ∧ b.Shows (record f second (· + 1)) s.lastSecond :=
    h.requests.modify (by omega) fun t _ _ => by rw [hsecond, record]
  obtain ⟨latencies, hl, hlsize, hlshows⟩ : ∃ b, s.latencies.modify idx (addLatency elapsed_us) = some b ∧
      b.size = s.latencies.size ∧ b.Shows (record g second (addLatency elapsed_us)) s.lastSecond :=
    h.latencies.modify (h.sizes ▸ by omega) fun t _ _ => by rw [← h.sizes, hsecond, record]
  refine ⟨{ s with requests := requests, latencies := latencies }, by simp [hr, hl], ?_, ?_, ?_, hrshows, hlshows⟩
  · simp only
    omega
  · simp only [hrsize]
    omega
  · simp only [hrsize, hlsize, h.sizes]

/-- Every branch of `place` puts the response where it belongs, and the window ends at the latest second. -/
theorem Windows.place (h : s.Windows f g s.lastSecond) (hf : ∀ t, s.lastSecond < t → f t = 0)
    (hg : ∀ t, s.lastSecond < t → g t = 0)
    (hstart : s.lastSecond = 0 ∧ s.requests.size = 0 ∨ 0 < s.lastSecond ∧ 0 < s.requests.size) {second : Int}
    (hsecond : 1 ≤ second) (elapsed_us : Int) :
    ∃ s', s.place second elapsed_us = some s' ∧ s'.lastSecond = max s.lastSecond second ∧ 0 < s'.requests.size ∧
      s'.Windows (record f second (· + 1)) (record g second (addLatency elapsed_us)) s'.lastSecond := by
  unfold SudokuStat.place
  simp only
  split_ifs with hsame hnext hahead hshort hback hbefore
  · -- the same second
    subst hsame
    obtain ⟨s', hs', hlast, hsize, hw⟩ := h.addBack (by omega) elapsed_us
    exact ⟨s', hs', by omega, hsize, hlast ▸ hw⟩
  · -- the next second, or the first one of all
    have hw : s.Windows f g (second - 1) := by
      rcases hnext with rfl | hzero
      · simpa using h
      · exact .of_size_zero h.sizes (by omega)
    have hw' := hw.pushSecond (hf _ (by omega)) (hg _ (by omega))
    rw [Int.sub_add_cancel] at hw'
    have hw'' : ({ s with lastSecond := second } : SudokuStat).pushSecond.Windows f g second :=
      ⟨hw'.sizes, hw'.requests, hw'.latencies⟩
    obtain ⟨s', hs', hlast, hsize, hw⟩ := hw''.addBack (size_pushSecond _) elapsed_us
    have hlast' : s'.lastSecond = second := hlast
    exact ⟨s', hs', by omega, hsize, hlast'.symm ▸ hw⟩
  · -- a short jump
    obtain ⟨hlast, hsize, hw⟩ := h.advance _ hf hg (by omega) (le_of_lt hahead) (le_refl _)
    obtain ⟨s', hs', hlast', hsize', hw'⟩ := hw.addBack hsize elapsed_us
    have hlast'' : s'.lastSecond = second := hlast'.trans hlast
    exact ⟨s', hs', by omega, hsize', hlast''.symm ▸ hw'⟩
  · -- a jump past the whole window
    have hw : ({ s with requests := .empty, latencies := .empty, lastSecond := second } : SudokuStat).Windows f g
        (second - 1) := .of_size_zero rfl rfl
    have hw' := hw.pushSecond (hf _ (by omega)) (hg _ (by omega))
    rw [Int.sub_add_cancel] at hw'
    obtain ⟨s', hs', hlast, hsize, hw⟩ := hw'.addBack (size_pushSecond _) elapsed_us
    have hlast' : s'.lastSecond = second := hlast
    exact ⟨s', hs', by omega, hsize, hlast'.symm ▸ hw⟩
  · -- a second of the window
    exact h.modify_at (by omega) (by omega) elapsed_us
  · -- a second before the window
    refine ⟨s, rfl, by omega, by omega, h.sizes, h.requests.congr ?_, h.latencies.congr ?_⟩
    · intro t ht _
      exact if_neg (by omega)
    · intro t ht _
      rw [← h.sizes] at ht
      exact if_neg (by omega)
  · omega

/-! ## Whole runs -/

/-- The arguments of one `recordResponse`. -/
structure Response where
  now : Int
  receive : Int
  solved : Bool

namespace Response

def second (r : Response) : Int := secondsSinceEpoch r.now

/-- As the program computes it. -/
def latency (r : Response) : Int := CheckedInt.toInt64 (r.now - r.receive)

def call (r : Response) : Call := .recordResponse r.now r.receive r.solved

end Response

/-- The responses with a latency that is not negative. -/
def recorded (rs : List Response) : List Response := rs.filter fun r => 0 ≤ r.latency

/-- Those of one second. -/
def recordedAt (rs : List Response) (second : Int) : List Response :=
  (recorded rs).filter fun r => r.second = second

def requestsAt (rs : List Response) (second : Int) : Int := (recordedAt rs second).length

def latencyAt (rs : List Response) (second : Int) : Int := ((recordedAt rs second).map Response.latency).sum

variable {rs : List Response} {r : Response}

theorem recorded_append_bad (h : r.latency < 0) : recorded (rs ++ [r]) = recorded rs := by
  simp [recorded, h]

theorem recorded_append (h : 0 ≤ r.latency) : recorded (rs ++ [r]) = recorded rs ++ [r] := by
  simp [recorded, h]

theorem requestsAt_append (h : 0 ≤ r.latency) : requestsAt (rs ++ [r]) = record (requestsAt rs) r.second (· + 1) := by
  ext t
  simp only [requestsAt, recordedAt, recorded_append h, record, List.filter_append]
  by_cases ht : t = r.second
  · simp [ht]
  · have ht' : ¬ r.second = t := fun h => ht h.symm
    simp [ht, ht']

theorem latencyAt_append (h : 0 ≤ r.latency) :
    latencyAt (rs ++ [r]) = record (latencyAt rs) r.second (· + r.latency) := by
  ext t
  simp only [latencyAt, recordedAt, recorded_append h, record, List.filter_append]
  by_cases ht : t = r.second
  · simp [ht]
  · have ht' : ¬ r.second = t := fun h => ht h.symm
    simp [ht, ht']

theorem latencyAt_nonneg (rs : List Response) (second : Int) : 0 ≤ latencyAt rs second := by
  refine List.sum_nonneg fun x hx => ?_
  obtain ⟨r, hr, rfl⟩ := List.mem_map.1 hx
  exact of_decide_eq_true (List.mem_filter.1 (List.mem_filter.1 hr).1).2

/-- The sum of the latencies of a second, in 64 bits. -/
def shownAt (rs : List Response) (second : Int) : Int := CheckedInt.toInt64 (latencyAt rs second)

/-- It does not matter when the sum is wrapped around. -/
theorem shownAt_append (h : 0 ≤ r.latency) :
    shownAt (rs ++ [r]) = record (shownAt rs) r.second (addLatency r.latency) := by
  ext t
  rw [shownAt, latencyAt_append h, record, record]
  split
  · simp only [addLatency, shownAt, CheckedInt.toInt64]
    omega
  · rfl

/-- The statistics are those of the responses. -/
structure Exact (s : SudokuStat) (rs : List Response) : Prop where
  windows : s.Windows (requestsAt rs) (shownAt rs) s.lastSecond
  none : recorded rs = [] → s.lastSecond = 0 ∧ s.requests.size = 0
  greatest : recorded rs ≠ [] → IsGreatest {t | ∃ r ∈ recorded rs, r.second = t} s.lastSecond
  positive : recorded rs ≠ [] → 0 < s.lastSecond ∧ 0 < s.requests.size

theorem Exact.recordedAt_later (h : s.Exact rs) {t : Int} (ht : s.lastSecond < t) : recordedAt rs t = [] := by
  rw [recordedAt, List.filter_eq_nil_iff]
  intro r hr
  have hle : r.second ≤ s.lastSecond := (h.greatest (List.ne_nil_of_mem hr)).2 ⟨r, hr, rfl⟩
  simp only [decide_eq_true_eq]
  omega

theorem Exact.fresh : SudokuStat.fresh.Exact [] where
  windows := .of_size_zero rfl rfl
  none _ := ⟨rfl, rfl⟩
  greatest h := absurd rfl h
  positive h := absurd rfl h

/-- A response with a negative latency changes counters that the window does not depend on. -/
theorem Exact.bad {s' : SudokuStat} (h : s.Exact rs) (hr : r.latency < 0) (hlast : s'.lastSecond = s.lastSecond)
    (hrequests : s'.requests = s.requests) (hlatencies : s'.latencies = s.latencies) : s'.Exact (rs ++ [r]) := by
  have hrec : recorded (rs ++ [r]) = recorded rs := recorded_append_bad hr
  have hrequestsAt : requestsAt (rs ++ [r]) = requestsAt rs := by
    unfold requestsAt recordedAt
    rw [hrec]
  have hshownAt : shownAt (rs ++ [r]) = shownAt rs := by
    unfold shownAt latencyAt recordedAt
    rw [hrec]
  constructor
  · rw [hrequestsAt, hshownAt, hlast]
    exact ⟨by rw [hrequests, hlatencies, h.windows.sizes], hrequests ▸ h.windows.requests,
      hlatencies ▸ h.windows.latencies⟩
  · rw [hrec, hlast, hrequests]
    exact h.none
  · rw [hrec, hlast]
    exact h.greatest
  · rw [hrec, hlast, hrequests]
    exact h.positive

/-- The latest second of all is the later of the latest so far and the new one. -/
theorem Exact.greatest_append (h : s.Exact rs) (hr : 0 ≤ r.latency) (hsecond : 1 ≤ r.second) :
    IsGreatest {t | ∃ r' ∈ recorded (rs ++ [r]), r'.second = t} (max s.lastSecond r.second) := by
  rw [recorded_append hr]
  by_cases hnil : recorded rs = []
  · have hlast := (h.none hnil).1
    rw [hnil, max_eq_right (by omega)]
    constructor
    · exact ⟨r, by simp, rfl⟩
    · rintro t ⟨r', hr', rfl⟩
      obtain rfl : r' = r := by simpa using hr'
      exact le_refl _
  · obtain ⟨⟨r₀, hr₀, hr₀s⟩, hle⟩ := h.greatest hnil
    constructor
    · rcases max_choice s.lastSecond r.second with hmax | hmax
      · exact ⟨r₀, List.mem_append_left _ hr₀, by rw [hmax, hr₀s]⟩
      · exact ⟨r, by simp, by rw [hmax]⟩
    · rintro t ⟨r', hr', rfl⟩
      rcases List.mem_append.1 hr' with hr' | hr'
      · exact le_max_of_le_left (hle ⟨r', hr', rfl⟩)
      · obtain rfl : r' = r := by simpa using hr'
        exact le_max_right _ _

theorem Exact.call (h : s.Exact rs) (hsecond : 1 ≤ r.second) : ∃ s', s.call r.call = some s' ∧ s'.Exact (rs ++ [r]) := by
  unfold SudokuStat.call Response.call
  simp only [recordResponse]
  rw [if_pos h.windows.sizes]
  by_cases hr : r.latency < 0
  · rw [if_pos (by exact hr)]
    exact ⟨_, rfl, h.bad hr rfl rfl rfl⟩
  · rw [if_neg (by exact hr)]
    have hlatency : 0 ≤ r.latency := by omega
    have hstart : s.lastSecond = 0 ∧ s.requests.size = 0 ∨ 0 < s.lastSecond ∧ 0 < s.requests.size := by
      by_cases hnil : recorded rs = []
      · exact .inl (h.none hnil)
      · exact .inr (h.positive hnil)
    have hw : ({ s.countResponse r.solved with
        totalLatency := addLatency r.latency (s.countResponse r.solved).totalLatency } : SudokuStat).Windows
        (requestsAt rs) (shownAt rs) s.lastSecond := ⟨h.windows.sizes, h.windows.requests, h.windows.latencies⟩
    obtain ⟨s', hs', hlast, hsize, hw'⟩ := hw.place
      (fun t ht => by simp [requestsAt, h.recordedAt_later ht])
      (fun t ht => by simp [shownAt, latencyAt, h.recordedAt_later ht, CheckedInt.toInt64])
      hstart hsecond r.latency
    have hlast' : s'.lastSecond = max s.lastSecond r.second := hlast
    refine ⟨s', (congrArg (Option.bind · _) hs').trans (if_pos hw'.sizes), ?_, ?_, ?_, ?_⟩
    · rw [requestsAt_append hlatency, shownAt_append hlatency]
      exact hw'
    · intro hnil
      simp [recorded_append hlatency] at hnil
    · intro _
      rw [hlast']
      exact h.greatest_append hlatency hsecond
    · intro _
      exact ⟨by omega, hsize⟩

/-- After any responses of the seconds from `1` on, whatever their order, each entry of the two windows is the number,
and the sum of the latencies, of all that were recorded with its second, if no latency and no such sum overflows; no
`assert` fails on the way. -/
theorem recordResponse_exact (rs : List Response) (hrs : ∀ r ∈ rs, 1 ≤ r.second)
    (hrange : ∀ r ∈ rs, -2 ^ 63 ≤ r.now - r.receive ∧ r.now - r.receive < 2 ^ 63) (hsums : ∀ r ∈ rs, latencyAt rs r.second < 2 ^ 63) :
    (∀ r ∈ rs, r.latency = r.now - r.receive) ∧ ∃ s, SudokuStat.fresh.calls (rs.map Response.call) = some s ∧
      s.requests.size = s.latencies.size ∧ s.requests.size ≤ 60 ∧
      (recorded rs = [] → s.lastSecond = 0) ∧
      (recorded rs ≠ [] → IsGreatest {t | ∃ r ∈ recorded rs, r.second = t} s.lastSecond) ∧
      ∀ i, i < s.requests.size →
        s.requests.elems[i]? = some (requestsAt rs (s.lastSecond - s.requests.size + 1 + i)) ∧
        s.latencies.elems[i]? = some (latencyAt rs (s.lastSecond - s.requests.size + 1 + i)) := by
  refine ⟨fun r hr => CheckedInt.toInt64_eq (hrange r hr), ?_⟩
  have hshown : ∀ t, shownAt rs t = latencyAt rs t := by
    intro t
    refine CheckedInt.toInt64_eq ⟨Int.le_trans (by decide) (latencyAt_nonneg rs t), ?_⟩
    by_cases hnil : recordedAt rs t = []
    · simp [latencyAt, hnil]
    · obtain ⟨r, hr⟩ := List.exists_mem_of_ne_nil _ hnil
      obtain ⟨hrec, hsecond⟩ := List.mem_filter.1 hr
      exact of_decide_eq_true hsecond ▸ hsums r (List.mem_filter.1 hrec).1
  have hexact : ∃ s, SudokuStat.fresh.calls (rs.map Response.call) = some s ∧ s.Exact rs := by
    clear hrange hsums hshown
    induction rs using List.reverseRecOn with
    | nil => exact ⟨_, rfl, .fresh⟩
    | append_singleton rs r ih =>
      obtain ⟨s, hs, h⟩ := ih fun r' hr' => hrs r' (List.mem_append_left _ hr')
      obtain ⟨s', hs', h'⟩ := h.call (hrs r (by simp))
      refine ⟨s', ?_, h'⟩
      rw [calls] at hs ⊢
      simp [List.map_append, List.foldlM_append, hs, hs']
  obtain ⟨s, hs, h⟩ := hexact
  refine ⟨s, hs, h.windows.sizes, s.requests.size_le, fun hnil => (h.none hnil).1, h.greatest, fun i hi => ⟨?_, ?_⟩⟩
  · exact h.windows.requests i hi
  · rw [h.windows.sizes] at hi ⊢
    rw [h.windows.latencies i hi, hshown]

/-- A jump ahead by two seconds, a step back, and a response from before the window. -/
theorem recordResponse_jumps :
    ∃ s, SudokuStat.fresh.calls ([⟨100000000, 99000000, true⟩, ⟨102000000, 101999000, true⟩,
        ⟨101500000, 101000000, false⟩, ⟨90000000, 90000000, true⟩].map Response.call) = some s ∧
      s.requests.size = s.latencies.size := by
  obtain ⟨-, s, hs, hsize, -⟩ := recordResponse_exact [⟨100000000, 99000000, true⟩, ⟨102000000, 101999000, true⟩,
    ⟨101500000, 101000000, false⟩, ⟨90000000, 90000000, true⟩] (by decide) (by decide) (by decide)
  exact ⟨s, hs, hsize⟩

/-- Two latencies of `2^62` in the second 1. -/
theorem recordResponse_overflow :
    ∃ s, SudokuStat.fresh.calls ([⟨1000000, 1000000 - 2 ^ 62, true⟩, ⟨1000000, 1000000 - 2 ^ 62, true⟩].map Response.call) = some s ∧
      s.lastSecond = 1 ∧ s.requests.elems = [2] ∧ s.latencies.elems = [-2 ^ 63] ∧
      latencyAt [⟨1000000, 1000000 - 2 ^ 62, true⟩, ⟨1000000, 1000000 - 2 ^ 62, true⟩] 1 = 2 ^ 63 :=
  ⟨_, rfl, rfl, rfl, rfl, rfl⟩

end SudokuStat
end ChatReactor
