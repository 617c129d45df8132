import ChatReactor.TimerArmed
import ChatReactor.TimerCancel

/-!
# The timers of an `EventLoop` (`EventLoop.cc:138-158`)

| here | there |
| --- | --- |
| `Seconds` | a `double`, as `addTime` and the constructor of `Timer` read it |
| `runAt`, `runAfter`, `runEvery` | `EventLoop.cc:138-153`: the call of `TimerQueue::addTimer` each makes |
| `cancel` | `EventLoop.cc:155-158`: the one statement of its body is commented out |
| `iteration` | how often `poll` has returned: a record, not part of the program |
| `active` | the timerfd's channel is in `activeChannels_` and its handler has not been called |

The calls come from any thread; `addTimerInLoop` runs at once in the loop's thread and as a functor otherwise.
`TimerQueue::cancelInLoop` is not among the events: nothing calls it.

Without it a timer leaves the queue in one way only: it runs once, and the `reset` at the end of the `handleRead` that ran
it deletes it. `Over` says that this has happened or is about to happen, `Coming` that it is not.
-/

namespace ChatReactor

/-- A `double`: `static_cast<int64_t>(seconds * kMicroSecondsPerSecond)`, and whether it is greater than 0.0. -/
structure Seconds where
  micros : Int
  positive : Bool
  sign : positive = true → 0 ≤ micros

structure LoopTimers where
  queue : TimerQueue
  iteration : Nat
  active : Bool

namespace LoopTimers
open TimerQueue (Ok Placed Sound Armed Live Waiting live_iff isRun runEntry setHeap_ne heap_setHeap)

def init (clock : Int) : LoopTimers := { queue := .init clock, iteration := 0, active := false }

/-- `timerQueue_->addTimer(cb, time, 0.0)`, with the new `Timer` at `a`. -/
def runAt (a : Nat) (time : Int) : TimerQueue.Event := .newTimer a time 0 false

def runAfter (clock : Int) (a : Nat) (delay : Seconds) : TimerQueue.Event := runAt a (clock + delay.micros)

def runEvery (clock : Int) (a : Nat) (interval : Seconds) : TimerQueue.Event :=
  .newTimer a (clock + interval.micros) interval.micros interval.positive

/-- `EventLoop::cancel` does nothing. -/
def cancel (s : LoopTimers) (_timerId : ActiveTimer) : LoopTimers := s

inductive Event
  | runAt (a : Nat) (time : Int)
  | runAfter (a : Nat) (delay : Seconds)
  | runEvery (a : Nat) (interval : Seconds)
  | cancel (timerId : ActiveTimer)
  | addTimerInLoop (a : Nat)
  | setClock (clock : Int)
  /-- The kernel timer goes off. -/
  | expire
  /-- `poll` returns: the next iteration of the loop begins. -/
  | poll
  | handleRead
  | callback
  | finish

/-- What a step of the queue makes of the loop. -/
def onQueue (s : LoopTimers) (e : TimerQueue.Event) : Option LoopTimers :=
  (s.queue.step e).map fun q => { s with queue := q }

def step (s : LoopTimers) : Event → Option LoopTimers
  | .runAt a time => s.onQueue (runAt a time)
  | .runAfter a delay => s.onQueue (runAfter s.queue.clock a delay)
  | .runEvery a interval => s.onQueue (runEvery s.queue.clock a interval)
  | .cancel timerId => some (s.cancel timerId)
  | .addTimerInLoop a => s.onQueue (.addTimerInLoop a)
  | .setClock clock => s.onQueue (.setClock clock)
  | .expire => s.onQueue .expire
  | .poll => some { s with iteration := s.iteration + 1, active := s.queue.readable }
  | .handleRead => ({ s with active := false }).onQueue .handleRead
  | .callback => s.onQueue .callback
  | .finish => s.onQueue .finish

/-- What can happen: besides the conditions of the queue's own events, `handleRead` is called in an iteration whose
`poll` found the timerfd readable, before the next `poll`; and `Timestamp::now()` is after the epoch. -/
def Event.Legal (s : LoopTimers) : Event → Prop
  | .runAt a time => (LoopTimers.runAt a time).Legal s.queue
  | .runAfter a delay => (LoopTimers.runAfter s.queue.clock a delay).Legal s.queue
  | .runEvery a interval => (LoopTimers.runEvery s.queue.clock a interval).Legal s.queue
  | .cancel _ => True
  | .addTimerInLoop a => TimerQueue.Event.Legal s.queue (.addTimerInLoop a)
  | .setClock clock => 0 < clock
  | .expire => TimerQueue.Event.Legal s.queue .expire
  | .poll => s.queue.batch = none ∧ s.active = false
  | .handleRead => s.queue.batch = none ∧ s.active = true
  | .callback => TimerQueue.Event.Legal s.queue .callback
  | .finish => TimerQueue.Event.Legal s.queue .finish

instance (s : LoopTimers) : ∀ e : Event, Decidable (e.Legal s)
  | .runAt a time => inferInstanceAs (Decidable ((LoopTimers.runAt a time).Legal s.queue))
  | .runAfter a delay => inferInstanceAs (Decidable ((LoopTimers.runAfter s.queue.clock a delay).Legal s.queue))
  | .runEvery a interval => inferInstanceAs (Decidable ((LoopTimers.runEvery s.queue.clock a interval).Legal s.queue))
  | .cancel _ => .isTrue trivial
  | .addTimerInLoop a => inferInstanceAs (Decidable (TimerQueue.Event.Legal s.queue (.addTimerInLoop a)))
  | .setClock clock => inferInstanceAs (Decidable (0 < clock))
  | .expire => inferInstanceAs (Decidable (TimerQueue.Event.Legal s.queue .expire))
  | .poll => inferInstanceAs (Decidable (_ ∧ _))
  | .handleRead => inferInstanceAs (Decidable (_ ∧ _))
  | .callback => inferInstanceAs (Decidable (TimerQueue.Event.Legal s.queue .callback))
  | .finish => inferInstanceAs (Decidable (TimerQueue.Event.Legal s.queue .finish))

/-- The events lead from one state to the other, each of them possible where it happens. -/
abbrev Steps : LoopTimers → List Event → LoopTimers → Prop := Run step fun s e => e.Legal s

/-! ## What an event does -/

/-- The events of a run: the queue takes a step, `poll` returns, or nothing changes. -/
inductive Effect (s : LoopTimers) : LoopTimers → Prop
  | queue {e : TimerQueue.Event} {q : TimerQueue} (active : Bool) : e.Legal s.queue → e.Timely → (∀ x, e ≠ .cancelInLoop x) →
      s.queue.step e = some q → Effect s { s with queue := q, active := active }
  | poll : s.queue.batch = none → s.active = false →
      Effect s { s with iteration := s.iteration + 1, active := s.queue.readable }
  | cancel : Effect s s

variable {s s' s₁ : LoopTimers} {q q' q1 : TimerQueue} {x : ActiveTimer} {n : Int} {ex rest : List Entry}

theorem Effect.of_onQueue (e : TimerQueue.Event) (hl : e.Legal s.queue) (ht : e.Timely) (hne : ∀ x, e ≠ .cancelInLoop x)
    (hs : s.onQueue e = some s') : Effect s s' := by
  obtain ⟨q, hq, rfl⟩ := Option.map_eq_some_iff.1 hs
  exact .queue s.active hl ht hne hq

theorem step_effect {e : Event} (hl : e.Legal s) (hs : s.step e = some s') : Effect s s' := by
  cases e with
  | runAt a time => exact .of_onQueue (LoopTimers.runAt a time) hl (fun h => by cases h) (fun _ h => by cases h) hs
  | runAfter a delay => exact .of_onQueue (LoopTimers.runAfter s.queue.clock a delay) hl (fun h => by cases h) (fun _ h => by cases h) hs
  | runEvery a interval => exact .of_onQueue (LoopTimers.runEvery s.queue.clock a interval) hl interval.sign (fun _ h => by cases h) hs
  | cancel timerId =>
    cases hs
    exact .cancel
  | addTimerInLoop a => exact .of_onQueue (.addTimerInLoop a) hl trivial (fun _ h => by cases h) hs
  | setClock clock => exact .of_onQueue (.setClock clock) trivial hl (fun _ h => by cases h) hs
  | expire => exact .of_onQueue .expire hl trivial (fun _ h => by cases h) hs
  | poll =>
    cases hs
    exact .poll hl.1 hl.2
  | handleRead =>
    obtain ⟨q, hq, rfl⟩ := Option.map_eq_some_iff.1 hs
    exact .queue (e := .handleRead) false hl.1 trivial (fun _ h => by cases h) hq
  | callback => exact .of_onQueue .callback hl trivial (fun _ h => by cases h) hs
  | finish => exact .of_onQueue .finish hl trivial (fun _ h => by cases h) hs

/-! ## Every run -/

/-- A state of a run, with what is known of its queue. -/
structure Fine (s : LoopTimers) : Prop where
  sound : Sound s.queue
  armed : Armed False s.queue
  uncancelled : s.queue.cancelingTimers = .empty

/-- Only `cancelInLoop` puts an id into `cancelingTimers_`. -/
theorem cancelingTimers_step {e : TimerQueue.Event} (h : q.cancelingTimers = .empty) (hok : Ok q) (he : q.Effect e q')
    (hne : ∀ x, e ≠ .cancelInLoop x) : q'.cancelingTimers = .empty := by
  cases he with
  | @addTimerInLoop a t ha ht =>
    rw [TimerQueue.added_eq]
    exact h
  | cancelled | canceling | ignored => exact absurd rfl (hne _)
  | handleRead => rfl
  | @finish n ex q1 hb hq1 _ =>
    rw [TimerQueue.rearmed_eq]
    obtain ⟨_, _, _, rfl⟩ := hok.reset_frame hb hq1
    exact h
  | _ => exact h

theorem Fine.init {clock : Int} (hclock : 0 < clock) : Fine (init clock) :=
  ⟨⟨Ok.init clock, Placed.init clock⟩, Armed.init ⟨hclock, False.elim⟩, rfl⟩

theorem Fine.step {e : Event} (h : Fine s) (hl : e.Legal s) (hs : s.step e = some s') : Fine s' := by
  cases step_effect hl hs with
  | queue active hl ht hne hq =>
    have he := h.sound.ok.effect hl hq
    exact ⟨h.sound.step hl hq, h.armed.step h.sound.ok ht False.elim he, cancelingTimers_step h.uncancelled h.sound.ok he hne⟩
  | poll | cancel => exact ⟨h.sound, h.armed, h.uncancelled⟩

theorem Fine.steps {es : List Event} (h : Fine s) (hs : Steps s es s') : Fine s' := hs.invariant Fine Fine.step h

/-! ## A timer that is done with -/

/-- If the `Timer` of this id still exists, then it runs once and is in the batch that is being run. -/
def Over (x : ActiveTimer) (q : TimerQueue) : Prop :=
  ∀ t, q.heap x.timer = some t → t.sequence = x.sequence → x.timer ∈ q.expired.map Entry.timer ∧ t.repeat_ = false

theorem Over.not_live (h : Over x q) (hb : q.batch = none) : ¬q.Live x := by
  intro hlive
  obtain ⟨t, ht, hseq⟩ := live_iff.1 hlive
  have hex := (h t ht hseq).1
  rw [TimerQueue.expired, hb] at hex
  cases hex

/-- `reset` deletes it. -/
theorem Over.finish (h : Over x q) (hok : Ok q) (hb : q.batch = some ⟨n, ex, []⟩)
    (hq1 : ex.foldlM (TimerQueue.resetOne n) q.returned = some q1) : ¬q1.Live x := by
  have hfold := hok.resetAll hb hq1
    (fun q' l => ∀ t, q'.heap x.timer = some t → t.sequence = x.sequence → x.timer ∈ l ∧ t.repeat_ = false)
    (by
      intro q' a t l _ ht hrest u hu hseq
      unfold TimerQueue.resetTo at hu
      split at hu
      · rename_i hrep
        rcases heap_setHeap.1 hu with ⟨rfl, hv⟩ | ⟨hne, hu⟩
        · -- a timer that is put back repeats
          cases hv
          rw [TimerQueue.restart_sequence] at hseq
          rw [(hrest t ht hseq).2] at hrep
          cases hrep.1
        · obtain ⟨hl, honce⟩ := hrest u hu hseq
          exact ⟨(List.mem_cons.1 hl).resolve_left hne, honce⟩
      · obtain ⟨hne, hu⟩ := (heap_setHeap.1 hu).resolve_left (by simp)
        obtain ⟨hl, honce⟩ := hrest u hu hseq
        exact ⟨(List.mem_cons.1 hl).resolve_left hne, honce⟩)
    (by
      intro t ht hseq
      have hover := h t ht hseq
      rw [TimerQueue.expired, hb] at hover
      exact hover)
  intro hlive
  obtain ⟨t, ht, hseq⟩ := live_iff.1 hlive
  cases (hfold t ht hseq).1

/-- The id was given out, and its timer is done with: a sequence number is never used again, so that this lasts. -/
theorem Over.queue_step {e : TimerQueue.Event} (h : Over x q) (hx : x.sequence ≤ q.numCreated) (hok : Ok q)
    (he : q.Effect e q') : Over x q' ∧ x.sequence ≤ q'.numCreated := by
  cases he with
  | @newTimer a w i r hfree =>
    refine ⟨fun t ht hseq => ?_, Nat.le_succ_of_le hx⟩
    rcases heap_setHeap.1 ht with ⟨_, hv⟩ | ⟨_, ht⟩
    · cases hv
      have hnew : q.numCreated + 1 = x.sequence := hseq
      omega
    · exact h t ht hseq
  | @addTimerInLoop a t ha ht =>
    rw [TimerQueue.added_eq]
    exact ⟨h, hx⟩
  | cancelled =>
    refine ⟨fun t ht hseq => ?_, hx⟩
    exact h t ((heap_setHeap.1 ht).resolve_left (by simp)).2 hseq
  | handleRead hb _ => exact ⟨fun t ht hseq => absurd (live_iff.2 ⟨t, ht, hseq⟩) (h.not_live hb), hx⟩
  | callback hb ht _ =>
    refine ⟨fun t ht hseq => ?_, hx⟩
    have hover := h t ht hseq
    rw [TimerQueue.expired, hb] at hover
    exact hover
  | @finish n ex q1 hb hq1 _ =>
    have hlive := h.finish hok hb hq1
    have hnum : x.sequence ≤ q1.numCreated := by
      obtain ⟨_, _, _, rfl⟩ := hok.reset_frame hb hq1
      exact hx
    rw [TimerQueue.rearmed_eq]
    exact ⟨fun t ht hseq => absurd (live_iff.2 ⟨t, ht, hseq⟩) hlive, hnum⟩
  | canceling | ignored | setClock | expire => exact ⟨h, hx⟩

/-- A timer that does not exist is `Dead` for the queue, which nothing cancels. -/
theorem Fine.dead_iff (h : Fine s) (hx : x.sequence ≤ s.queue.numCreated) : TimerQueue.Dead x s.queue ↔ ¬s.queue.Live x := by
  constructor
  · intro hdead hlive
    have hin := (hdead.held hlive).1
    rw [h.uncancelled] at hin
    exact OrdSet.not_mem_empty x hin
  · intro hlive
    refine ⟨fun hact => hlive ?_, hx, fun hl => absurd hl hlive⟩
    obtain ⟨t, ht, hseq, _⟩ := h.sound.ok.inv.active hact
    exact live_iff.2 ⟨t, ht, hseq⟩

/-- The queue of a run of the loop makes a run of its own. -/
theorem Steps.queue {es : List Event} (hs : Steps s es s') : ∃ es', TimerQueue.Steps s.queue es' s'.queue := by
  induction hs with
  | nil => exact ⟨[], .nil _⟩
  | cons hl hs _ ih =>
    obtain ⟨es', hrest⟩ := ih
    cases step_effect hl hs with
    | queue active hl _ _ hq => exact ⟨_ :: es', .cons hl hq hrest⟩
    | poll | cancel => exact ⟨es', hrest⟩

/-- `poll` finds no batch, so that in the iterations after it the timer does not exist. -/
theorem Over.later {es : List Event} (h : Over x s.queue) (hfine : Fine s) (hx : x.sequence ≤ s.queue.numCreated)
    (hs : Steps s es s₁) (hlt : s.iteration < s₁.iteration) : TimerQueue.Dead x s₁.queue := by
  have hend : Fine s₁ ∧ (Over x s₁.queue ∧ x.sequence ≤ s₁.queue.numCreated) ∧
      (s.iteration < s₁.iteration → TimerQueue.Dead x s₁.queue) := by
    refine hs.invariant (fun s₁ => Fine s₁ ∧ (Over x s₁.queue ∧ x.sequence ≤ s₁.queue.numCreated) ∧
      (s.iteration < s₁.iteration → TimerQueue.Dead x s₁.queue)) ?_ ⟨hfine, ⟨h, hx⟩, fun hlt => absurd hlt (Nat.lt_irrefl _)⟩
    rintro s₁ e s₂ ⟨hfine, ⟨hover, hx⟩, hdead⟩ hl hs
    refine ⟨hfine.step hl hs, ?_⟩
    cases step_effect hl hs with
    | queue active hl _ _ hq =>
      have he := hfine.sound.ok.effect hl hq
      exact ⟨hover.queue_step hx hfine.sound.ok he, fun hlt => (hdead hlt).step hfine.sound.ok he⟩
    | poll hb _ => exact ⟨⟨hover, hx⟩, fun _ => (hfine.dead_iff hx).2 (hover.not_live hb)⟩
    | cancel => exact ⟨⟨hover, hx⟩, hdead⟩
  exact hend.2.2 hlt

/-- From every state of a later iteration on, the timer is not run. -/
def Quiet (x : ActiveTimer) (s : LoopTimers) : Prop :=
  ∀ es s₁, Steps s es s₁ → s.iteration < s₁.iteration →
    ∀ es' s₂, Steps s₁ es' s₂ → ∃ log, s₂.queue.ran = s₁.queue.ran ++ log ∧ ∀ r ∈ log, isRun x r = false

theorem Over.quiet (h : Over x s.queue) (hfine : Fine s) (hx : x.sequence ≤ s.queue.numCreated) : Quiet x s := by
  intro es s₁ hs hlt es' s₂ hs'
  have hdead := h.later hfine hx hs hlt
  have hfine₁ := hfine.steps hs
  have hlive : ¬s₁.queue.Live x := (hfine₁.dead_iff hdead.issued).1 hdead
  obtain ⟨es'', hqueue⟩ := hs'.queue
  obtain ⟨_, log, hran, hcome⟩ := hdead.steps hfine₁.sound.ok hqueue
  have hnone : s₁.queue.toCome x = [] := by
    unfold TimerQueue.toCome
    split
    · rfl
    · rw [if_neg hlive]
  rw [hnone, List.append_eq_nil_iff, List.map_eq_nil_iff, List.filter_eq_nil_iff] at hcome
  exact ⟨log, hran, fun r hr => eq_false_of_ne_true (hcome.1 r hr)⟩

/-! ## A timer that is still to run -/

/-- The timer is in the tables, or still to be inserted, or in the batch and repeats. -/
inductive Coming (x : ActiveTimer) (q : TimerQueue) : Prop
  | active : x ∈ q.activeTimers → Coming x q
  | waiting : q.Waiting x → Coming x q
  | repeats {t : Timer} : q.heap x.timer = some t → t.sequence = x.sequence → t.repeat_ = true →
      x.timer ∈ q.expired.map Entry.timer → Coming x q

theorem coming_of_not_over (h : Placed q) (hover : ¬Over x q) : Coming x q := by
  simp only [Over, not_forall] at hover
  obtain ⟨t, ht, hseq, hnot⟩ := hover
  rcases h.place ht with hact | hex | hqueued
  · rw [hseq] at hact
    exact .active hact
  · exact .repeats ht hseq (by simpa [hex] using hnot) hex
  · exact .waiting ⟨hqueued, live_iff.2 ⟨t, ht, hseq⟩⟩

/-- The rest of a batch runs, each timer as it is. -/
theorem callbacks (h : Ok s.queue) (hb : s.queue.batch = some ⟨n, ex, rest⟩) :
    ∃ log, Steps s (List.replicate rest.length .callback)
        { s with queue := { s.queue with batch := some ⟨n, ex, []⟩, ran := s.queue.ran ++ log } } ∧
      log.map runEntry = rest ∧ ∀ r ∈ log, s.queue.heap r.addr = some r.timer := by
  induction rest generalizing s with
  | nil =>
    refine ⟨[], ?_, rfl, by simp⟩
    rw [← hb, List.append_nil]
    exact .nil s
  | cons it rest ih =>
    have hl : TimerQueue.Event.Legal s.queue .callback := ⟨_, hb, List.cons_ne_nil it rest⟩
    obtain ⟨q', hq', hok⟩ := h.step hl
    cases h.effect hl hq' with
    | @callback n' ex' rest' it' t hb' ht hexp =>
      cases hb.symm.trans hb'
      have hs : s.step .callback = some { s with queue := { s.queue with
          batch := some ⟨n, ex, rest⟩, ran := s.queue.ran ++ [⟨n, it.timer, t⟩] } } := by
        simp only [LoopTimers.step, onQueue, hq', Option.map_some]
      obtain ⟨log, hrun, hlog, hheap⟩ := ih (s := { s with queue := { s.queue with
          batch := some ⟨n, ex, rest⟩, ran := s.queue.ran ++ [⟨n, it.timer, t⟩] } }) hok rfl
      refine ⟨⟨n, it.timer, t⟩ :: log, ?_, ?_, ?_⟩
      · rw [List.append_cons]
        exact .cons (e := .callback) hl hs hrun
      · rw [List.map_cons, hlog, runEntry, hexp]
      · intro r hr
        rcases List.mem_cons.1 hr with rfl | hr
        · exact ht
        · exact hheap r hr

/-- `reset` puts the timer back if it was in the batch, and does not see it if it is still to be inserted. -/
theorem Coming.finish (h : Coming x q) (hok : Ok q) (hcancel : q.cancelingTimers = .empty)
    (hb : q.batch = some ⟨n, ex, []⟩) (he : q.Effect .finish q') :
    q'.batch = none ∧ (x ∈ q'.activeTimers ∨ q'.Waiting x) := by
  cases he with
  | @finish n' ex' q1 hb' hq1 _ =>
    cases hb.symm.trans hb'
    rw [TimerQueue.rearmed_eq]
    refine ⟨(hok.reset_ran hb hq1).1, ?_⟩
    have hback := hok.finish_kept (y := x) hb hq1
    cases h with
    | active hact => exact .inl (hback (.inl hact))
    | waiting hw =>
      right
      have hkept : q1.heap x.timer = q.heap x.timer := by
        refine hok.resetAll hb hq1 (fun q' _ => q'.heap x.timer = q.heap x.timer) ?_ rfl
        intro q' a t l hinv _ hrest
        have hne : x.timer ≠ a := by
          rintro rfl
          exact (List.nodup_cons.1 hinv.nodup).1 (List.mem_append_right _ hw.1)
        obtain ⟨_, _, _, heq⟩ := TimerQueue.resetTo_frame n q' a t
        rw [heq]
        exact (setHeap_ne _ _ hne).trans hrest
      refine ⟨?_, ?_⟩
      · obtain ⟨_, _, _, rfl⟩ := hok.reset_frame hb hq1
        exact hw.1
      · rw [TimerQueue.Live, hkept]
        exact hw.2
    | @repeats t ht hseq hrep hex =>
      rw [TimerQueue.expired, hb] at hex
      refine .inl (hback (.inr ⟨t, ht, hseq, hrep, ?_, hex⟩))
      rw [hcancel]
      exact OrdSet.not_mem_empty x

/-- The loop comes to the end of its batch, and the timer is in the tables or still to be inserted. -/
theorem Coming.idle (h : Coming x s.queue) (hfine : Fine s) : ∃ es q, Steps s es { s with queue := q } ∧ q.batch = none ∧
    (x ∈ q.activeTimers ∨ q.Waiting x) := by
  cases hb : s.queue.batch with
  | none =>
    refine ⟨[], s.queue, .nil s, hb, ?_⟩
    cases h with
    | active hact => exact .inl hact
    | waiting hw => exact .inr hw
    | repeats _ _ _ hex =>
      rw [TimerQueue.expired, hb] at hex
      cases hex
  | some b =>
    obtain ⟨n, ex, rest⟩ := b
    obtain ⟨log, hrun, -, -⟩ := callbacks hfine.sound.ok hb
    have hfine₁ := hfine.steps hrun
    generalize hq : { s.queue with batch := some ⟨n, ex, []⟩, ran := s.queue.ran ++ log } = q at hrun hfine₁
    have hcoming : Coming x q := by
      subst hq
      cases h with
      | active hact => exact .active hact
      | waiting hw => exact .waiting hw
      | repeats ht hseq hrep hex =>
        rw [TimerQueue.expired, hb] at hex
        exact .repeats ht hseq hrep hex
    have hb₁ : q.batch = some ⟨n, ex, []⟩ := by rw [← hq]
    have hl : TimerQueue.Event.Legal q .finish := ⟨_, hb₁, rfl⟩
    obtain ⟨q', hq', -⟩ := hfine₁.sound.ok.step hl
    have hs : LoopTimers.step { s with queue := q } .finish = some { s with queue := q' } := congrArg (Option.map _) hq'
    refine ⟨_, q', hrun.append (.cons (by exact hl) hs (.nil _)), ?_⟩
    exact hcoming.finish hfine₁.sound.ok hfine₁.uncancelled hb₁ (hfine₁.sound.ok.effect hl hq')

/-- `addTimerInLoop` inserts the timer if it has not yet done so. -/
theorem Coming.inserted (h : Coming x s.queue) (hfine : Fine s) : ∃ es q, Steps s es { s with queue := q } ∧ q.batch = none ∧
    x ∈ q.activeTimers := by
  obtain ⟨es, q, hs, hb, hact | ⟨hqueued, hlive⟩⟩ := h.idle hfine
  · exact ⟨es, q, hs, hb, hact⟩
  · have hok : Ok q := (hfine.steps hs).sound.ok
    have hl : TimerQueue.Event.Legal q (.addTimerInLoop x.timer) := hqueued
    obtain ⟨q', hq', -⟩ := hok.step hl
    have hstep : LoopTimers.step { s with queue := q } (.addTimerInLoop x.timer) = some { s with queue := q' } :=
      congrArg (Option.map _) hq'
    refine ⟨_, q', hs.append (.cons (by exact hl) hstep (.nil _)), ?_⟩
    cases hok.effect hl hq' with
    | @addTimerInLoop _ t ha ht =>
      rw [TimerQueue.added_eq]
      obtain ⟨u, hu, hseq⟩ := live_iff.1 hlive
      cases ht.symm.trans hu
      exact ⟨hb, OrdSet.mem_insert.2 (.inl (by rw [hseq]))⟩

/-- In the next iteration, late enough, a timer in the tables runs. -/
theorem runs_next (hfine : Fine s) (hb : s.queue.batch = none) (hactive : s.active = false) (hx : x ∈ s.queue.activeTimers) :
    ∃ es s₁, Steps s es s₁ ∧ s.iteration < s₁.iteration ∧
      ∃ es' s₂ log, Steps s₁ es' s₂ ∧ s₂.queue.ran = s₁.queue.ran ++ log ∧ ∃ r ∈ log, isRun x r = true := by
  obtain ⟨t, ht, hseq, hent⟩ := hfine.sound.ok.inv.active hx
  obtain ⟨trigger, -, hfd, -⟩ := hfine.armed.cover hent (.inl hb)
  let s₁ : LoopTimers := { s with
    queue := { s.queue with readable := true, clock := max 1 t.expiration }, iteration := s.iteration + 1, active := true }
  have hs : Steps s [.expire, .setClock (max 1 t.expiration), .poll] s₁ := by
    refine .cons ?_ rfl (.cons ?_ rfl (.cons ?_ rfl (.nil _)))
    · intro hnone
      cases hfd.symm.trans hnone
    · exact lt_of_lt_of_le one_pos (le_max_left _ _)
    · exact ⟨hb, hactive⟩
  have hfine₁ := hfine.steps hs
  obtain ⟨q, hq, hok, hbatch, hran⟩ := hfine₁.sound.ok.enter hb
  have hread : s₁.step .handleRead = some { s₁ with queue := q, active := false } := congrArg (Option.map _) hq
  obtain ⟨log, hrun, hlog, hheap⟩ := callbacks (s := { s₁ with queue := q, active := false }) hok hbatch
  refine ⟨_, s₁, hs, Nat.lt_succ_self _, _, _, log, .cons (by exact ⟨hb, rfl⟩) hread hrun, ?_, ?_⟩
  · exact congrArg (· ++ log) hran
  · have hdue : (⟨t.expiration, x.timer⟩ : Entry) ∈ log.map runEntry := by
      rw [hlog]
      exact TimerQueue.mem_due.2 ⟨hent, le_max_right _ _⟩
    obtain ⟨r, hr, hentry⟩ := List.mem_map.1 hdue
    have hheap₁ : q.heap = s.queue.heap := by
      cases hfine₁.sound.ok.effect (e := .handleRead) hb hq
      rfl
    have haddr : r.addr = x.timer := congrArg Entry.timer hentry
    have htimer := hheap r hr
    rw [haddr, hheap₁] at htimer
    cases ht.symm.trans htimer
    exact ⟨r, hr, by simp [isRun, haddr, hseq]⟩

theorem Coming.not_quiet (h : Coming x s.queue) (hfine : Fine s) (hactive : s.active = false) : ¬Quiet x s := by
  intro hquiet
  obtain ⟨es, q, hs, hb, hx⟩ := h.inserted hfine
  obtain ⟨es₁, s₁, hs₁, hlt, es₂, s₂, log, hs₂, hran, r, hr, hrun⟩ := runs_next (hfine.steps hs) hb hactive hx
  obtain ⟨log', hran', hnot⟩ := hquiet _ s₁ (hs.append hs₁) hlt _ s₂ hs₂
  rw [hran] at hran'
  cases List.append_cancel_left hran'
  cases hrun.symm.trans (hnot r hr)

/-! ## `EventLoop::cancel` -/

/-- **After `cancel` a timer is not run in a later iteration exactly if it was done with before.** In any state of a run,
for an id that was given out: if the timer no longer exists, or runs once and is in the batch being run, then it is not run
in the iterations after this one; otherwise it can be run in one. (If the call comes from another thread
between `poll` and `handleRead`, then the timer may also be run in this very iteration.) -/
theorem cancel_quiet_iff {clock : Int} {es : List Event} (hclock : 0 < clock) (h : Steps (init clock) es s)
    (hx : x.sequence ≤ s.queue.numCreated) (hs : s.step (.cancel x) = some s') :
    (Over x s.queue → Quiet x s') ∧ (s.active = false → Quiet x s' → Over x s.queue) := by
  have hfine := (Fine.init hclock).steps h
  cases hs
  refine ⟨fun hover => hover.quiet hfine hx, fun hactive hquiet => ?_⟩
  by_contra hover
  exact (coming_of_not_over hfine.sound.placed hover).not_quiet hfine hactive hquiet

/-- A timer that runs once is cancelled by its own callback. -/
theorem cancel_quiet_self : ∃ s s', Steps (init 1)
      [.runAt 16 5, .addTimerInLoop 16, .expire, .setClock 10, .poll, .handleRead, .callback] s ∧
    s.step (.cancel ⟨16, 1⟩) = some s' ∧ s.queue.ran ≠ [] ∧ Quiet ⟨16, 1⟩ s' := by
  have h : Steps (init 1) [.runAt 16 5, .addTimerInLoop 16, .expire, .setClock 10, .poll, .handleRead, .callback] _ :=
    Run.of_exec _ _ rfl
  refine ⟨_, _, h, rfl, by decide, (cancel_quiet_iff (x := ⟨16, 1⟩) (by decide) h (by decide) rfl).1 ?_⟩
  intro t ht _
  cases ht
  exact ⟨by decide, rfl⟩

/-- `runAfter` for half a second; the timer is cancelled, and half a second later it is run. -/
theorem cancelled_timer_runs : ∃ s s' s₁ s₂,
    Steps (init 1) [.runAfter 16 ⟨500000, true, by decide⟩, .addTimerInLoop 16] s ∧
    s.step (.cancel ⟨16, 1⟩) = some s' ∧ s'.queue.ran = [] ∧ s.active = false ∧
    Steps s' [.setClock 500101, .expire, .poll] s₁ ∧ s'.iteration < s₁.iteration ∧
    Steps s₁ [.handleRead, .callback] s₂ ∧ s₂.queue.ran = [⟨500101, 16, ⟨500001, 0, false, 1⟩⟩] ∧
    ¬Quiet ⟨16, 1⟩ s' := by
  have h : Steps (init 1) [.runAfter 16 ⟨500000, true, by decide⟩, .addTimerInLoop 16] _ := Run.of_exec _ _ rfl
  refine ⟨_, _, _, _, h, rfl, rfl, rfl, Run.of_exec _ _ rfl, by decide, Run.of_exec _ _ rfl, rfl, fun hquiet => ?_⟩
  obtain ⟨log, hran, hnot⟩ := hquiet [.setClock 500101, .expire, .poll] _ (Run.of_exec _ _ rfl) (by decide)
    [.handleRead, .callback] _ (Run.of_exec _ _ rfl)
  cases hran
  exact absurd (hnot _ List.mem_cons_self) (by decide)

end LoopTimers
end ChatReactor
