import ChatReactor.TimerQueueProofs

/-!
# The timerfd is armed

`resetTimerfd` is called when an insertion by `addTimerInLoop` changes the earliest expiration, and at the end of
`handleRead`, if the earliest expiration is then `valid()`, that is, positive. Between two calls of `handleRead` the descriptor
covers every entry. During one it may be disarmed, and covers only the entries with an expiration that is not
positive: these are the ones `reset` would not arm it for, and they can only have been inserted by a callback.

That it is armed holds of all times (`Armed False`); when it goes off is known if no 64-bit time overflows (`Armed True`).
-/

namespace ChatReactor
namespace TimerQueue

/-- The descriptor is set, and if the times are `inRange`, it goes off at `when` or 100 microseconds after it was last set. -/
def ArmedFor (inRange : Prop) (q : TimerQueue) (when : Int) : Prop :=
  ∃ trigger reset, q.timerfd = some trigger ∧ q.lastReset = some reset ∧ (inRange → trigger ≤ max when (reset + 100))

/-- `Timestamp::now()` is after the epoch, and a `Timer` repeats only if its interval is positive (`Timer.h:21`), so that it
is not negative in microseconds. -/
def Event.Timely : Event → Prop
  | .setClock clock => 0 < clock
  | .newTimer _ _ interval repeat_ => repeat_ = true → 0 ≤ interval
  | _ => True

instance : ∀ e : Event, Decidable e.Timely
  | .setClock clock => inferInstanceAs (Decidable (0 < clock))
  | .newTimer _ _ _ _ => inferInstanceAs (Decidable (_ → _))
  | .addTimerInLoop _ | .cancelInLoop _ | .expire | .handleRead | .callback | .finish => .isTrue trivial

/-- No time overflows: neither a time that is set, nor an expiration less the time at which its timer is inserted, nor the
next expiration of a timer that repeats. -/
def Event.InRange (q : TimerQueue) : Event → Prop
  | .setClock clock => clock < 2 ^ 63
  | .newTimer _ when _ _ => when < 2 ^ 63
  | .addTimerInLoop a => ∀ t ∈ q.heap a, -2 ^ 63 ≤ t.expiration - q.clock
  | .finish => ∀ b ∈ q.batch, ∀ e ∈ b.expired, ∀ t ∈ q.heap e.timer, t.repeat_ = true → b.now + t.interval < 2 ^ 63
  | _ => True

instance (q : TimerQueue) : ∀ e : Event, Decidable (e.InRange q)
  | .setClock clock => inferInstanceAs (Decidable (clock < 2 ^ 63))
  | .newTimer _ when _ _ => inferInstanceAs (Decidable (when < 2 ^ 63))
  | .addTimerInLoop a => inferInstanceAs (Decidable (∀ t ∈ q.heap a, _ ≤ _))
  | .finish => inferInstanceAs (Decidable (∀ b ∈ q.batch, ∀ e ∈ b.expired, ∀ t ∈ q.heap e.timer, t.repeat_ = true →
      b.now + t.interval < 2 ^ 63))
  | .cancelInLoop _ | .expire | .handleRead | .callback => .isTrue trivial

structure Armed (inRange : Prop) (q : TimerQueue) : Prop where
  clock : 0 < q.clock ∧ (inRange → q.clock < 2 ^ 63)
  interval : ∀ {a t}, q.heap a = some t → (t.repeat_ = true → 0 ≤ t.interval) ∧ (inRange → t.expiration < 2 ^ 63)
  now : ∀ {b}, q.batch = some b → 0 < b.now
  cover : ∀ {e}, e ∈ q.timers → q.batch = none ∨ e.expiration ≤ 0 → q.ArmedFor inRange e.expiration

variable {inRange : Prop} {q q' q1 : TimerQueue} {a : Nat} {t : Timer} {n w w' : Int} {ex : List Entry}

theorem ArmedFor.mono (h : q.ArmedFor inRange w) (hw : w ≤ w') : q.ArmedFor inRange w' := by
  obtain ⟨trigger, reset, hfd, hreset, hle⟩ := h
  exact ⟨trigger, reset, hfd, hreset, fun hr => (hle hr).trans (max_le_max hw le_rfl)⟩

theorem armedFor_resetTimerfd (q : TimerQueue) {w : Int} (h : inRange → -2 ^ 63 ≤ w - q.clock ∧ w - q.clock < 2 ^ 63) :
    (q.resetTimerfd w).ArmedFor inRange w := by
  refine ⟨_, _, rfl, rfl, fun hr => ?_⟩
  simp only [howMuchTimeFromNow, CheckedInt.toInt64_eq (h hr)]
  split <;> omega

theorem Armed.init {clock : Int} (hclock : 0 < clock ∧ (inRange → clock < 2 ^ 63)) : Armed inRange (init clock) :=
  ⟨hclock, nofun, nofun, nofun⟩

/-- `addTimerInLoop`: the new timer is the earliest and the descriptor is set for it, or it comes after one that
is covered. -/
theorem Armed.added (h : Armed inRange q) (ht : inRange → -2 ^ 63 ≤ t.expiration - q.clock ∧ t.expiration < 2 ^ 63) :
    Armed inRange (q.added a t) := by
  have hclock := h.clock
  refine ⟨by rw [added_eq]; exact hclock, by rw [added_eq]; exact h.interval, by rw [added_eq]; exact h.now, ?_⟩
  intro e he hdue
  rw [added_eq] at he hdue
  unfold TimerQueue.added
  cases hfirst : q.changesEarliest t.expiration with
  | true =>
    have hrange : inRange → -2 ^ 63 ≤ t.expiration - q.clock ∧ t.expiration - q.clock < 2 ^ 63 := fun hr => by
      have := ht hr
      omega
    refine (armedFor_resetTimerfd _ hrange).mono ?_
    rcases OrdSet.mem_insert.1 he with rfl | he
    · exact le_rfl
    · unfold changesEarliest at hfirst
      cases hhead : q.timers.elems.head? with
      | none =>
        rw [OrdSet.mem_def, List.head?_eq_none_iff.1 hhead] at he
        cases he
      | some it =>
        rw [hhead] at hfirst
        exact (of_decide_eq_true hfirst).le.trans (expiration_mono (OrdSet.head_le hhead he))
  | false =>
    rcases OrdSet.mem_insert.1 he with rfl | he
    · unfold changesEarliest at hfirst
      cases hhead : q.timers.elems.head? with
      | none =>
        rw [hhead] at hfirst
        cases hfirst
      | some it =>
        rw [hhead] at hfirst
        have hle : it.expiration ≤ t.expiration := not_lt.1 (of_decide_eq_false hfirst)
        have hit : it ∈ q.timers := OrdSet.mem_def.2 (List.mem_of_mem_head? hhead)
        exact (h.cover hit (hdue.imp_right hle.trans)).mono hle
    · exact h.cover he hdue

/-- The loop of `reset` inserts timers with a positive expiration only. -/
theorem Armed.reset (h : Armed inRange q) (hok : Ok q) (hb : q.batch = some ⟨n, ex, []⟩)
    (hrange : inRange → Event.InRange q .finish) (hq1 : ex.foldlM (resetOne n) q.returned = some q1) :
    (0 < q1.clock ∧ (inRange → q1.clock < 2 ^ 63)) ∧
      (∀ {a t}, q1.heap a = some t → (t.repeat_ = true → 0 ≤ t.interval) ∧ (inRange → t.expiration < 2 ^ 63)) ∧
      q1.batch = none ∧ ∀ {e}, e ∈ q1.timers → e.expiration ≤ 0 → q1.ArmedFor inRange e.expiration := by
  have hnow : 0 < n := h.now hb
  -- the timers that are still to come have their next expirations in range
  have hloop := hok.resetAll hb hq1 (fun q' l => (0 < q'.clock ∧ (inRange → q'.clock < 2 ^ 63)) ∧
    (∀ {a t}, q'.heap a = some t → (t.repeat_ = true → 0 ≤ t.interval) ∧ (inRange → t.expiration < 2 ^ 63)) ∧
    q'.batch = none ∧ (∀ {e}, e ∈ q'.timers → e.expiration ≤ 0 → q'.ArmedFor inRange e.expiration) ∧
    (inRange → ∀ a ∈ l, ∀ t, q'.heap a = some t → t.repeat_ = true → n + t.interval < 2 ^ 63)) ?_
    ⟨h.clock, h.interval, rfl, fun he hle => h.cover he (.inr hle), fun hr a ha t ht => ?_⟩
  · exact ⟨hloop.1, hloop.2.1, hloop.2.2.1, hloop.2.2.2.1⟩
  · rintro q' a t l _ ht ⟨hclock, hint, hbatch, hcover, hnext⟩
    unfold resetTo
    split
    · rename_i hrep
      have hrestart : t.restart n = { t with expiration := n + t.interval } := if_pos hrep.1
      have hpos : 0 < (t.restart n).expiration := by
        have := (hint ht).1 hrep.1
        rw [hrestart]
        exact Int.add_pos_of_pos_of_nonneg hnow this
      refine ⟨hclock, fun hu => ?_, hbatch, fun he hle => ?_, fun hr a' ha' u hu hrep' => ?_⟩
      · rcases heap_setHeap.1 hu with ⟨_, hv⟩ | ⟨_, hu⟩
        · cases hv
          rw [hrestart]
          exact ⟨(hint ht).1, fun hr => hnext hr a List.mem_cons_self t ht hrep.1⟩
        · exact hint hu
      · rcases OrdSet.mem_insert.1 he with rfl | he
        · exact absurd hle (not_le.2 hpos)
        · exact hcover he hle
      · rcases heap_setHeap.1 hu with ⟨_, hv⟩ | ⟨_, hu⟩
        · cases hv
          rw [hrestart]
          exact hnext hr a List.mem_cons_self t ht hrep.1
        · exact hnext hr a' (List.mem_cons_of_mem _ ha') u hu hrep'
    · refine ⟨hclock, fun hu => hint ((heap_setHeap.1 hu).resolve_left (by simp)).2, hbatch, hcover, fun hr a' ha' u hu => ?_⟩
      exact hnext hr a' (List.mem_cons_of_mem _ ha') u ((heap_setHeap.1 hu).resolve_left (by simp)).2
  · obtain ⟨e, he, rfl⟩ := List.mem_map.1 ha
    exact hrange hr _ hb e he t ht

/-- The end of `reset`. -/
theorem Armed.rearmed {loose : List Nat} (hinv : Inv q loose) (hclock : 0 < q.clock ∧ (inRange → q.clock < 2 ^ 63))
    (hint : ∀ {a t}, q.heap a = some t → (t.repeat_ = true → 0 ≤ t.interval) ∧ (inRange → t.expiration < 2 ^ 63))
    (hbatch : q.batch = none) (hcover : ∀ {e}, e ∈ q.timers → e.expiration ≤ 0 → q.ArmedFor inRange e.expiration) :
    Armed inRange q.rearmed := by
  refine ⟨by rw [rearmed_eq]; exact hclock, by rw [rearmed_eq]; exact hint, by rw [rearmed_eq, hbatch]; nofun,
    fun {e} he _ => ?_⟩
  rw [rearmed_eq] at he
  unfold TimerQueue.rearmed
  cases hhead : q.timers.elems.head? with
  | none =>
    rw [OrdSet.mem_def, List.head?_eq_none_iff.1 hhead] at he
    cases he
  | some it =>
    have hle := expiration_mono (OrdSet.head_le hhead he)
    have hit : it ∈ q.timers := OrdSet.mem_def.2 (List.mem_of_mem_head? hhead)
    simp only
    split
    · rename_i hvalid
      refine (armedFor_resetTimerfd q fun hr => ?_).mono hle
      obtain ⟨t, ht, hexp, -⟩ := hinv.entry hit
      have hlt := (hint ht).2 hr
      have hclock' := hclock.2 hr
      omega
    · rename_i hvalid
      exact (hcover hit (not_lt.1 hvalid)).mono hle

theorem Armed.step {e : Event} (h : Armed inRange q) (hok : Ok q) (htime : e.Timely) (hrange : inRange → e.InRange q)
    (he : q.Effect e q') : Armed inRange q' := by
  cases he with
  | newTimer hfree =>
    refine ⟨h.clock, fun hu => ?_, h.now, h.cover⟩
    rcases heap_setHeap.1 hu with ⟨_, hv⟩ | ⟨_, hu⟩
    · cases hv
      exact ⟨htime, hrange⟩
    · exact h.interval hu
  | @addTimerInLoop a t ha ht =>
    have hqueued : Armed inRange { q with queued := q.queued.erase a } := ⟨h.clock, h.interval, h.now, h.cover⟩
    exact hqueued.added fun hr => ⟨hrange hr t ht, (h.interval ht).2 hr⟩
  | cancelled hx ht hseq =>
    refine ⟨h.clock, fun hu => ?_, h.now, fun he => h.cover (OrdSet.mem_erase.1 he).2⟩
    exact h.interval ((heap_setHeap.1 hu).resolve_left (by simp)).2
  | setClock => exact ⟨⟨htime, hrange⟩, h.interval, h.now, h.cover⟩
  | handleRead hb hmem =>
    refine ⟨h.clock, h.interval, fun hb' => ?_, fun {e} he hdue => ?_⟩
    · cases hb'
      exact h.clock.1
    · -- what is left is later than the clock, hence positive
      have hlate := ((hok.idle hb 0).inv.mem_drop.1 he).2
      have hclock := h.clock.1
      rcases hdue with hnone | hle
      · cases hnone
      · omega
  | callback hb ht hexp =>
    refine ⟨h.clock, h.interval, fun hb' => ?_, fun he hdue => ?_⟩
    · cases hb'
      exact (h.now hb :)
    · exact h.cover he (.inr (hdue.resolve_left nofun))
  | finish hb hq1 hinv =>
    obtain ⟨hclock, hint, hbatch, hcover⟩ := h.reset hok hb hrange hq1
    exact Armed.rearmed hinv hclock hint hbatch hcover
  | canceling | ignored | expire => exact ⟨h.clock, h.interval, h.now, h.cover⟩

/-- **A waiting timer has the descriptor armed.** In every state outside `handleRead` of a run in which no time overflows, if
`timers_` is not empty then the timerfd is set, to a time not later than the earliest expiration or 100 microseconds after the
last `resetTimerfd`. -/
theorem timerfd_armed {clock : Int} {es : List Event} (hclock : 0 < clock ∧ clock < 2 ^ 63)
    (hrun : Run step (fun q e => e.Legal q ∧ e.Timely ∧ e.InRange q) (init clock) es q)
    (hb : q.batch = none) (hne : q.timers.elems ≠ []) :
    ∃ it ∈ q.timers, (∀ e ∈ q.timers, it.expiration ≤ e.expiration) ∧
      ∃ trigger reset, q.timerfd = some trigger ∧ q.lastReset = some reset ∧
        trigger ≤ max it.expiration (reset + 100) := by
  have h : Ok q ∧ Armed True q := by
    refine hrun.invariant (fun q => Ok q ∧ Armed True q) ?_ ⟨Ok.init clock, Armed.init ⟨hclock.1, fun _ => hclock.2⟩⟩
    rintro q e q' ⟨hok, harmed⟩ ⟨hl, htime, hrange⟩ hs
    exact ⟨hok.steps (.cons hl hs (.nil _)), harmed.step hok htime (fun _ => hrange) (hok.effect hl hs)⟩
  obtain ⟨it, hit⟩ := Option.isSome_iff_exists.1 (List.isSome_head?.2 hne)
  have hmem : it ∈ q.timers := OrdSet.mem_def.2 (List.mem_of_mem_head? hit)
  obtain ⟨trigger, reset, hfd, hreset, hle⟩ := h.2.cover hmem (.inl hb)
  exact ⟨it, hmem, fun e he => expiration_mono (OrdSet.head_le hit he), trigger, reset, hfd, hreset, hle trivial⟩

/-- The earliest timer is cancelled, and a repeating one is put back by `reset`. -/
theorem timerfd_armed_repeating : ∃ q, Run step (fun q e => e.Legal q ∧ e.Timely ∧ e.InRange q) (init 1)
      [.newTimer 16 500 0 false, .addTimerInLoop 16, .newTimer 32 900 400 true, .addTimerInLoop 32,
       .cancelInLoop ⟨16, 1⟩, .expire, .setClock 1000, .handleRead, .callback, .finish] q ∧
    q.timers.elems = [⟨1400, 32⟩] ∧ ∃ it ∈ q.timers, (∀ e ∈ q.timers, it.expiration ≤ e.expiration) ∧
      ∃ trigger reset, q.timerfd = some trigger ∧ q.lastReset = some reset ∧
        trigger ≤ max it.expiration (reset + 100) :=
  have h := Run.of_exec _ _ (by decide +kernel)
  ⟨_, h, rfl, timerfd_armed (by decide) h rfl nofun⟩

/-- `runAt` for the least time, a microsecond after the epoch: the difference overflows, and the descriptor is set to go off
after all times. -/
theorem timerfd_overflow : ∃ q, Run step (fun q e => e.Legal q ∧ e.Timely) (init 1)
      [.newTimer 16 (-2 ^ 63) 0 false, .addTimerInLoop 16] q ∧ q.batch = none ∧ q.timers.elems = [⟨-2 ^ 63, 16⟩] ∧
    q.timerfd = some (2 ^ 63) ∧ q.lastReset = some 1 ∧ ¬ (2 ^ 63 : Int) ≤ max (-2 ^ 63) (1 + 100) :=
  ⟨_, Run.of_exec _ _ rfl, rfl, rfl, rfl, rfl, by decide⟩

end TimerQueue
end ChatReactor
