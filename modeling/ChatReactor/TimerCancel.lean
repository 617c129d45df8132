import ChatReactor.TimerQueueProofs

/-!
# `cancelInLoop`

After `cancelInLoop` a timer id is `Dead`: it is in neither table, and if its `Timer` still exists then it is in the batch
that is being run and in `cancelingTimers_`, so that `reset` will delete it. That state lasts, since a
sequence number is never used again. The one id for which `cancelInLoop` does not get there is `Waiting`: its timer was made
by another thread and its `addTimerInLoop` is still to come; it is in no table yet, and will be.

The other timers are `Kept`: in the tables or in the batch, until they have run, if they run once.
-/

namespace ChatReactor
namespace TimerQueue

/-- The `Timer` of this id exists. -/
def Live (q : TimerQueue) (x : ActiveTimer) : Prop := (q.heap x.timer).map Timer.sequence = some x.sequence

instance (q : TimerQueue) (x : ActiveTimer) : Decidable (q.Live x) := inferInstanceAs (Decidable (_ = _))

/-- It was made by `addTimer`, and its `addTimerInLoop` has not run. -/
def Waiting (q : TimerQueue) (x : ActiveTimer) : Prop := x.timer ∈ q.queued ∧ q.Live x

/-- A call of the timer with this id. -/
def isRun (x : ActiveTimer) (r : Ran) : Bool := decide (r.addr = x.timer ∧ r.timer.sequence = x.sequence)

/-- What is to come in this batch of the timer with this id. -/
def toCome (q : TimerQueue) (x : ActiveTimer) : List Entry := match q.batch with
  | none => []
  | some b => if q.Live x then b.rest.filter fun e => e.timer = x.timer else []

variable {q q' q1 : TimerQueue} {x y : ActiveTimer} {a b : Nat} {t u : Timer} {n : Int} {ex : List Entry}

theorem live_iff : q.Live x ↔ ∃ t, q.heap x.timer = some t ∧ t.sequence = x.sequence := Option.map_eq_some_iff

/-- The loop of `reset` changes the tables and the timers, and nothing else. -/
theorem Ok.reset_frame (h : Ok q) (hb : q.batch = some ⟨n, ex, []⟩)
    (hq1 : ex.foldlM (resetOne n) q.returned = some q1) : ∃ heap timers activeTimers,
      q1 = { q.returned with heap := heap, timers := timers, activeTimers := activeTimers } := by
  refine h.resetAll hb hq1 (fun q' _ => ∃ heap timers activeTimers,
    q' = { q.returned with heap := heap, timers := timers, activeTimers := activeTimers }) ?_ ⟨_, _, _, rfl⟩
  rintro q' a t l _ _ ⟨_, _, _, rfl⟩
  obtain ⟨_, _, _, heq⟩ := resetTo_frame n _ a t
  exact ⟨_, _, _, heq⟩

theorem Ok.reset_ran (h : Ok q) (hb : q.batch = some ⟨n, ex, []⟩)
    (hq1 : ex.foldlM (resetOne n) q.returned = some q1) : q1.batch = none ∧ q1.ran = q.ran := by
  obtain ⟨_, _, _, rfl⟩ := h.reset_frame hb hq1
  exact ⟨rfl, rfl⟩

/-! ## Where a live timer is -/

/-- Every `Timer` is in the tables, in the batch, or still to be inserted. -/
structure Placed (q : TimerQueue) : Prop where
  place : ∀ {a t}, q.heap a = some t → ⟨a, t.sequence⟩ ∈ q.activeTimers ∨ a ∈ q.expired.map Entry.timer ∨ a ∈ q.queued
  calling : q.callingExpiredTimers = q.batch.isSome

theorem Placed.init (clock : Int) : Placed (init clock) := ⟨nofun, rfl⟩

theorem Placed.finish (h : Placed q) (hok : Ok q) (hb : q.batch = some ⟨n, ex, []⟩)
    (hq1 : ex.foldlM (resetOne n) q.returned = some q1) : Placed q1 := by
  have hfold := hok.resetAll hb hq1
    (fun q' l => (∀ {a t}, q'.heap a = some t → ⟨a, t.sequence⟩ ∈ q'.activeTimers ∨ a ∈ l ∨ a ∈ q'.queued) ∧
      q'.callingExpiredTimers = false ∧ q'.batch = none)
    (by
      rintro q' a t l _ ht ⟨hplace, hcall, hbatch⟩
      unfold resetTo
      split
      · refine ⟨fun {b u} hu => ?_, hcall, hbatch⟩
        rcases heap_setHeap.1 hu with ⟨rfl, hv⟩ | ⟨hne, hu⟩
        · cases hv
          exact .inl (OrdSet.mem_insert.2 (.inl rfl))
        · rcases hplace hu with hact | hl | hqueued
          · exact .inl (OrdSet.mem_insert.2 (.inr hact))
          · exact .inr (.inl ((List.mem_cons.1 hl).resolve_left hne))
          · exact .inr (.inr hqueued)
      · refine ⟨fun {b u} hu => ?_, hcall, hbatch⟩
        obtain ⟨hne, hu⟩ := (heap_setHeap.1 hu).resolve_left (by simp)
        rcases hplace hu with hact | hl | hqueued
        · exact .inl hact
        · exact .inr (.inl ((List.mem_cons.1 hl).resolve_left hne))
        · exact .inr (.inr hqueued))
    ⟨fun hu => by
      have := h.place hu
      rw [expired, hb] at this
      exact this, rfl, rfl⟩
  obtain ⟨hplace, hcall, hbatch⟩ := hfold
  refine ⟨fun hu => ?_, by rw [hcall, hbatch]; rfl⟩
  rw [expired, hbatch]
  exact hplace hu

variable {e : Event}

theorem Placed.step (h : Placed q) (hok : Ok q) (he : q.Effect e q') : Placed q' := by
  cases he with
  | newTimer hfree =>
    refine ⟨fun {b u} hu => ?_, h.calling⟩
    rcases heap_setHeap.1 hu with ⟨rfl, _⟩ | ⟨_, hu⟩
    · exact .inr (.inr (List.mem_append_right _ (List.mem_singleton_self _)))
    · rcases h.place hu with hact | hex | hqueued
      · exact .inl hact
      · exact .inr (.inl hex)
      · exact .inr (.inr (List.mem_append_left _ hqueued))
  | @addTimerInLoop a t ha ht =>
    rw [added_eq]
    refine ⟨fun {b u} hu => ?_, h.calling⟩
    by_cases hba : b = a
    · subst hba
      cases ht.symm.trans hu
      exact .inl (OrdSet.mem_insert.2 (.inl rfl))
    · rcases h.place hu with hact | hex | hqueued
      · exact .inl (OrdSet.mem_insert.2 (.inr hact))
      · exact .inr (.inl hex)
      · exact .inr (.inr ((List.mem_erase_of_ne hba).2 hqueued))
  | cancelled hx ht hseq =>
    refine ⟨fun {b u} hu => ?_, h.calling⟩
    obtain ⟨hne, hu⟩ := (heap_setHeap.1 hu).resolve_left (by simp)
    rcases h.place hu with hact | hrest
    · exact .inl (OrdSet.mem_erase.2 ⟨fun heq => hne (congrArg ActiveTimer.timer heq), hact⟩)
    · exact .inr hrest
  | handleRead hb hmem =>
    refine ⟨fun {b u} hu => ?_, rfl⟩
    have hplace := h.place hu
    rw [expired, hb] at hplace
    by_cases hdue : b ∈ (q.due q.clock).map Entry.timer
    · exact .inr (.inl hdue)
    · rcases hplace with hact | hex | hqueued
      · exact .inl ((hmem _).2 ⟨hact, hdue⟩)
      · exact absurd hex (by simp)
      · exact .inr (.inr hqueued)
  | callback hb ht hexp =>
    refine ⟨fun {b u} hu => ?_, by rw [h.calling, hb]; rfl⟩
    have hplace := h.place hu
    rw [expired, hb] at hplace
    exact hplace
  | finish hb hq1 _ =>
    have hplaced := h.finish hok hb hq1
    rw [rearmed_eq]
    exact ⟨hplaced.place, hplaced.calling⟩
  | canceling | ignored | setClock | expire => exact ⟨h.place, h.calling⟩

/-! ## A cancelled timer -/

/-- The id is in no table and will be in none. -/
structure Dead (x : ActiveTimer) (q : TimerQueue) : Prop where
  inactive : x ∉ q.activeTimers
  issued : x.sequence ≤ q.numCreated
  held : q.Live x → x ∈ q.cancelingTimers ∧ x.timer ∈ q.expired.map Entry.timer

/-- `cancelInLoop` gets there, unless the timer is still to be inserted. -/
theorem Dead.of_cancel (hp : Placed q) (hx : x.sequence ≤ q.numCreated) (hw : ¬q.Waiting x)
    (he : q.Effect (.cancelInLoop x) q') : Dead x q' := by
  -- without an entry in the tables, a timer that exists is in the batch
  have hbatch : x ∉ q.activeTimers → q.Live x → x.timer ∈ q.expired.map Entry.timer := by
    intro hact hlive
    obtain ⟨t, ht, hseq⟩ := live_iff.1 hlive
    rcases hp.place ht with hin | hex | hqueued
    · rw [hseq] at hin
      exact absurd hin hact
    · exact hex
    · exact absurd ⟨hqueued, hlive⟩ hw
  cases he with
  | cancelled hact ht hseq =>
    refine ⟨fun hin => (OrdSet.mem_erase.1 hin).1 rfl, hx, fun hlive => ?_⟩
    obtain ⟨t, ht, _⟩ := live_iff.1 hlive
    rw [TimerQueue.cancelled, setHeap_self] at ht
    cases ht
  | canceling hact hcall => exact ⟨hact, hx, fun hlive => ⟨OrdSet.mem_insert.2 (.inl rfl), hbatch hact hlive⟩⟩
  | ignored hact hcall =>
    refine ⟨hact, hx, fun hlive => ?_⟩
    have hex := hbatch hact hlive
    have hnone : q.batch = none := by
      rw [← Option.not_isSome_iff_eq_none, ← hp.calling, hcall]
      simp
    rw [expired, hnone] at hex
    exact absurd hex List.not_mem_nil

/-- A timer in the batch is not in the tables. -/
theorem Dead.ne_active (h : Dead x q) (hok : Ok q) (hlive : q.Live x) (hy : y ∈ q.activeTimers) : y.timer ≠ x.timer := by
  intro heq
  refine hok.inv.inactive (List.mem_append_left _ (h.held hlive).2) y.sequence ?_
  rw [← heq]
  exact hy

/-- Only `reset` deletes a cancelled timer. -/
theorem Dead.live_step (h : Dead x q) (hok : Ok q) (he : q.Effect e q') (hfin : e ≠ .finish) : q'.Live x ↔ q.Live x := by
  cases he with
  | @newTimer a w i r hfree =>
    by_cases hxa : x.timer = a
    · have hissued := h.issued
      simp only [Live, created, hxa, setHeap_self, hfree, Option.map_some, Option.map_none, Option.some.injEq]
      constructor
      · intro heq
        omega
      · intro hnone
        cases hnone
    · rw [Live, created, setHeap_ne _ _ hxa]
      rfl
  | @addTimerInLoop a t ha ht =>
    rw [added_eq]
    rfl
  | @cancelled y t hy ht hseq =>
    by_cases hxy : x.timer = y.timer
    · refine ⟨fun hlive => ?_, fun hlive => absurd hxy.symm (h.ne_active hok hlive hy)⟩
      rw [Live, TimerQueue.cancelled, hxy, setHeap_self] at hlive
      cases hlive
    · rw [Live, TimerQueue.cancelled, setHeap_ne _ _ hxy]
      rfl
  | finish => exact absurd rfl hfin
  | _ => exact Iff.rfl

theorem Dead.finish (h : Dead x q) (hok : Ok q) (hb : q.batch = some ⟨n, ex, []⟩)
    (hq1 : ex.foldlM (resetOne n) q.returned = some q1) : Dead x q1 := by
  have hfold := hok.resetAll hb hq1
    (fun q' l => x ∉ q'.activeTimers ∧ x.sequence ≤ q'.numCreated ∧
      (q'.Live x → x ∈ q'.cancelingTimers ∧ x.timer ∈ l))
    (by
      rintro q' a t l _ ht ⟨hact, hissued, hheld⟩
      have hmem : q'.Live x → x.timer ≠ a → x ∈ q'.cancelingTimers ∧ x.timer ∈ l := fun hlive hne =>
        ⟨(hheld hlive).1, (List.mem_cons.1 (hheld hlive).2).resolve_left hne⟩
      unfold resetTo
      split
      · rename_i hrep
        have hne : x ≠ ⟨a, t.sequence⟩ := by
          rintro rfl
          exact hrep.2 (hheld (live_iff.2 ⟨t, ht, rfl⟩)).1
        refine ⟨fun hin => ?_, hissued, fun hlive => ?_⟩
        · rcases OrdSet.mem_insert.1 hin with heq | hin
          · rw [restart_sequence] at heq
            exact hne heq
          · exact hact hin
        · obtain ⟨u, hu, hseq⟩ := live_iff.1 hlive
          rcases heap_setHeap.1 hu with ⟨hxa, hv⟩ | ⟨hxa, hu⟩
          · cases hv
            rw [restart_sequence] at hseq
            exact absurd (by cases x; simp_all) hne
          · exact hmem (live_iff.2 ⟨u, hu, hseq⟩) hxa
      · refine ⟨hact, hissued, fun hlive => ?_⟩
        obtain ⟨u, hu, hseq⟩ := live_iff.1 hlive
        obtain ⟨hxa, hu⟩ := (heap_setHeap.1 hu).resolve_left (by simp)
        exact hmem (live_iff.2 ⟨u, hu, hseq⟩) hxa)
    ⟨h.inactive, h.issued, fun hlive => by
      have := h.held hlive
      rw [expired, hb] at this
      exact this⟩
  obtain ⟨hact, hissued, hheld⟩ := hfold
  exact ⟨hact, hissued, fun hlive => absurd (hheld hlive).2 List.not_mem_nil⟩

theorem Dead.step (h : Dead x q) (hok : Ok q) (he : q.Effect e q') : Dead x q' := by
  by_cases hfin : e = .finish
  · subst hfin
    cases he with
    | finish hb hq1 _ =>
      have hdead := h.finish hok hb hq1
      rw [rearmed_eq]
      exact ⟨hdead.inactive, hdead.issued, hdead.held⟩
  · have hlive := h.live_step hok he hfin
    cases he with
    | newTimer hfree => exact ⟨h.inactive, Nat.le_succ_of_le h.issued, fun hl => h.held (hlive.1 hl)⟩
    | @addTimerInLoop a t ha ht =>
      rw [added_eq] at hlive ⊢
      refine ⟨fun hin => ?_, h.issued, fun hl => h.held (hlive.1 hl)⟩
      rcases OrdSet.mem_insert.1 hin with rfl | hin
      · -- a timer is not both in the batch and still to be inserted
        have hex := (h.held (live_iff.2 ⟨t, ht, rfl⟩)).2
        exact (List.nodup_append.1 hok.inv.nodup).2.2 _ hex _ ha rfl
      · exact h.inactive hin
    | cancelled hy ht hseq =>
      exact ⟨fun hin => h.inactive (OrdSet.mem_erase.1 hin).2, h.issued, fun hl => h.held (hlive.1 hl)⟩
    | canceling hy hcall =>
      exact ⟨h.inactive, h.issued, fun hl => ⟨OrdSet.mem_insert.2 (.inr (h.held hl).1), (h.held hl).2⟩⟩
    | handleRead hb hmem =>
      refine ⟨fun hin => h.inactive ((hmem x).1 hin).1, h.issued, fun hl => ?_⟩
      have hex := (h.held hl).2
      rw [expired, hb] at hex
      exact absurd hex List.not_mem_nil
    | callback hb ht hexp =>
      refine ⟨h.inactive, h.issued, fun hl => ?_⟩
      have hheld := h.held hl
      rw [expired, hb] at hheld
      exact hheld
    | finish => exact absurd rfl hfin
    | ignored | setClock | expire => exact ⟨h.inactive, h.issued, h.held⟩

theorem isRun_iff {it : Entry} (ht : q.heap it.timer = some t) :
    isRun x ⟨n, it.timer, t⟩ = true ↔ it.timer = x.timer ∧ q.Live x := by
  simp only [isRun, decide_eq_true_eq]
  refine and_congr_right fun hxt => ?_
  rw [Live, ← hxt, ht, Option.map_some, Option.some.injEq]

/-- The calls of the timer that an event makes are taken from what was to come. -/
theorem Dead.ran_step (h : Dead x q) (hok : Ok q) (he : q.Effect e q') :
    ∃ log, q'.ran = q.ran ++ log ∧ (log.filter (isRun x)).map runEntry ++ q'.toCome x = q.toCome x := by
  by_cases hfin : e = .finish
  · subst hfin
    cases he with
    | @finish n ex q1 hb hq1 _ =>
      obtain ⟨hbatch, hran⟩ := hok.reset_ran hb hq1
      rw [rearmed_eq]
      refine ⟨[], by simp [hran], ?_⟩
      simp [toCome, hbatch, hb]
  · have hlive := h.live_step hok he hfin
    have same (hb : q'.batch = q.batch) : q'.toCome x = q.toCome x := by
      simp only [toCome, hb, hlive]
    cases he with
    | @addTimerInLoop a t ha ht =>
      rw [added_eq] at hlive same ⊢
      exact ⟨[], (List.append_nil _).symm, same rfl⟩
    | handleRead hb hmem =>
      have hdead : ¬q.Live x := by
        intro hl
        have hex := (h.held hl).2
        rw [expired, hb] at hex
        exact absurd hex List.not_mem_nil
      refine ⟨[], (List.append_nil _).symm, ?_⟩
      simp only [toCome, hb, hlive, if_neg hdead]
      rfl
    | @callback n ex rest it t hb ht hexp =>
      refine ⟨[⟨n, it.timer, t⟩], rfl, ?_⟩
      have hrun := isRun_iff (x := x) (n := n) ht
      have hentry : runEntry ⟨n, it.timer, t⟩ = it := by rw [runEntry, hexp]
      simp only [toCome, hb, hlive]
      by_cases hr : isRun x ⟨n, it.timer, t⟩ = true
      · obtain ⟨hxt, hl⟩ := hrun.1 hr
        rw [List.filter_cons_of_pos hr, List.filter_cons_of_pos (by simpa using hxt), if_pos hl, if_pos hl]
        simp [hentry]
      · rw [List.filter_cons_of_neg hr]
        by_cases hl : q.Live x
        · have hxt : it.timer ≠ x.timer := fun hxt => hr (hrun.2 ⟨hxt, hl⟩)
          simp [hl, hxt]
        · simp [hl]
    | finish => exact absurd rfl hfin
    | _ => exact ⟨[], (List.append_nil _).symm, same rfl⟩

/-- A state of a run, with what was proved of it. -/
structure Sound (q : TimerQueue) : Prop where
  ok : Ok q
  placed : Placed q

theorem Sound.step (h : Sound q) (hl : e.Legal q) (hs : q.step e = some q') : Sound q' :=
  ⟨h.ok.steps (.cons hl hs (.nil _)), h.placed.step h.ok (h.ok.effect hl hs)⟩

variable {es : List Event}

theorem Sound.steps (h : Sound q) (hs : Steps q es q') : Sound q' :=
  hs.invariant Sound Sound.step h

theorem Sound.of_init {clock : Int} (hs : Steps (init clock) es q) : Sound q :=
  Sound.steps ⟨Ok.init clock, Placed.init clock⟩ hs

theorem Dead.steps (h : Dead x q) (hok : Ok q) (hs : Steps q es q') :
    Dead x q' ∧ ∃ log, q'.ran = q.ran ++ log ∧ (log.filter (isRun x)).map runEntry ++ q'.toCome x = q.toCome x := by
  induction hs with
  | nil => exact ⟨h, [], by simp, rfl⟩
  | @cons q q1 q2 e es hl hs _ ih =>
    have he := hok.effect hl hs
    obtain ⟨log, hran, hcome⟩ := h.ran_step hok he
    obtain ⟨hdead, log', hran', hcome'⟩ := ih (h.step hok he) (hok.steps (.cons hl hs (.nil _)))
    refine ⟨hdead, log ++ log', by rw [hran', hran, List.append_assoc], ?_⟩
    rw [List.filter_append, List.map_append, List.append_assoc, hcome', hcome]

/-- An address occurs once in a batch. -/
theorem Ok.toCome_length (h : Ok q) (x : ActiveTimer) : (q.toCome x).length ≤ 1 := by
  unfold toCome
  split
  · exact Nat.zero_le 1
  · rename_i b hb
    obtain ⟨done, hdone, hgood⟩ := h.running hb
    split
    · have hnodup := (List.nodup_append.1 hgood.inv.nodup).1
      rw [List.map_append] at hnodup
      have hcount := List.nodup_iff_count_le_one.1 (List.nodup_append.1 hnodup).2.1 x.timer
      rw [List.count, List.countP_map, List.countP_eq_length_filter] at hcount
      exact hcount
    · exact Nat.zero_le 1

theorem Effect.ran (he : q.Effect e q') (hok : Ok q) : ∃ log, q'.ran = q.ran ++ log := by
  cases he with
  | @addTimerInLoop a t ha ht =>
    rw [added_eq]
    exact ⟨[], (List.append_nil _).symm⟩
  | callback => exact ⟨_, rfl⟩
  | @finish n ex q1 hb hq1 _ =>
    rw [rearmed_eq]
    exact ⟨[], by simp [(hok.reset_ran hb hq1).2]⟩
  | _ => exact ⟨[], (List.append_nil _).symm⟩

theorem Ok.ran_steps (h : Ok q) (hs : Steps q es q') : ∃ log, q'.ran = q.ran ++ log := by
  induction hs with
  | nil => exact ⟨[], (List.append_nil _).symm⟩
  | cons hl hs _ ih =>
    obtain ⟨log, hlog⟩ := (h.effect hl hs).ran h
    obtain ⟨log', hlog'⟩ := ih (h.steps (.cons hl hs (.nil _)))
    exact ⟨log ++ log', by rw [hlog', hlog, List.append_assoc]⟩

theorem mem_of_mem_toCome {e : Entry} (h : e ∈ q.toCome x) : ∃ b, q.batch = some b ∧ e ∈ b.rest := by
  unfold toCome at h
  split at h
  · cases h
  · rename_i b hb
    split at h
    · exact ⟨b, hb, (List.mem_filter.1 h).1⟩
    · cases h

/-! ## The other timers -/

/-- Nothing about a timer with another sequence number is changed, whatever its address. -/
structure Unaffected (x : ActiveTimer) (q q' : TimerQueue) : Prop where
  heap : ∀ a t, t.sequence ≠ x.sequence → (q'.heap a = some t ↔ q.heap a = some t)
  timers : ∀ a t, q.heap a = some t → t.sequence ≠ x.sequence →
    (⟨t.expiration, a⟩ ∈ q'.timers ↔ ⟨t.expiration, a⟩ ∈ q.timers)
  activeTimers : ∀ y : ActiveTimer, y.sequence ≠ x.sequence → (y ∈ q'.activeTimers ↔ y ∈ q.activeTimers)
  cancelingTimers : ∀ y : ActiveTimer, y.sequence ≠ x.sequence → (y ∈ q'.cancelingTimers ↔ y ∈ q.cancelingTimers)
  rest : q'.queued = q.queued ∧ q'.batch = q.batch ∧ q'.callingExpiredTimers = q.callingExpiredTimers ∧
    q'.timerfd = q.timerfd ∧ q'.readable = q.readable ∧ q'.clock = q.clock ∧ q'.numCreated = q.numCreated ∧ q'.ran = q.ran

theorem Effect.unaffected (he : q.Effect (.cancelInLoop x) q') : Unaffected x q q' := by
  cases he with
  | @cancelled _ t hx ht hseq =>
    have hother {a u} (hu : q.heap a = some u) (hne : u.sequence ≠ x.sequence) : a ≠ x.timer := by
      rintro rfl
      cases ht.symm.trans hu
      exact hne hseq
    refine ⟨fun a u hne => ?_, fun a u hu hne => ?_, fun y hne => ?_, fun y _ => Iff.rfl,
      rfl, rfl, rfl, rfl, rfl, rfl, rfl, rfl⟩
    · refine ⟨fun hu => ((heap_setHeap.1 hu).resolve_left (by simp)).2, fun hu => ?_⟩
      exact heap_setHeap.2 (.inr ⟨hother hu hne, hu⟩)
    · refine ⟨fun hin => (OrdSet.mem_erase.1 hin).2, fun hin => OrdSet.mem_erase.2 ⟨fun heq => ?_, hin⟩⟩
      exact hother hu hne (congrArg Entry.timer heq)
    · refine ⟨fun hin => (OrdSet.mem_erase.1 hin).2, fun hin => OrdSet.mem_erase.2 ⟨fun heq => ?_, hin⟩⟩
      exact hne (congrArg ActiveTimer.sequence heq)
  | canceling hx hcall =>
    refine ⟨fun _ _ _ => Iff.rfl, fun _ _ _ _ => Iff.rfl, fun _ _ => Iff.rfl, fun y hne => ?_,
      rfl, rfl, rfl, rfl, rfl, rfl, rfl, rfl⟩
    refine ⟨fun hin => (OrdSet.mem_insert.1 hin).resolve_left fun heq => ?_, fun hin => OrdSet.mem_insert.2 (.inr hin)⟩
    exact hne (congrArg ActiveTimer.sequence heq)
  | ignored =>
    exact ⟨fun _ _ _ => Iff.rfl, fun _ _ _ _ => Iff.rfl, fun _ _ => Iff.rfl, fun _ _ => Iff.rfl,
      rfl, rfl, rfl, rfl, rfl, rfl, rfl, rfl⟩

/-- The timer is in the tables, or in the batch: about to run or run in it, and not cancelled. -/
def Kept (q : TimerQueue) (y : ActiveTimer) : Prop :=
  y ∈ q.activeTimers ∨ ∃ b t, q.batch = some b ∧ q.heap y.timer = some t ∧ t.sequence = y.sequence ∧
    y ∉ q.cancelingTimers ∧ ⟨t.expiration, y.timer⟩ ∈ b.expired ∧
    (⟨t.expiration, y.timer⟩ ∈ b.rest ∨ ⟨b.now, y.timer, t⟩ ∈ q.ran)

/-- It runs once, and has run. -/
def Spent (q : TimerQueue) (y : ActiveTimer) : Prop := ∃ r ∈ q.ran, isRun y r = true ∧ r.timer.repeat_ = false

/-- `reset` puts a timer of the batch back, if it repeats and was not cancelled. -/
theorem Ok.finish_kept (h : Ok q) (hb : q.batch = some ⟨n, ex, []⟩) (hq1 : ex.foldlM (resetOne n) q.returned = some q1)
    (hy : y ∈ q.activeTimers ∨ ∃ t, q.heap y.timer = some t ∧ t.sequence = y.sequence ∧ t.repeat_ = true ∧
      y ∉ q.cancelingTimers ∧ y.timer ∈ ex.map Entry.timer) : y ∈ q1.activeTimers := by
  have hfold := h.resetAll hb hq1
    (fun q' l => y ∈ q'.activeTimers ∨ ∃ t, q'.heap y.timer = some t ∧ t.sequence = y.sequence ∧ t.repeat_ = true ∧
      y ∉ q'.cancelingTimers ∧ y.timer ∈ l)
    (by
      rintro q' a t l _ ht (hact | ⟨u, hu, hseq, hrep, hcancel, hl⟩)
      · left
        unfold resetTo
        split
        · exact OrdSet.mem_insert.2 (.inr hact)
        · exact hact
      · by_cases hya : y.timer = a
        · subst hya
          cases ht.symm.trans hu
          left
          rw [resetTo, if_pos ⟨hrep, by rw [hseq]; exact hcancel⟩]
          exact OrdSet.mem_insert.2 (.inl (by rw [restart_sequence, hseq]))
        · right
          refine ⟨u, ?_, hseq, hrep, ?_, (List.mem_cons.1 hl).resolve_left hya⟩
          all_goals
            obtain ⟨_, _, _, heq⟩ := resetTo_frame n q' a t
            rw [heq]
          · exact (setHeap_ne _ _ hya).trans hu
          · exact hcancel)
    hy
  rcases hfold with hact | ⟨_, _, _, _, _, hl⟩
  · exact hact
  · cases hl

/-- Another timer is cancelled. -/
theorem Kept.cancelled (h : Kept q y) (hok : Ok q) (hx : x ∈ q.activeTimers) (hne : x ≠ y) : Kept (q.cancelled x t) y := by
  rcases h with hact | ⟨b, u, hb, hu, huseq, hcancel, hex, hrun⟩
  · exact .inl (OrdSet.mem_erase.2 ⟨hne.symm, hact⟩)
  · refine .inr ⟨b, u, hb, ?_, huseq, hcancel, hex, hrun⟩
    rw [TimerQueue.cancelled, setHeap_ne]
    · exact hu
    · -- a timer in the batch is not in the tables
      intro heq
      refine hok.inv.inactive (a := y.timer) (List.mem_append_left _ ?_) x.sequence (heq ▸ hx)
      rw [expired, hb]
      exact List.mem_map.2 ⟨_, hex, rfl⟩

/-- `getExpired` takes the timer into the batch if it is due. -/
theorem Kept.entered {s : OrdSet ActiveTimer} (h : Kept q y) (hok : Ok q) (hb : q.batch = none)
    (hmem : ∀ x, x ∈ s ↔ x ∈ q.activeTimers ∧ x.timer ∉ (q.due q.clock).map Entry.timer) : Kept (q.entered s) y := by
  rcases h with hact | ⟨b, _, hb', _⟩
  · by_cases hdue : y.timer ∈ (q.due q.clock).map Entry.timer
    · obtain ⟨t, ht, hseq, hent⟩ := hok.inv.active hact
      obtain ⟨e, he, heq⟩ := List.mem_map.1 hdue
      have hentry := hok.inv.entry_unique (mem_due.1 he).1 hent heq
      rw [hentry] at he
      exact .inr ⟨_, t, rfl, ht, hseq, by simp [TimerQueue.entered], he, .inl he⟩
    · exact .inl ((hmem y).2 ⟨hact, hdue⟩)
  · cases hb.symm.trans hb'

theorem Kept.callback {rest : List Entry} {it : Entry} (h : Kept q y) (hb : q.batch = some ⟨n, ex, it :: rest⟩)
    (ht : q.heap it.timer = some t) :
    Kept { q with batch := some ⟨n, ex, rest⟩, ran := q.ran ++ [⟨n, it.timer, t⟩] } y := by
  rcases h with hact | ⟨b, u, hb', hu, hseq, hcancel, hex, hrun⟩
  · exact .inl hact
  · cases hb.symm.trans hb'
    refine .inr ⟨_, u, rfl, hu, hseq, hcancel, hex, ?_⟩
    rcases hrun with hrest | hran
    · rcases List.mem_cons.1 hrest with heq | hrest
      · right
        cases heq
        cases ht.symm.trans hu
        exact List.mem_append_right _ (List.mem_singleton_self _)
      · exact .inl hrest
    · exact .inr (List.mem_append_left _ hran)

/-- At the end of `handleRead` the timer is put back, or it runs once and has run. -/
theorem Kept.finish (h : Kept q y) (hok : Ok q) (hb : q.batch = some ⟨n, ex, []⟩)
    (hq1 : ex.foldlM (resetOne n) q.returned = some q1) : y ∈ q1.activeTimers ∨ Spent q1 y := by
  obtain ⟨_, hran⟩ := hok.reset_ran hb hq1
  have hback := hok.finish_kept (y := y) hb hq1
  rcases h with hact | ⟨b, t, hb', ht, hseq, hcancel, hex, hrun⟩
  · exact .inl (hback (.inl hact))
  · cases hb.symm.trans hb'
    cases hrep : t.repeat_ with
    | true => exact .inl (hback (.inr ⟨t, ht, hseq, hrep, hcancel, List.mem_map.2 ⟨_, hex, rfl⟩⟩))
    | false =>
      -- the loop is at its end, so that the timer has run
      right
      refine ⟨⟨n, y.timer, t⟩, ?_, by simp [isRun, hseq], hrep⟩
      exact hran ▸ hrun.resolve_left List.not_mem_nil

theorem Kept.step (h : Kept q y) (hok : Ok q) (he : q.Effect e q') (hne : e ≠ .cancelInLoop y) :
    Kept q' y ∨ Spent q' y := by
  cases he with
  | @newTimer a w i r hfree =>
    left
    rcases h with hact | ⟨b, t, hb, ht, hrest⟩
    · exact .inl hact
    · refine .inr ⟨b, t, hb, ?_, hrest⟩
      rw [created, setHeap_ne]
      · exact ht
      · rintro rfl
        cases hfree.symm.trans ht
  | @addTimerInLoop a t ha ht =>
    left
    rw [added_eq]
    rcases h with hact | hheld
    · exact .inl (OrdSet.mem_insert.2 (.inr hact))
    · exact .inr hheld
  | cancelled hx ht hseq => exact .inl (h.cancelled hok hx fun heq => hne (heq ▸ rfl))
  | canceling hx hcall =>
    left
    rcases h with hact | ⟨b, u, hb, hu, huseq, hcancel, hrest⟩
    · exact .inl hact
    · refine .inr ⟨b, u, hb, hu, huseq, fun hin => ?_, hrest⟩
      rcases OrdSet.mem_insert.1 hin with rfl | hin
      · exact hne rfl
      · exact hcancel hin
  | handleRead hb hmem => exact .inl (h.entered hok hb hmem)
  | callback hb ht hexp => exact .inl (h.callback hb ht)
  | finish hb hq1 _ =>
    rw [rearmed_eq]
    rcases h.finish hok hb hq1 with hact | hspent
    · exact .inl (.inl hact)
    · exact .inr hspent
  | ignored | setClock | expire => exact .inl h

theorem Kept.steps (h : Kept q y) (hok : Ok q) (hs : Steps q es q') (hes : .cancelInLoop y ∉ es) :
    Kept q' y ∨ Spent q' y := by
  induction hs with
  | nil => exact .inl h
  | @cons q q1 q2 e es hl hs hrest ih =>
    have hok1 := hok.steps (.cons hl hs (.nil _))
    rcases h.step hok (hok.effect hl hs) (fun he => hes (he ▸ List.mem_cons_self)) with hkept | ⟨r, hr, hrun⟩
    · exact ih hkept hok1 fun he => hes (List.mem_cons_of_mem _ he)
    · obtain ⟨log, hlog⟩ := hok1.ran_steps hrest
      exact .inr ⟨r, hlog ▸ List.mem_append_left log hr, hrun⟩

/-! ## `cancelInLoop` and every run after it -/

/-- What is asked of a cancellation, which led from `q` to `q'`: whatever happens then, the timer is in the tables no
more; it is called once at most, and only if it stood in the batch still to be run; and from any state outside
`handleRead` on, it is not called. -/
def Final (x : ActiveTimer) (q q' : TimerQueue) : Prop :=
  ∀ es q₁, Steps q' es q₁ →
    (x ∉ q₁.activeTimers ∧ ∀ w, q₁.Live x → ⟨w, x.timer⟩ ∉ q₁.timers) ∧
    (∃ log, q₁.ran = q'.ran ++ log ∧ (log.filter (isRun x)).length ≤ 1 ∧
      ∀ r ∈ log, isRun x r = true → ∃ b, q.batch = some b ∧ runEntry r ∈ b.rest) ∧
    (q₁.batch = none → ∀ es' q₂, Steps q₁ es' q₂ → ∃ log, q₂.ran = q₁.ran ++ log ∧ ∀ r ∈ log, isRun x r = false)

theorem Dead.final (h : Dead x q') (hok : Ok q') (hb : q'.batch = q.batch) : Final x q q' := by
  intro es q₁ hs
  have hok₁ := hok.steps hs
  obtain ⟨hdead, log, hran, hcome⟩ := h.steps hok hs
  refine ⟨⟨hdead.inactive, fun w hlive hin => ?_⟩, ⟨log, hran, ?_, fun r hr hrun => ?_⟩, fun hb₁ es' q₂ hs' => ?_⟩
  · obtain ⟨t, ht, _, hact⟩ := hok₁.inv.entry hin
    obtain ⟨u, hu, hseq⟩ := live_iff.1 hlive
    cases ht.symm.trans hu
    rw [hseq] at hact
    exact hdead.inactive hact
  · have hlen := congrArg List.length hcome
    have hone := hok.toCome_length x
    rw [List.length_append, List.length_map] at hlen
    omega
  · rw [← hb]
    refine mem_of_mem_toCome (x := x) ?_
    rw [← hcome]
    exact List.mem_append_left _ (List.mem_map.2 ⟨r, List.mem_filter.2 ⟨hr, hrun⟩, rfl⟩)
  · obtain ⟨_, log', hran', hcome'⟩ := hdead.steps hok₁ hs'
    have hnone : q₁.toCome x = [] := by simp only [toCome, hb₁]
    rw [hnone, List.append_eq_nil_iff, List.map_eq_nil_iff, List.filter_eq_nil_iff] at hcome'
    exact ⟨log', hran', fun r hr => eq_false_of_ne_true (hcome'.1 r hr)⟩

/-- The timer that was still to be inserted gets into the tables. -/
theorem Waiting.not_final (h : q.Waiting x) (hok : Ok q) (he : q.Effect (.cancelInLoop x) q') (hok' : Ok q') :
    ¬Final x q q' := by
  intro hfinal
  obtain ⟨hqueued, hlive⟩ := h
  have hun := he.unaffected
  have hinactive := hok.inv.inactive (List.mem_append_right _ hqueued) x.sequence
  have hheap : q'.heap x.timer = q.heap x.timer := by
    cases he with
    | cancelled hx => exact absurd hx hinactive
    | canceling => rfl
    | ignored => rfl
  have hl : Event.Legal q' (.addTimerInLoop x.timer) := by
    change x.timer ∈ q'.queued
    rw [hun.rest.1]
    exact hqueued
  obtain ⟨q₁, hq₁, _⟩ := hok'.step hl
  refine (hfinal [.addTimerInLoop x.timer] q₁ (.cons hl hq₁ (.nil _))).1.1 ?_
  cases hok'.effect hl hq₁ with
  | @addTimerInLoop _ t ha ht =>
    rw [added_eq]
    obtain ⟨u, hu, hseq⟩ := live_iff.1 hlive
    cases (hheap ▸ ht).symm.trans hu
    exact OrdSet.mem_insert.2 (.inl (by rw [hseq]))

/-- **Cancellation is final exactly if the timer was not still to be inserted.** In any state of a run, cancelling an id
that `addTimer` has returned changes nothing about the other timers, and whatever happens afterwards each of them
is kept until it is cancelled itself or, if it runs once, has run. -/
theorem cancel_final_iff {clock : Int} {es : List Event} (h : Steps (init clock) es q)
    (hx : x.sequence ≤ q.numCreated) (hs : q.step (.cancelInLoop x) = some q') :
    (Final x q q' ↔ ¬q.Waiting x) ∧ Unaffected x q q' ∧
      ∀ y : ActiveTimer, y.sequence ≠ x.sequence → Kept q y → ∀ es' q₁, Steps q' es' q₁ → .cancelInLoop y ∉ es' →
        Kept q₁ y ∨ Spent q₁ y := by
  obtain ⟨hok, hplaced⟩ := Sound.of_init h
  have hl : Event.Legal q (.cancelInLoop x) := trivial
  have he := hok.effect hl hs
  have hok' := hok.steps (.cons hl hs (.nil _))
  refine ⟨⟨fun hfinal hw => hw.not_final hok he hok' hfinal, fun hw => ?_⟩, he.unaffected, fun y hne hy es' q₁ hs' hes => ?_⟩
  · exact (Dead.of_cancel hplaced hx hw he).final hok' he.unaffected.rest.2.1
  · refine hy.steps hok (.cons hl hs hs') ?_
    rintro (_ | ⟨_, hin⟩)
    · exact hne rfl
    · exact hes hin

/-- A repeating timer is cancelled by its own callback. -/
theorem cancel_final_iff_self : ∃ q q', Steps (init 0)
      [.newTimer 16 5 3 true, .addTimerInLoop 16, .setClock 10, .handleRead, .callback] q ∧
    q.step (.cancelInLoop ⟨16, 1⟩) = some q' ∧ Final ⟨16, 1⟩ q q' := by
  have h : Steps (init 0) [.newTimer 16 5 3 true, .addTimerInLoop 16, .setClock 10, .handleRead, .callback] _ :=
    Run.of_exec _ _ rfl
  refine ⟨_, _, h, rfl, (cancel_final_iff (x := ⟨16, 1⟩) h (by decide) rfl).1.2 ?_⟩
  exact fun hw => absurd hw.1 (by decide)

/-- Thread A makes a timer; before the loop comes to `addTimerInLoop`, a handler cancels the id. The timer runs. -/
theorem cancel_before_insertion_is_lost : ∃ q q' q'', Steps (init 0) [.newTimer 16 5 0 false] q ∧
    q.step (.cancelInLoop ⟨16, 1⟩) = some q' ∧ q'.batch = none ∧
    Steps q' [.addTimerInLoop 16, .setClock 10, .handleRead, .callback] q'' ∧
    q'.ran = [] ∧ q''.ran = [⟨10, 16, ⟨5, 0, false, 1⟩⟩] ∧ ¬Final ⟨16, 1⟩ q q' := by
  have h : Steps (init 0) [.newTimer 16 5 0 false] _ := Run.of_exec _ _ rfl
  refine ⟨_, _, _, h, rfl, rfl, Run.of_exec _ _ rfl, rfl, rfl, fun hfinal => ?_⟩
  obtain ⟨log, hran, hnot⟩ := (hfinal [] _ (.nil _)).2.2 rfl
    [.addTimerInLoop 16, .setClock 10, .handleRead, .callback] _ (Run.of_exec _ _ rfl)
  cases hran
  exact absurd (hnot _ List.mem_cons_self) (by decide)

end TimerQueue
end ChatReactor
