import ChatReactor.TimerQueue

/-!
# The two tables of `TimerQueue`, and what `handleRead` runs

A live `Timer` is either in both tables or in neither. The ones in neither are *loose*: just made and
still to be inserted, or taken out by a `handleRead` that has not come to `reset`. `Inv q loose` says so;
every function moves timers between the tables and the loose ones, and since a cancelled timer is
always in the tables, no callback can free a timer that its own batch still uses.

`Log` is about the record of calls: a one-shot timer that has run is gone from the heap, or waits in
the finished part of the batch to be deleted.
-/

namespace ChatReactor
namespace TimerQueue

structure Inv (q : TimerQueue) (loose : List Nat) : Prop where
  entry : ∀ {e}, e ∈ q.timers → ∃ t, q.heap e.timer = some t ∧ t.expiration = e.expiration ∧
    ⟨e.timer, t.sequence⟩ ∈ q.activeTimers
  active : ∀ {x}, x ∈ q.activeTimers → ∃ t, q.heap x.timer = some t ∧ t.sequence = x.sequence ∧
    ⟨t.expiration, x.timer⟩ ∈ q.timers
  addr : ∀ {a t}, q.heap a = some t → a < uintptrMax
  seq_le : ∀ {a t}, q.heap a = some t → t.sequence ≤ q.numCreated
  seq_inj : ∀ {a b t u}, q.heap a = some t → q.heap b = some u → t.sequence = u.sequence → a = b
  nodup : loose.Nodup
  live : ∀ {a}, a ∈ loose → ∃ t, q.heap a = some t
  inactive : ∀ {a}, a ∈ loose → ∀ s, ⟨a, s⟩ ∉ q.activeTimers

/-- The tables hold the same timers, with their expiration and sequence number. -/
def Matches (q : TimerQueue) : Prop :=
  (∀ e a, ⟨e, a⟩ ∈ q.timers ↔ ∃ t, q.heap a = some t ∧ t.expiration = e ∧ ⟨a, t.sequence⟩ ∈ q.activeTimers) ∧
  (∀ a s, ⟨a, s⟩ ∈ q.activeTimers ↔ ∃ t, q.heap a = some t ∧ t.sequence = s ∧ ⟨t.expiration, a⟩ ∈ q.timers) ∧
  q.timers.size = q.activeTimers.size

/-- What the record says: no timer ran early, a one-shot timer that ran is only left among `done`,
and no two calls were of the same one-shot timer. -/
structure Log (q : TimerQueue) (done : List Nat) : Prop where
  due : ∀ r ∈ q.ran, r.timer.expiration ≤ r.now
  known : ∀ r ∈ q.ran, r.timer.sequence ≤ q.numCreated
  gone : ∀ r ∈ q.ran, r.timer.repeat_ = false → ∀ a t, q.heap a = some t → t.sequence = r.timer.sequence →
    a ∈ done ∧ t.repeat_ = false
  once : ((q.ran.filter fun r => !r.timer.repeat_).map fun r => r.timer.sequence).Nodup

section
variable {q q' : TimerQueue} {loose l : List Nat} {a : Nat} {t : Timer}

theorem Inv.perm (h : Inv q loose) (hp : loose.Perm l) : Inv q l :=
  { h with
    nodup := hp.nodup_iff.1 h.nodup
    live := fun ha => h.live (hp.mem_iff.2 ha)
    inactive := fun ha => h.inactive (hp.mem_iff.2 ha) }

variable {e : Entry}

/-- An address has one entry. -/
theorem Inv.entry_unique (h : Inv q loose) {e' : Entry} (he : e ∈ q.timers) (he' : e' ∈ q.timers)
    (heq : e.timer = e'.timer) : e = e' := by
  obtain ⟨t, ht, hexp, _⟩ := h.entry he
  obtain ⟨t', ht', hexp', _⟩ := h.entry he'
  rw [heq, ht'] at ht
  cases ht
  cases e; cases e'
  simp_all

variable {x : ActiveTimer}

theorem Inv.active_unique (h : Inv q loose) (hx : x ∈ q.activeTimers) (ht : q.heap x.timer = some t) :
    x = ⟨x.timer, t.sequence⟩ := by
  obtain ⟨u, hu, hseq, _⟩ := h.active hx
  rw [ht] at hu
  cases hu
  rw [hseq]

theorem Inv.not_entry (h : Inv q loose) (ha : a ∈ loose) (w : Int) : ⟨w, a⟩ ∉ q.timers := by
  intro he
  obtain ⟨t, _, _, hact⟩ := h.entry he
  exact h.inactive ha _ hact

/-- The assert at both ends of every function. -/
theorem Inv.size_eq (h : Inv q loose) : q.timers.size = q.activeTimers.size := by
  apply le_antisymm
  · refine OrdSet.size_le_of_maps (fun e => ⟨e.timer, ((q.heap e.timer).map Timer.sequence).getD 0⟩) ?_ ?_
    · intro e he
      obtain ⟨t, ht, _, hact⟩ := h.entry he
      simpa [ht] using hact
    · intro e he e' he' heq
      exact h.entry_unique he he' (ActiveTimer.mk.inj heq).1
  · refine OrdSet.size_le_of_maps (fun x => ⟨((q.heap x.timer).map Timer.expiration).getD 0, x.timer⟩) ?_ ?_
    · intro x hx
      obtain ⟨t, ht, _, hent⟩ := h.active hx
      simpa [ht] using hent
    · intro x hx x' hx' heq
      obtain ⟨t, ht, _⟩ := h.active hx
      have htimer : x.timer = x'.timer := (Entry.mk.inj heq).2
      rw [h.active_unique hx ht, h.active_unique hx' (htimer ▸ ht), htimer]

theorem Inv.matches (h : Inv q loose) : q.Matches := by
  refine ⟨fun e a => ⟨fun he => h.entry he, ?_⟩, fun a s => ⟨fun hx => h.active hx, ?_⟩, h.size_eq⟩
  · rintro ⟨t, ht, rfl, hact⟩
    obtain ⟨u, hu, _, hent⟩ := h.active hact
    rw [ht] at hu
    cases hu
    exact hent
  · rintro ⟨t, ht, rfl, hent⟩
    obtain ⟨u, hu, _, hact⟩ := h.entry hent
    rw [ht] at hu
    cases hu
    exact hact

/-! ## `insert` and `addTimerInLoop` -/

/-- The queue after `insert`. -/
def inserted (q : TimerQueue) (a : Nat) (t : Timer) : TimerQueue :=
  { q with timers := q.timers.insert ⟨t.expiration, a⟩, activeTimers := q.activeTimers.insert ⟨a, t.sequence⟩ }

theorem Inv.inserted (h : Inv q (a :: loose)) (ht : q.heap a = some t) : Inv (q.inserted a t) loose := by
  obtain ⟨hnew, hnodup⟩ := List.nodup_cons.1 h.nodup
  refine { h with entry := ?_, active := ?_, inactive := ?_, nodup := hnodup,
                  live := fun hb => h.live (List.mem_cons_of_mem _ hb) }
  · intro e he
    rcases OrdSet.mem_insert.1 he with rfl | he
    · exact ⟨t, ht, rfl, OrdSet.mem_insert.2 (Or.inl rfl)⟩
    · obtain ⟨u, hu, hexp, hact⟩ := h.entry he
      exact ⟨u, hu, hexp, OrdSet.mem_insert.2 (Or.inr hact)⟩
  · intro x hx
    rcases OrdSet.mem_insert.1 hx with rfl | hx
    · exact ⟨t, ht, rfl, OrdSet.mem_insert.2 (Or.inl rfl)⟩
    · obtain ⟨u, hu, hseq, hent⟩ := h.active hx
      exact ⟨u, hu, hseq, OrdSet.mem_insert.2 (Or.inr hent)⟩
  · intro b hb s hx
    rcases OrdSet.mem_insert.1 hx with heq | hx
    · exact hnew ((ActiveTimer.mk.inj heq).1 ▸ hb)
    · exact h.inactive (List.mem_cons_of_mem _ hb) s hx

/-- What `insert` returns. -/
def changesEarliest (q : TimerQueue) (when : Int) : Bool := match q.timers.elems.head? with
  | none => true
  | some it => decide (when < it.expiration)

/-- A loose timer can be inserted: every assert of `insert` holds. -/
theorem Inv.insert_eq (h : Inv q (a :: loose)) (ht : q.heap a = some t) :
    q.insert a = some (q.changesEarliest t.expiration, q.inserted a t) := by
  have hent := h.not_entry List.mem_cons_self t.expiration
  have hact := h.inactive List.mem_cons_self t.sequence
  have hsize := (h.inserted ht).size_eq
  unfold TimerQueue.inserted at hsize ⊢
  simp only [TimerQueue.insert, ht, check_of h.size_eq, check_of hent, check_of hact, check_of hsize,
    Option.bind_eq_bind, Option.bind_some]
  rfl

/-- The queue after `addTimerInLoop`. -/
def added (q : TimerQueue) (a : Nat) (t : Timer) : TimerQueue :=
  if q.changesEarliest t.expiration then (q.inserted a t).resetTimerfd t.expiration else q.inserted a t

theorem Inv.addTimerInLoop_eq (h : Inv q (a :: loose)) (ht : q.heap a = some t) :
    q.addTimerInLoop a = some (q.added a t) := by
  have hheap : (q.inserted a t).heap a = some t := ht
  unfold added
  cases hb : q.changesEarliest t.expiration <;> simp [TimerQueue.addTimerInLoop, h.insert_eq ht, hb, hheap]

/-- The descriptor apart, it is the queue after `insert`. -/
theorem added_eq (q : TimerQueue) (a : Nat) (t : Timer) : q.added a t = { q.inserted a t with
    timerfd := (q.added a t).timerfd, readable := (q.added a t).readable, lastReset := (q.added a t).lastReset } := by
  unfold added
  split <;> rfl

theorem Inv.added (h : Inv q (a :: loose)) (ht : q.heap a = some t) : Inv (q.added a t) loose := by
  rw [added_eq]
  exact { h.inserted ht with }

/-! ## Creation, deletion and `cancelInLoop` -/

theorem setHeap_ne (q : TimerQueue) (v : Option Timer) {b : Nat} (hb : b ≠ a) : (q.setHeap a v).heap b = q.heap b := by
  simp [setHeap, hb]

@[simp] theorem setHeap_self (q : TimerQueue) (a : Nat) (v : Option Timer) : (q.setHeap a v).heap a = v := by
  simp [setHeap]

theorem heap_setHeap {q : TimerQueue} {a b : Nat} {v : Option Timer} {u : Timer} :
    (q.setHeap a v).heap b = some u ↔ (b = a ∧ v = some u) ∨ (b ≠ a ∧ q.heap b = some u) := by
  by_cases h : b = a
  · subst h
    simp
  · rw [setHeap_ne q v h]
    simp [h]

/-- What a loose timer, or one in the tables, has in the heap is not at a free address. -/
theorem Inv.setHeap (h : Inv q loose) (ha : ∀ s, ⟨a, s⟩ ∉ q.activeTimers) (v : Option Timer)
    (haddr : v ≠ none → a < uintptrMax) (hseq : ∀ u ∈ v, u.sequence ≤ q.numCreated)
    (hinj : ∀ u ∈ v, ∀ b w, b ≠ a → q.heap b = some w → w.sequence ≠ u.sequence)
    (hloose : a ∈ loose → v ≠ none) : Inv (q.setHeap a v) loose := by
  have hentry : ∀ {e}, e ∈ q.timers → e.timer ≠ a := by
    rintro e he rfl
    obtain ⟨t, _, _, hact⟩ := h.entry he
    exact ha _ hact
  have hactive : ∀ {x}, x ∈ q.activeTimers → x.timer ≠ a := by
    rintro x hx rfl
    exact ha x.sequence hx
  refine ⟨?_, ?_, ?_, ?_, ?_, h.nodup, ?_, h.inactive⟩
  · intro e he
    rw [setHeap_ne q v (hentry he)]
    exact h.entry he
  · intro x hx
    rw [setHeap_ne q v (hactive hx)]
    exact h.active hx
  · intro b u hb
    rcases heap_setHeap.1 hb with ⟨rfl, rfl⟩ | ⟨_, hb⟩
    · exact haddr (by simp)
    · exact h.addr hb
  · intro b u hb
    rcases heap_setHeap.1 hb with ⟨rfl, hv⟩ | ⟨_, hb⟩
    · exact hseq u hv
    · exact h.seq_le hb
  · intro b c u w hb hc heq
    rcases heap_setHeap.1 hb with ⟨hba, hu⟩ | ⟨hba, hb'⟩ <;> rcases heap_setHeap.1 hc with ⟨hca, hw⟩ | ⟨hca, hc'⟩
    · rw [hba, hca]
    · exact absurd heq.symm (hinj u hu c w hca hc')
    · exact absurd heq (hinj w hw b u hba hb')
    · exact h.seq_inj hb' hc' heq
  · intro b hb
    by_cases hba : b = a
    · subst hba
      obtain ⟨u, hu⟩ := Option.ne_none_iff_exists'.1 (hloose hb)
      exact ⟨u, by rw [setHeap_self, hu]⟩
    · rw [setHeap_ne q v hba]
      exact h.live hb

theorem Inv.newTimer (h : Inv q loose) (ha : q.heap a = none) (hmax : a < uintptrMax) {w i : Int} {r : Bool}
    (hq' : q.step (.newTimer a w i r) = some q') : Inv q' (loose ++ [a]) := by
  cases hq'
  have hfresh : a ∉ loose := by
    intro hl
    obtain ⟨t, ht⟩ := h.live hl
    rw [ha] at ht
    cases ht
  have hoff : ∀ s, ⟨a, s⟩ ∉ q.activeTimers := by
    intro s hx
    obtain ⟨t, ht, _⟩ := h.active hx
    rw [ha] at ht
    cases ht
  have h1 : Inv { q with numCreated := q.numCreated + 1, queued := q.queued ++ [a] } loose :=
    { h with seq_le := fun hb => Nat.le_succ_of_le (h.seq_le hb) }
  have h2 := h1.setHeap hoff (some ⟨w, i, r, q.numCreated + 1⟩) (fun _ => hmax)
    (by rintro u ⟨⟩; exact Nat.le_refl _)
    (by rintro u ⟨⟩ b x _ hb; exact Nat.ne_of_lt (Nat.lt_succ_of_le (h.seq_le hb)))
    (fun _ => by simp)
  refine { h2 with nodup := ?_, live := ?_, inactive := ?_ }
  · exact List.Nodup.append h.nodup (List.nodup_singleton a) (List.disjoint_singleton.2 hfresh)
  · intro b hb
    rcases List.mem_append.1 hb with hb | hb
    · exact h2.live hb
    · rw [List.mem_singleton.1 hb]
      exact ⟨_, setHeap_self _ _ _⟩
  · intro b hb
    rcases List.mem_append.1 hb with hb | hb
    · exact h2.inactive hb
    · rw [List.mem_singleton.1 hb]
      exact hoff

/-- A loose timer can be deleted. -/
theorem Inv.delete (h : Inv q (a :: loose)) : Inv (q.setHeap a none) loose := by
  obtain ⟨hnew, hnodup⟩ := List.nodup_cons.1 h.nodup
  have h1 : Inv q loose :=
    { h with
      nodup := hnodup
      live := fun hb => h.live (List.mem_cons_of_mem _ hb)
      inactive := fun hb => h.inactive (List.mem_cons_of_mem _ hb) }
  exact h1.setHeap (h.inactive List.mem_cons_self) none (by simp) (by simp) (by simp) (fun hl => absurd hl hnew)

/-- The timer with this entry taken out of both tables: it becomes loose. -/
theorem Inv.extract (h : Inv q loose) (hx : x ∈ q.activeTimers) (ht : q.heap x.timer = some t) :
    Inv { q with timers := q.timers.erase ⟨t.expiration, x.timer⟩, activeTimers := q.activeTimers.erase x }
      (x.timer :: loose) := by
  refine { h with entry := ?_, active := ?_, nodup := ?_, live := ?_, inactive := ?_ }
  · intro e he
    obtain ⟨hne, he⟩ := OrdSet.mem_erase.1 he
    obtain ⟨u, hu, hexp, hact⟩ := h.entry he
    refine ⟨u, hu, hexp, OrdSet.mem_erase.2 ⟨?_, hact⟩⟩
    rintro rfl
    rw [ht] at hu
    cases hu
    exact hne (by cases e; cases hexp; rfl)
  · intro y hy
    obtain ⟨hne, hy⟩ := OrdSet.mem_erase.1 hy
    obtain ⟨u, hu, hseq, hent⟩ := h.active hy
    refine ⟨u, hu, hseq, OrdSet.mem_erase.2 ⟨?_, hent⟩⟩
    intro heq
    have htimer : y.timer = x.timer := (Entry.mk.inj heq).2
    rw [htimer] at hu
    exact hne (by rw [h.active_unique hx hu, h.active_unique hy (htimer ▸ hu), htimer])
  · refine List.nodup_cons.2 ⟨fun hl => h.inactive hl x.sequence hx, h.nodup⟩
  · intro b hb
    rcases List.mem_cons.1 hb with rfl | hb
    · exact ⟨t, ht⟩
    · exact h.live hb
  · intro b hb s hy
    obtain ⟨hne, hy⟩ := OrdSet.mem_erase.1 hy
    rcases List.mem_cons.1 hb with rfl | hb
    · exact hne (by rw [h.active_unique hx ht, h.active_unique hy ht])
    · exact h.inactive hb s hy

/-- The queue after a timer in the tables was cancelled. -/
def cancelled (q : TimerQueue) (x : ActiveTimer) (t : Timer) : TimerQueue :=
  ({ q with
    timers := q.timers.erase ⟨t.expiration, x.timer⟩, activeTimers := q.activeTimers.erase x }).setHeap x.timer none

theorem Inv.cancelled (h : Inv q loose) (hx : x ∈ q.activeTimers) (ht : q.heap x.timer = some t) :
    Inv (q.cancelled x t) loose :=
  (h.extract hx ht).delete

theorem Inv.cancelInLoop_active (h : Inv q loose) (hx : x ∈ q.activeTimers) (ht : q.heap x.timer = some t) :
    q.cancelInLoop x = some (q.cancelled x t) := by
  obtain ⟨u, hu, _, hent⟩ := h.active hx
  rw [ht] at hu
  cases hu
  have hsize := (h.cancelled hx ht).size_eq
  simp only [TimerQueue.cancelled, TimerQueue.setHeap] at hsize ⊢
  simp [TimerQueue.cancelInLoop, TimerQueue.setHeap, check_of h.size_eq, hx, ht, check_of hent, check_of hsize]

theorem Inv.cancelInLoop_inactive (h : Inv q loose) (hx : x ∉ q.activeTimers) :
    q.cancelInLoop x =
      some (if q.callingExpiredTimers then { q with cancelingTimers := q.cancelingTimers.insert x } else q) := by
  cases hcall : q.callingExpiredTimers <;> simp [TimerQueue.cancelInLoop, check_of h.size_eq, hx, hcall]

/-- `cancelInLoop` passes its asserts and frees no loose timer. -/
theorem Inv.cancelInLoop (h : Inv q loose) (x : ActiveTimer) : ∃ q', q.cancelInLoop x = some q' ∧ Inv q' loose ∧
    (q'.heap = q.heap ∨ (x ∈ q.activeTimers ∧ q'.heap = Function.update q.heap x.timer none)) ∧
    q'.numCreated = q.numCreated ∧ q'.queued = q.queued ∧ q'.batch = q.batch ∧ q'.ran = q.ran := by
  by_cases hx : x ∈ q.activeTimers
  · obtain ⟨t, ht, _⟩ := h.active hx
    exact ⟨_, h.cancelInLoop_active hx ht, h.cancelled hx ht, Or.inr ⟨hx, rfl⟩, rfl, rfl, rfl, rfl⟩
  · refine ⟨_, h.cancelInLoop_inactive hx, ?_⟩
    split
    · exact ⟨{ h with }, Or.inl rfl, rfl, rfl, rfl, rfl⟩
    · exact ⟨h, Or.inl rfl, rfl, rfl, rfl, rfl⟩

/-! ## `getExpired` -/

theorem lt_sentry {now : Int} (he : e.timer < uintptrMax) : e < ⟨now, uintptrMax⟩ ↔ e.expiration ≤ now := by
  show toLex (e.expiration, e.timer) < toLex (now, uintptrMax) ↔ _
  rw [Prod.Lex.toLex_lt_toLex]
  constructor
  · rintro (hlt | ⟨heq, _⟩)
    · exact le_of_lt hlt
    · exact le_of_eq heq
  · intro hle
    rcases lt_or_eq_of_le hle with hlt | heq
    · exact Or.inl hlt
    · exact Or.inr ⟨heq, he⟩

/-- The loop of `getExpired` takes the timers of its list out of `activeTimers_`. -/
theorem deactivate_foldlM : ∀ (l : List Entry) {q : TimerQueue},
    (∀ x ∈ q.activeTimers, ∀ t, q.heap x.timer = some t → x.sequence = t.sequence) →
    (∀ e ∈ l, ∃ t, q.heap e.timer = some t ∧ ⟨e.timer, t.sequence⟩ ∈ q.activeTimers) →
    (l.map Entry.timer).Nodup →
    ∃ s, l.foldlM deactivate q = some { q with activeTimers := s } ∧
      ∀ x, x ∈ s ↔ x ∈ q.activeTimers ∧ x.timer ∉ l.map Entry.timer
  | [], q, _, _, _ => ⟨q.activeTimers, rfl, by simp⟩
  | e :: l, q, huniq, hl, hnodup => by
    obtain ⟨t, ht, hact⟩ := hl e List.mem_cons_self
    obtain ⟨hnew, hnodup⟩ := List.nodup_cons.1 hnodup
    have hrest : ∀ e' ∈ l, ∃ t', q.heap e'.timer = some t' ∧
        ⟨e'.timer, t'.sequence⟩ ∈ q.activeTimers.erase ⟨e.timer, t.sequence⟩ := by
      intro e' he'
      obtain ⟨t', ht', hact'⟩ := hl e' (List.mem_cons_of_mem _ he')
      refine ⟨t', ht', OrdSet.mem_erase.2 ⟨fun heq => ?_, hact'⟩⟩
      exact hnew (List.mem_map.2 ⟨e', he', (ActiveTimer.mk.inj heq).1⟩)
    obtain ⟨s, hs, hmem⟩ := deactivate_foldlM l
      (q := { q with activeTimers := q.activeTimers.erase ⟨e.timer, t.sequence⟩ })
      (fun x hx => huniq x (OrdSet.mem_erase.1 hx).2) hrest hnodup
    refine ⟨s, ?_, fun x => ?_⟩
    · simp only [List.foldlM_cons, deactivate, ht, check_of hact, Option.bind_eq_bind, Option.bind_some]
      exact hs
    · have hne : x ∈ q.activeTimers → (x ≠ ⟨e.timer, t.sequence⟩ ↔ x.timer ≠ e.timer) := by
        intro hx
        refine not_congr ⟨fun heq => by rw [heq], fun heq => ?_⟩
        have := huniq x hx t (by rw [heq]; exact ht)
        cases x
        simp_all
      rw [hmem, OrdSet.mem_erase, List.map_cons, List.mem_cons, not_or]
      constructor
      · rintro ⟨⟨h1, h2⟩, h3⟩
        exact ⟨h2, (hne h2).1 h1, h3⟩
      · rintro ⟨h1, h2, h3⟩
        exact ⟨⟨(hne h1).2 h2, h1⟩, h3⟩

theorem expiration_mono {e' : Entry} (h : e ≤ e') : e.expiration ≤ e'.expiration := by
  rcases Prod.Lex.toLex_le_toLex.1 (show toLex (e.expiration, e.timer) ≤ toLex (e'.expiration, e'.timer) from h) with
    hlt | ⟨heq, _⟩
  · exact le_of_lt hlt
  · exact le_of_eq heq

/-- The timers whose time has come, in the order of `timers_`. -/
def due (q : TimerQueue) (now : Int) : List Entry := q.timers.elems.filter fun e => e.expiration ≤ now

theorem due_sorted (q : TimerQueue) (now : Int) : (q.due now).Pairwise fun a b => a.expiration ≤ b.expiration := by
  exact (q.timers.sorted.filter _).imp fun hab => expiration_mono hab.le

theorem mem_due {now : Int} : e ∈ q.due now ↔ e ∈ q.timers ∧ e.expiration ≤ now := by
  simp [due, OrdSet.mem_def]

theorem Inv.below_eq (h : Inv q loose) (now : Int) : q.timers.below ⟨now, uintptrMax⟩ = q.due now := by
  refine List.filter_congr fun e he => ?_
  obtain ⟨t, ht, _⟩ := h.entry (OrdSet.mem_def.2 he)
  simp only [decide_eq_decide]
  exact lt_sentry (h.addr ht)

theorem Inv.due_nodup (h : Inv q loose) (now : Int) : ((q.due now).map Entry.timer).Nodup := by
  refine List.Nodup.map_on ?_ (q.timers.nodup.filter _)
  intro e he e' he' heq
  exact h.entry_unique (mem_due.1 he).1 (mem_due.1 he').1 heq

theorem Inv.mem_drop (h : Inv q loose) {now : Int} :
    e ∈ q.timers.drop ⟨now, uintptrMax⟩ ↔ e ∈ q.timers ∧ now < e.expiration := by
  rw [OrdSet.mem_drop]
  refine and_congr_right fun he => ?_
  obtain ⟨t, ht, _⟩ := h.entry he
  rw [lt_sentry (h.addr ht), not_le]

/-- The queue after `getExpired`, with `s` as what is left of `activeTimers_`. -/
def withoutDue (q : TimerQueue) (now : Int) (s : OrdSet ActiveTimer) : TimerQueue :=
  { q with timers := q.timers.drop ⟨now, uintptrMax⟩, activeTimers := s }

/-- The due timers become loose. -/
theorem Inv.withoutDue (h : Inv q loose) {now : Int} {s : OrdSet ActiveTimer}
    (hmem : ∀ x, x ∈ s ↔ x ∈ q.activeTimers ∧ x.timer ∉ (q.due now).map Entry.timer) :
    Inv (q.withoutDue now s) ((q.due now).map Entry.timer ++ loose) := by
  refine { h with entry := ?_, active := ?_, nodup := ?_, live := ?_, inactive := ?_ }
  · intro e he
    obtain ⟨he, hlt⟩ := h.mem_drop.1 he
    obtain ⟨t, ht, hexp, hact⟩ := h.entry he
    refine ⟨t, ht, hexp, (hmem _).2 ⟨hact, fun hin => ?_⟩⟩
    obtain ⟨e', he', heq⟩ := List.mem_map.1 hin
    obtain ⟨hmem', hle⟩ := mem_due.1 he'
    rw [h.entry_unique hmem' he heq] at hle
    omega
  · intro x hx
    obtain ⟨hx, hout⟩ := (hmem x).1 hx
    obtain ⟨t, ht, hseq, hent⟩ := h.active hx
    refine ⟨t, ht, hseq, h.mem_drop.2 ⟨hent, not_le.1 fun hle => hout ?_⟩⟩
    exact List.mem_map.2 ⟨_, mem_due.2 ⟨hent, hle⟩, rfl⟩
  · refine List.Nodup.append (h.due_nodup now) h.nodup ?_
    intro a ha hl
    obtain ⟨e, he, rfl⟩ := List.mem_map.1 ha
    exact h.not_entry hl e.expiration (mem_due.1 he).1
  · intro a ha
    rcases List.mem_append.1 ha with ha | ha
    · obtain ⟨e, he, rfl⟩ := List.mem_map.1 ha
      obtain ⟨t, ht, _⟩ := h.entry (mem_due.1 he).1
      exact ⟨t, ht⟩
    · exact h.live ha
  · intro a ha s' hx
    obtain ⟨hx, hout⟩ := (hmem _).1 hx
    rcases List.mem_append.1 ha with ha | ha
    · exact hout ha
    · exact h.inactive ha s' hx

/-- `getExpired` passes its asserts and takes exactly the due timers out. -/
theorem Inv.getExpired (h : Inv q loose) (now : Int) :
    ∃ s, q.getExpired now = some (q.due now, q.withoutDue now s) ∧
      ∀ x, x ∈ s ↔ x ∈ q.activeTimers ∧ x.timer ∉ (q.due now).map Entry.timer := by
  have huniq : ∀ x ∈ q.activeTimers, ∀ t, q.heap x.timer = some t → x.sequence = t.sequence := by
    intro x hx t ht
    exact congrArg ActiveTimer.sequence (h.active_unique hx ht)
  have hdue : ∀ e ∈ q.due now, ∃ t, q.heap e.timer = some t ∧ ⟨e.timer, t.sequence⟩ ∈ q.activeTimers := by
    intro e he
    obtain ⟨t, ht, _, hact⟩ := h.entry (mem_due.1 he).1
    exact ⟨t, ht, hact⟩
  obtain ⟨s, hs, hmem⟩ := deactivate_foldlM (q.due now) (q := { q with timers := q.timers.drop ⟨now, uintptrMax⟩ })
    huniq hdue (h.due_nodup now)
  have hhead : ∀ it ∈ (q.timers.drop ⟨now, uintptrMax⟩).elems.head?, now < it.expiration := by
    intro it hit
    exact (h.mem_drop.1 (OrdSet.mem_def.2 (List.mem_of_mem_head? hit))).2
  have hsize := (h.withoutDue hmem).size_eq
  refine ⟨s, ?_, hmem⟩
  unfold TimerQueue.withoutDue at hsize ⊢
  simp only [TimerQueue.getExpired, check_of h.size_eq, h.below_eq now, check_of hhead, hs, check_of hsize,
    Option.bind_eq_bind, Option.bind_some]
  rfl

/-! ## The batch and the record -/

/-- The state of a `handleRead` that has run `done` and still has to run `rest`; both are empty
between two calls. -/
structure Good (q : TimerQueue) (done rest : List Entry) (now : Int) : Prop where
  inv : Inv q ((done ++ rest).map Entry.timer ++ q.queued)
  held : ∀ e ∈ done ++ rest, e.expiration ≤ now ∧ ∃ t, q.heap e.timer = some t ∧ t.expiration = e.expiration
  log : Log q (done.map Entry.timer)

variable {done rest : List Entry} {now : Int}

theorem Log.mono (h : Log q l) (hran : q'.ran = q.ran) (hnum : q.numCreated ≤ q'.numCreated)
    (hheap : ∀ a t, q'.heap a = some t → q.heap a = some t ∨ q.numCreated < t.sequence) : Log q' l := by
  refine ⟨hran ▸ h.due, fun r hr => (h.known r (hran ▸ hr)).trans hnum, ?_, hran ▸ h.once⟩
  intro r hr hone a t ht hseq
  have hr' : r ∈ q.ran := hran ▸ hr
  rcases hheap a t ht with hold | hnew
  · exact h.gone r hr' hone a t hold hseq
  · have := h.known r hr'
    omega

/-- What a callback, or anyone between two calls of `handleRead`, does to the queue. -/
def Event.Inner (e : Event) : Prop := e ≠ .handleRead ∧ e ≠ .callback ∧ e ≠ .finish

theorem Good.newTimer (h : Good q done rest now) {a : Nat} {w i : Int} {r : Bool} (hl : (Event.newTimer a w i r).Legal q) :
    ∃ q', q.step (.newTimer a w i r) = some q' ∧ Good q' done rest now ∧ q'.batch = q.batch ∧ q'.ran = q.ran := by
  obtain ⟨hfree, hmax⟩ := hl
  refine ⟨_, rfl, ⟨?_, ?_, ?_⟩, rfl, rfl⟩
  · have hinv := h.inv.newTimer hfree hmax (w := w) (i := i) (r := r) rfl
    rw [List.append_assoc] at hinv
    exact hinv
  · intro e he
    obtain ⟨hle, t, ht, hexp⟩ := h.held e he
    refine ⟨hle, t, ?_, hexp⟩
    rw [setHeap_ne _ _ (by rintro rfl; rw [hfree] at ht; cases ht)]
    exact ht
  · refine h.log.mono rfl (Nat.le_succ _) fun b u hb => ?_
    rcases heap_setHeap.1 hb with ⟨_, hu⟩ | ⟨_, hb⟩
    · cases hu
      exact Or.inr (Nat.lt_succ_self _)
    · exact Or.inl hb

theorem Good.addTimerInLoop (h : Good q done rest now) {a : Nat} (hl : (Event.addTimerInLoop a).Legal q) :
    ∃ q', q.step (.addTimerInLoop a) = some q' ∧ Good q' done rest now ∧ q'.batch = q.batch ∧ q'.ran = q.ran := by
  have hperm : ((done ++ rest).map Entry.timer ++ q.queued).Perm
      (a :: ((done ++ rest).map Entry.timer ++ q.queued.erase a)) :=
    ((List.perm_cons_erase hl).append_left _).trans List.perm_middle
  have h1 : Inv { q with queued := q.queued.erase a } (a :: ((done ++ rest).map Entry.timer ++ q.queued.erase a)) :=
    { h.inv.perm hperm with }
  obtain ⟨t, ht⟩ := h1.live List.mem_cons_self
  refine ⟨_, h1.addTimerInLoop_eq ht, ?_⟩
  have hinv := h1.added ht
  rw [added_eq] at hinv ⊢
  exact ⟨⟨hinv, h.held, { h.log with }⟩, rfl, rfl⟩

theorem Good.cancelInLoop (h : Good q done rest now) (x : ActiveTimer) :
    ∃ q', q.step (.cancelInLoop x) = some q' ∧ Good q' done rest now ∧ q'.batch = q.batch ∧ q'.ran = q.ran := by
  obtain ⟨q', hq', hinv, hheap, hnum, hqueued, hbatch, hran⟩ := h.inv.cancelInLoop x
  have hsub : ∀ b u, q'.heap b = some u → q.heap b = some u := by
    intro b u hb
    rcases hheap with heq | ⟨_, heq⟩
    · rw [heq] at hb
      exact hb
    · rw [heq] at hb
      exact ((heap_setHeap.1 hb).resolve_left (by simp)).2
  refine ⟨q', hq', ⟨?_, ?_, ?_⟩, hbatch, hran⟩
  · rw [hqueued]
    exact hinv
  · -- a timer of the batch is loose, so it is not the one that is deleted
    intro e he
    obtain ⟨hle, t, ht, hexp⟩ := h.held e he
    obtain ⟨u, hu⟩ := hinv.live (List.mem_append_left _ (List.mem_map_of_mem he))
    rw [hsub _ _ hu] at ht
    cases ht
    exact ⟨hle, t, hu, hexp⟩
  · exact h.log.mono hran (le_of_eq hnum.symm) fun b u hb => Or.inl (hsub b u hb)

theorem Good.inner (h : Good q done rest now) {e : Event} (hi : e.Inner) (hl : e.Legal q) :
    ∃ q', q.step e = some q' ∧ Good q' done rest now ∧ q'.batch = q.batch ∧ q'.ran = q.ran := by
  cases e with
  | newTimer a w i r => exact h.newTimer hl
  | addTimerInLoop a => exact h.addTimerInLoop hl
  | cancelInLoop x => exact h.cancelInLoop x
  | setClock c => exact ⟨_, rfl, ⟨{ h.inv with }, h.held, { h.log with }⟩, rfl, rfl⟩
  | expire => exact ⟨_, rfl, ⟨{ h.inv with }, h.held, { h.log with }⟩, rfl, rfl⟩
  | handleRead => exact absurd rfl hi.1
  | callback => exact absurd rfl hi.2.1
  | finish => exact absurd rfl hi.2.2

/-- The queue when `handleRead` comes to its loop. -/
def entered (q : TimerQueue) (s : OrdSet ActiveTimer) : TimerQueue :=
  { q.readTimerfd.withoutDue q.clock s with
    callingExpiredTimers := true, cancelingTimers := .empty, batch := some ⟨q.clock, q.due q.clock, q.due q.clock⟩ }

theorem Inv.handleReadEnter (h : Inv q loose) : ∃ s, q.handleReadEnter = some (q.entered s) ∧
    ∀ x, x ∈ s ↔ x ∈ q.activeTimers ∧ x.timer ∉ (q.due q.clock).map Entry.timer := by
  have h1 : Inv q.readTimerfd loose := { h with }
  obtain ⟨s, hs, hmem⟩ := h1.getExpired q.clock
  refine ⟨s, ?_, hmem⟩
  simp only [TimerQueue.handleReadEnter, hs, Option.bind_eq_bind, Option.bind_some]
  rfl

theorem Good.enter (h : Good q [] [] now) {s : OrdSet ActiveTimer}
    (hmem : ∀ x, x ∈ s ↔ x ∈ q.activeTimers ∧ x.timer ∉ (q.due q.clock).map Entry.timer) :
    Good (q.entered s) [] (q.due q.clock) q.clock := by
  refine ⟨{ h.inv.withoutDue hmem with }, ?_, { h.log with }⟩
  intro e he
  obtain ⟨hmem, hle⟩ := mem_due.1 he
  obtain ⟨t, ht, hexp, _⟩ := h.inv.entry hmem
  exact ⟨hle, t, ht, hexp⟩

/-- A timer that is not among `done` is called. -/
theorem Log.call (h : Log q l) (hinv : Inv q loose) (ht : q.heap a = some t) (hle : t.expiration ≤ now) (ha : a ∉ l)
    {b : Option Batch} : Log { q with batch := b, ran := q.ran ++ [⟨now, a, t⟩] } (l ++ [a]) := by
  refine ⟨?_, ?_, ?_, ?_⟩
  · intro r hr
    rcases List.mem_append.1 hr with hr | hr
    · exact h.due r hr
    · rw [List.mem_singleton.1 hr]
      exact hle
  · intro r hr
    rcases List.mem_append.1 hr with hr | hr
    · exact h.known r hr
    · rw [List.mem_singleton.1 hr]
      exact hinv.seq_le ht
  · intro r hr hone a' u hu hseq
    rcases List.mem_append.1 hr with hr | hr
    · obtain ⟨hin, hrep⟩ := h.gone r hr hone a' u hu hseq
      exact ⟨List.mem_append_left _ hin, hrep⟩
    · rw [List.mem_singleton.1 hr] at hone hseq
      have ha' := hinv.seq_inj hu ht hseq
      subst ha'
      rw [ht] at hu
      cases hu
      exact ⟨by simp, hone⟩
  · rw [List.filter_append, List.map_append]
    refine List.Nodup.append h.once ?_ ?_
    · cases hrep : t.repeat_ <;> simp [hrep]
    · -- an earlier run of the same one-shot timer would have left it among `done`
      intro s hs hs'
      obtain ⟨r, hr, rfl⟩ := List.mem_map.1 hs
      obtain ⟨hr, hone⟩ := List.mem_filter.1 hr
      obtain ⟨r', hr', heq⟩ := List.mem_map.1 hs'
      rw [List.mem_singleton.1 (List.mem_filter.1 hr').1] at heq
      exact ha (h.gone r hr (by simpa using hone) _ t ht heq).1

theorem Good.call {it : Entry} (h : Good q done (it :: rest) now) {b : Batch} (hb : b.now = now) :
    ∃ q' t, q.handleReadCall b it rest = some q' ∧ Good q' (done ++ [it]) rest now ∧
      q'.batch = some { b with rest := rest } ∧ q'.ran = q.ran ++ [⟨now, it.timer, t⟩] ∧ t.expiration = it.expiration := by
  have hshift : done ++ [it] ++ rest = done ++ it :: rest := by simp
  obtain ⟨hle, t, ht, hexp⟩ := h.held it (by simp)
  have hnotdone : it.timer ∉ done.map Entry.timer := by
    have hnodup := (List.nodup_append.1 h.inv.nodup).1
    rw [List.map_append, List.map_cons] at hnodup
    intro hin
    exact (List.nodup_append.1 hnodup).2.2 _ hin _ List.mem_cons_self rfl
  refine ⟨{ q with batch := some { b with rest := rest }, ran := q.ran ++ [⟨now, it.timer, t⟩] }, t, ?_, ⟨?_, ?_, ?_⟩,
    rfl, rfl, hexp⟩
  · simp [handleReadCall, ht, hb]
  · rw [hshift]; exact { h.inv with }
  · rw [hshift]; exact h.held
  · rw [List.map_append]
    exact h.log.call h.inv ht (hexp ▸ hle) hnotdone

/-! ## `reset` -/

/-- The timer at `a` is deleted, or it repeats. -/
theorem Log.drop (h : Log q (a :: l))
    (ha : q'.heap a = none ∨ ∃ t t', q.heap a = some t ∧ t.repeat_ = true ∧ q'.heap a = some t' ∧ t'.sequence = t.sequence)
    (hother : ∀ b, b ≠ a → q'.heap b = q.heap b) (hran : q'.ran = q.ran) (hnum : q'.numCreated = q.numCreated) :
    Log q' l := by
  refine ⟨hran ▸ h.due, by rw [hran, hnum]; exact h.known, ?_, hran ▸ h.once⟩
  intro r hr hone b u hu hseq
  have hr' : r ∈ q.ran := hran ▸ hr
  by_cases hba : b = a
  · subst hba
    rcases ha with hnone | ⟨t, t', ht, hrep, ht', heq⟩
    · rw [hnone] at hu
      cases hu
    · rw [ht'] at hu
      cases hu
      have := (h.gone r hr' hone b t ht (heq.symm.trans hseq)).2
      rw [hrep] at this
      cases this
  · rw [hother b hba] at hu
    obtain ⟨hin, hrep⟩ := h.gone r hr' hone b u hu hseq
    exact ⟨(List.mem_cons.1 hin).resolve_left hba, hrep⟩

/-- The queue after one iteration of `reset`. -/
def resetTo (now : Int) (q : TimerQueue) (a : Nat) (t : Timer) : TimerQueue :=
  if t.repeat_ = true ∧ ⟨a, t.sequence⟩ ∉ q.cancelingTimers then
    (q.setHeap a (some (t.restart now))).inserted a (t.restart now)
  else q.setHeap a none

theorem restart_sequence (t : Timer) (now : Int) : (t.restart now).sequence = t.sequence := by
  unfold Timer.restart
  split <;> rfl

theorem Inv.restarted (h : Inv q (a :: loose)) (ht : q.heap a = some t) (now : Int) :
    Inv (q.setHeap a (some (t.restart now))) (a :: loose) := by
  refine h.setHeap (h.inactive List.mem_cons_self) _ (fun _ => h.addr ht) ?_ ?_ (fun _ => by simp)
  · rintro u ⟨⟩
    rw [restart_sequence]
    exact h.seq_le ht
  · rintro u ⟨⟩ b w hb hw heq
    exact hb (h.seq_inj hw ht (heq.trans (restart_sequence t now)))

theorem Inv.resetOne_eq (h : Inv q (e.timer :: loose)) (ht : q.heap e.timer = some t) (now : Int) :
    resetOne now q e = some (resetTo now q e.timer t) := by
  unfold resetTo
  split
  · rename_i hrep
    simp [resetOne, ht, hrep, (h.restarted ht now).insert_eq (setHeap_self _ _ _)]
  · rename_i hrep
    simp only [resetOne, ht, Option.bind_eq_bind, Option.bind_some, if_neg hrep]
    rfl

/-- It puts the timer back or deletes it. -/
theorem Inv.putBack (h : Inv q (a :: loose)) (ht : q.heap a = some t) (now : Int) : Inv (resetTo now q a t) loose := by
  unfold resetTo
  split
  · exact (h.restarted ht now).inserted (setHeap_self _ _ _)
  · exact h.delete

/-- What it leaves alone. -/
theorem resetTo_frame (now : Int) (q : TimerQueue) (a : Nat) (t : Timer) : ∃ v timers activeTimers,
    resetTo now q a t = { q.setHeap a v with timers := timers, activeTimers := activeTimers } := by
  unfold resetTo
  split
  · exact ⟨_, _, _, rfl⟩
  · exact ⟨_, _, _, rfl⟩

theorem Log.putBack (h : Log q (a :: l)) (ht : q.heap a = some t) (now : Int) : Log (resetTo now q a t) l := by
  unfold resetTo
  split
  · rename_i hrep
    exact h.drop (Or.inr ⟨t, _, ht, hrep.1, setHeap_self _ _ _, restart_sequence t now⟩) (fun b hb => setHeap_ne _ _ hb)
      rfl rfl
  · exact h.drop (Or.inl (setHeap_self _ _ _)) (fun b hb => setHeap_ne _ _ hb) rfl rfl

/-- The loop of `reset` passes its asserts, and what its iterations keep holds after it. `P q l` is about a queue of
whose batch the timers `l` are still to come. -/
theorem Inv.resetAll (now : Int) (P : TimerQueue → List Nat → Prop)
    (hstep : ∀ {q a t l}, Inv q (a :: (l ++ loose)) → q.heap a = some t → P q (a :: l) → P (resetTo now q a t) l) :
    ∀ (es : List Entry) {q : TimerQueue}, Inv q (es.map Entry.timer ++ loose) → P q (es.map Entry.timer) →
      ∃ q', es.foldlM (resetOne now) q = some q' ∧ Inv q' loose ∧ P q' []
  | [], q, h, hP => ⟨q, rfl, h, hP⟩
  | e :: es, q, h, hP => by
    obtain ⟨t, ht⟩ := h.live List.mem_cons_self
    obtain ⟨q', hq', hinv, hP'⟩ := Inv.resetAll now P hstep es (h.putBack ht now) (hstep h ht hP)
    refine ⟨q', ?_, hinv, hP'⟩
    simp only [List.foldlM_cons, h.resetOne_eq ht now, Option.bind_eq_bind, Option.bind_some]
    exact hq'

/-- The end of `reset`: arm the descriptor for the next timer. -/
def rearmed (q : TimerQueue) : TimerQueue := match q.timers.elems.head? with
  | none => q
  | some it => if 0 < it.expiration then q.resetTimerfd it.expiration else q

theorem rearmed_eq (q : TimerQueue) : q.rearmed =
    { q with timerfd := q.rearmed.timerfd, readable := q.rearmed.readable, lastReset := q.rearmed.lastReset } := by
  unfold rearmed
  split
  · rfl
  · split <;> rfl

theorem Inv.reset_eq {es : List Entry} {now : Int} (h : es.foldlM (resetOne now) q = some q') (hinv : Inv q' loose) :
    q.reset es now = some q'.rearmed := by
  unfold rearmed
  split
  · rename_i hhead
    simp [reset, h, hhead]
  · rename_i it hhead
    obtain ⟨t, ht, hexp, _⟩ := hinv.entry (OrdSet.mem_def.2 (List.mem_of_mem_head? hhead))
    split <;> rename_i hvalid <;> simp [reset, h, hhead, ht, hexp, hvalid]

/-- The queue when the callbacks of a batch have returned. -/
def returned (q : TimerQueue) : TimerQueue := { q with callingExpiredTimers := false, batch := none }

/-- What `reset` finds. -/
theorem Good.returned (h : Good q done [] now) : Inv q.returned (done.map Entry.timer ++ q.queued) := by
  have hinv := h.inv
  rw [List.append_nil] at hinv
  exact { hinv with }

theorem Good.leave (h : Good q done [] now) {b : Batch} (hb : b.expired = done) : ∃ q', q.handleReadLeave b = some q' ∧
    (∀ n, Good q' [] [] n) ∧ q'.batch = none ∧ q'.ran = q.ran := by
  obtain ⟨q1, hq1, h1, hlog, hqueued, hbatch, hran⟩ := Inv.resetAll b.now
    (fun q' l => Log q' l ∧ q'.queued = q.queued ∧ q'.batch = none ∧ q'.ran = q.ran)
    (by
      rintro q1 a t l _ ht ⟨hlog, hqueued, hbatch, hran⟩
      refine ⟨hlog.putBack ht b.now, ?_⟩
      obtain ⟨_, _, _, heq⟩ := resetTo_frame b.now q1 a t
      rw [heq]
      exact ⟨hqueued, hbatch, hran⟩)
    done h.returned ⟨{ h.log with }, rfl, rfl, rfl⟩
  subst hb
  refine ⟨q1.rearmed, Inv.reset_eq hq1 h1, ?_⟩
  rw [rearmed_eq]
  refine ⟨fun n => ⟨?_, by simp, { hlog with }⟩, hbatch, hran⟩
  simp only [hqueued]
  exact { h1 with }

/-! ## Every run -/

/-- The invariant of a run. -/
def Ok (q : TimerQueue) : Prop := match q.batch with
  | none => ∀ n, Good q [] [] n
  | some b => ∃ done, b.expired = done ++ b.rest ∧ Good q done b.rest b.now

theorem Ok.idle (h : Ok q) (hb : q.batch = none) (n : Int) : Good q [] [] n := by
  rw [Ok, hb] at h
  exact h n

theorem Ok.running {b : Batch} (h : Ok q) (hb : q.batch = some b) :
    ∃ done, b.expired = done ++ b.rest ∧ Good q done b.rest b.now := by
  rw [Ok, hb] at h
  exact h

theorem Ok.matches (h : Ok q) : q.Matches := by
  cases hb : q.batch with
  | none => exact (h.idle hb 0).inv.matches
  | some b =>
    obtain ⟨_, _, hgood⟩ := h.running hb
    exact hgood.inv.matches

theorem Ok.log (h : Ok q) : ∃ l, Log q l := by
  cases hb : q.batch with
  | none => exact ⟨_, (h.idle hb 0).log⟩
  | some b =>
    obtain ⟨_, _, hgood⟩ := h.running hb
    exact ⟨_, hgood.log⟩

theorem Ok.init (clock : Int) : Ok (init clock) := by
  intro n
  refine ⟨⟨?_, ?_, ?_, ?_, ?_, ?_, ?_, ?_⟩, ?_, ⟨?_, ?_, ?_, ?_⟩⟩ <;> simp [TimerQueue.init]

theorem Ok.inner (h : Ok q) {e : Event} (hi : e.Inner) (hl : e.Legal q) : ∃ q', q.step e = some q' ∧ Ok q' ∧
    q'.batch = q.batch ∧ q'.ran = q.ran := by
  cases hb : q.batch with
  | none =>
    obtain ⟨q', hq', hgood, hbatch, hran⟩ := (h.idle hb 0).inner hi hl
    refine ⟨q', hq', ?_, hbatch.trans hb, hran⟩
    rw [Ok, hbatch, hb]
    exact fun n => ⟨hgood.inv, by simp, hgood.log⟩
  | some b =>
    obtain ⟨done, hdone, hgood⟩ := h.running hb
    obtain ⟨q', hq', hgood', hbatch, hran⟩ := hgood.inner hi hl
    refine ⟨q', hq', ?_, hbatch.trans hb, hran⟩
    rw [Ok, hbatch, hb]
    exact ⟨done, hdone, hgood'⟩

theorem Ok.enter (h : Ok q) (hb : q.batch = none) : ∃ q', q.step .handleRead = some q' ∧ Ok q' ∧
    q'.batch = some ⟨q.clock, q.due q.clock, q.due q.clock⟩ ∧ q'.ran = q.ran := by
  have hgood := h.idle hb q.clock
  obtain ⟨s, hs, hmem⟩ := hgood.inv.handleReadEnter
  exact ⟨q.entered s, hs, ⟨[], rfl, hgood.enter hmem⟩, rfl, rfl⟩

variable {ex : List Entry}

/-- A callback of a batch at `it`: the timer runs with the expiration of its entry. -/
theorem Ok.call (h : Ok q) {n : Int} {it : Entry} (hb : q.batch = some ⟨n, ex, it :: rest⟩) :
    ∃ q' t, q.step .callback = some q' ∧ Ok q' ∧ q'.batch = some ⟨n, ex, rest⟩ ∧
      q'.ran = q.ran ++ [⟨n, it.timer, t⟩] ∧ t.expiration = it.expiration := by
  obtain ⟨done, hdone, hgood⟩ := h.running hb
  obtain ⟨q', t, hq', hgood', hbatch, hran, hexp⟩ := Good.call hgood (b := ⟨n, ex, it :: rest⟩) rfl
  refine ⟨q', t, ?_, ?_, hbatch, hran, hexp⟩
  · simp only [step, hb]
    exact hq'
  · rw [Ok, hbatch]
    exact ⟨done ++ [it], by simpa using hdone, hgood'⟩

theorem Ok.leave (h : Ok q) {n : Int} (hb : q.batch = some ⟨n, ex, []⟩) :
    ∃ q', q.step .finish = some q' ∧ Ok q' ∧ q'.batch = none ∧ q'.ran = q.ran := by
  obtain ⟨done, hdone, hgood⟩ := h.running hb
  obtain ⟨q', hq', hgood', hbatch, hran⟩ := Good.leave hgood (b := ⟨n, ex, []⟩) (by simpa using hdone)
  refine ⟨q', ?_, ?_, hbatch, hran⟩
  · simp only [step, hb]
    exact hq'
  · rw [Ok, hbatch]
    exact hgood'

/-- **One event.** Whatever can happen, happens without a failed assert or an access to a deleted
timer, and keeps the invariant. -/
theorem Ok.step (h : Ok q) {e : Event} (hl : e.Legal q) : ∃ q', q.step e = some q' ∧ Ok q' := by
  by_cases hi : e.Inner
  · obtain ⟨q', hq', hok, _⟩ := h.inner hi hl
    exact ⟨q', hq', hok⟩
  · cases e with
    | handleRead =>
      obtain ⟨q', hq', hok, _⟩ := h.enter hl
      exact ⟨q', hq', hok⟩
    | callback =>
      obtain ⟨⟨n, ex, rest⟩, hb, hrest⟩ := hl
      cases rest with
      | nil => exact absurd rfl hrest
      | cons it rest =>
        obtain ⟨q', _, hq', hok, _⟩ := h.call hb
        exact ⟨q', hq', hok⟩
    | finish =>
      obtain ⟨⟨n, ex, rest⟩, hb, rfl⟩ := hl
      obtain ⟨q', hq', hok, _⟩ := h.leave hb
      exact ⟨q', hq', hok⟩
    | _ => exact absurd ⟨by simp, by simp, by simp⟩ hi

theorem Ok.steps {es : List Event} (h : Ok q) (hs : Steps q es q') : Ok q' := by
  refine hs.invariant Ok ?_ h
  intro q e q' hok hl hstep
  obtain ⟨q1, hq1, hok'⟩ := hok.step hl
  rw [hstep] at hq1
  cases hq1
  exact hok'

/-! ## What each event does -/

/-- The queue after `addTimer`. -/
def created (q : TimerQueue) (a : Nat) (when interval : Int) (repeat_ : Bool) : TimerQueue :=
  ({ q with numCreated := q.numCreated + 1, queued := q.queued ++ [a] }).setHeap a
    (some ⟨when, interval, repeat_, q.numCreated + 1⟩)

/-- The events of a run, each with what it finds and what it leaves. -/
inductive Effect (q : TimerQueue) : Event → TimerQueue → Prop
  | newTimer {a : Nat} {w i : Int} {r : Bool} : q.heap a = none → Effect q (.newTimer a w i r) (q.created a w i r)
  | addTimerInLoop {a : Nat} {t : Timer} : a ∈ q.queued → q.heap a = some t →
      Effect q (.addTimerInLoop a) (({ q with queued := q.queued.erase a }).added a t)
  | cancelled {x : ActiveTimer} {t : Timer} : x ∈ q.activeTimers → q.heap x.timer = some t → t.sequence = x.sequence →
      Effect q (.cancelInLoop x) (q.cancelled x t)
  | canceling {x : ActiveTimer} : x ∉ q.activeTimers → q.callingExpiredTimers = true →
      Effect q (.cancelInLoop x) { q with cancelingTimers := q.cancelingTimers.insert x }
  | ignored {x : ActiveTimer} : x ∉ q.activeTimers → q.callingExpiredTimers = false → Effect q (.cancelInLoop x) q
  | setClock {clock : Int} : Effect q (.setClock clock) { q with clock := clock }
  | expire : q.timerfd ≠ none → Effect q .expire { q with readable := true }
  | handleRead {s : OrdSet ActiveTimer} : q.batch = none →
      (∀ x, x ∈ s ↔ x ∈ q.activeTimers ∧ x.timer ∉ (q.due q.clock).map Entry.timer) → Effect q .handleRead (q.entered s)
  | callback {n : Int} {ex rest : List Entry} {it : Entry} {t : Timer} : q.batch = some ⟨n, ex, it :: rest⟩ →
      q.heap it.timer = some t → t.expiration = it.expiration →
      Effect q .callback { q with batch := some ⟨n, ex, rest⟩, ran := q.ran ++ [⟨n, it.timer, t⟩] }
  | finish {n : Int} {ex : List Entry} {q1 : TimerQueue} : q.batch = some ⟨n, ex, []⟩ →
      ex.foldlM (resetOne n) q.returned = some q1 → Inv q1 q.queued → Effect q .finish q1.rearmed

/-- The batch a running `handleRead` has taken out. -/
def expired (q : TimerQueue) : List Entry := (q.batch.map Batch.expired).getD []

theorem Ok.inv (h : Ok q) : Inv q (q.expired.map Entry.timer ++ q.queued) := by
  cases hb : q.batch with
  | none =>
    rw [expired, hb]
    exact (h.idle hb 0).inv
  | some b =>
    obtain ⟨done, hdone, hgood⟩ := h.running hb
    rw [expired, hb, Option.map_some, Option.getD_some, hdone]
    exact hgood.inv

theorem Ok.effect (h : Ok q) {e : Event} (hl : e.Legal q) (hs : q.step e = some q') : q.Effect e q' := by
  cases e with
  | newTimer a w i r =>
    cases hs
    exact .newTimer hl.1
  | addTimerInLoop a =>
    have hperm := ((List.perm_cons_erase hl).append_left (q.expired.map Entry.timer)).trans List.perm_middle
    have hinv : Inv { q with queued := q.queued.erase a } (a :: (q.expired.map Entry.timer ++ q.queued.erase a)) :=
      { h.inv.perm hperm with }
    obtain ⟨t, ht⟩ := hinv.live List.mem_cons_self
    cases (hinv.addTimerInLoop_eq ht).symm.trans hs
    exact .addTimerInLoop hl ht
  | cancelInLoop x =>
    by_cases hx : x ∈ q.activeTimers
    · obtain ⟨t, ht, hseq, _⟩ := h.inv.active hx
      cases (h.inv.cancelInLoop_active hx ht).symm.trans hs
      exact .cancelled hx ht hseq
    · cases (h.inv.cancelInLoop_inactive hx).symm.trans hs
      split
      · rename_i hcall
        exact .canceling hx hcall
      · rename_i hcall
        exact .ignored hx (eq_false_of_ne_true hcall)
  | setClock c =>
    cases hs
    exact .setClock
  | expire =>
    cases hs
    exact .expire hl
  | handleRead =>
    obtain ⟨s, hs', hmem⟩ := h.inv.handleReadEnter
    cases hs'.symm.trans hs
    exact .handleRead hl hmem
  | callback =>
    obtain ⟨⟨n, ex, rest⟩, hb, hrest⟩ := hl
    replace hb : q.batch = some _ := hb
    cases rest with
    | nil => exact absurd rfl hrest
    | cons it rest =>
      obtain ⟨done, _, hgood⟩ := h.running hb
      obtain ⟨_, t, ht, hexp⟩ := hgood.held it (by simp)
      simp only [TimerQueue.step, hb, handleReadCall, ht, Option.bind_eq_bind, Option.bind_some] at hs
      cases hs
      exact .callback hb ht hexp
  | finish =>
    obtain ⟨⟨n, ex, rest⟩, hb, hrest⟩ := hl
    replace hb : q.batch = some _ := hb
    cases hrest
    obtain ⟨done, hdone, hgood⟩ := h.running hb
    have hdone' : ex = done := by simpa using hdone
    subst hdone'
    obtain ⟨q1, hq1, hinv, _⟩ := Inv.resetAll n (fun _ _ => True) (fun _ _ h => h) ex hgood.returned trivial
    simp only [TimerQueue.step, hb] at hs
    cases (Inv.reset_eq hq1 hinv).symm.trans hs
    exact .finish hb hq1 hinv

/-- What the iterations of `reset` keep, from the end of a batch. -/
theorem Ok.resetAll {n : Int} {q1 : TimerQueue} (h : Ok q) (hb : q.batch = some ⟨n, ex, []⟩)
    (hq1 : ex.foldlM (resetOne n) q.returned = some q1) (P : TimerQueue → List Nat → Prop)
    (hstep : ∀ {q' a t l}, Inv q' (a :: (l ++ q.queued)) → q'.heap a = some t → P q' (a :: l) → P (resetTo n q' a t) l)
    (hP : P q.returned (ex.map Entry.timer)) : P q1 [] := by
  obtain ⟨done, hdone, hgood⟩ := h.running hb
  have hdone' : ex = done := by simpa using hdone
  subst hdone'
  obtain ⟨q2, hq2, _, hP2⟩ := Inv.resetAll n P hstep ex hgood.returned hP
  cases hq1.symm.trans hq2
  exact hP2

/-- The entry a call was made for. -/
def runEntry (r : Ran) : Entry := ⟨r.timer.expiration, r.addr⟩

/-- While the callbacks run, whatever they do, the record grows by the batch in its order. -/
theorem Ok.batch {es : List Event} {n : Int} (h : Ok q) (hs : Steps q es q')
    (hin : ∀ e ∈ es, e ≠ .handleRead ∧ e ≠ .finish) (hb : q.batch = some ⟨n, ex, rest⟩) :
    ∃ log rest', q'.batch = some ⟨n, ex, rest'⟩ ∧ q'.ran = q.ran ++ log ∧ log.map runEntry ++ rest' = rest ∧
      ∀ r ∈ log, r.now = n := by
  induction hs generalizing rest with
  | nil => exact ⟨[], rest, hb, by simp, by simp, by simp⟩
  | @cons q q1 q2 e es hl hstep _ ih =>
    obtain ⟨q1', hq1, hok⟩ := h.step hl
    rw [hstep] at hq1
    cases hq1
    have hes : ∀ e ∈ es, e ≠ .handleRead ∧ e ≠ .finish := fun e he => hin e (List.mem_cons_of_mem _ he)
    by_cases hcall : e = .callback
    · subst hcall
      cases rest with
      | nil =>
        obtain ⟨b, hb', hne⟩ := hl
        rw [hb] at hb'
        cases hb'
        exact absurd rfl hne
      | cons it rest =>
        obtain ⟨q1', t, hq1', _, hbatch, hran, hexp⟩ := h.call hb
        rw [hstep] at hq1'
        cases hq1'
        obtain ⟨log, rest', hbatch', hran', hlog, hnow⟩ := ih hok hes hbatch
        refine ⟨⟨n, it.timer, t⟩ :: log, rest', hbatch', by simp [hran', hran], ?_, ?_⟩
        · rw [List.map_cons, List.cons_append, hlog, runEntry, hexp]
        · intro r hr
          rcases List.mem_cons.1 hr with rfl | hr
          · rfl
          · exact hnow r hr
    · obtain ⟨hne, hne'⟩ := hin e List.mem_cons_self
      obtain ⟨q1', hq1', _, hbatch, hran⟩ := h.inner ⟨hne, hcall, hne'⟩ hl
      rw [hstep] at hq1'
      cases hq1'
      obtain ⟨log, rest', hbatch', hran', hlog, hnow⟩ := ih hok hes (hbatch.trans hb)
      exact ⟨log, rest', hbatch', by rw [hran', hran], hlog, hnow⟩

/-- **The timer queue is consistent and fires what is due.** In every state any events lead to, also
in the middle of a callback: the two tables match and nothing that can happen fails an assert; no
timer has run before its expiration, and no one-shot timer twice. A call of `handleRead` runs the
timers whose expiration is not after its `now`, in the order of their expiration: after any events of
its callbacks the calls made and the ones still to come are these, and it returns when none is left. -/
theorem timer_queue_consistent {clock : Int} {es : List Event} (h : Steps (init clock) es q) :
    q.Matches ∧
    (∀ e : Event, e.Legal q → ∃ q', q.step e = some q') ∧
    (∀ r ∈ q.ran, r.timer.expiration ≤ r.now) ∧
    ((q.ran.filter fun r => !r.timer.repeat_).map fun r => r.timer.sequence).Nodup ∧
    (∀ es' q', q.batch = none → Steps q (.handleRead :: es') q' → (∀ e ∈ es', e ≠ .handleRead ∧ e ≠ .finish) →
      ∃ log rest, q'.batch = some ⟨q.clock, q.due q.clock, rest⟩ ∧ q'.ran = q.ran ++ log ∧
        log.map runEntry ++ rest = q.due q.clock ∧ (∀ r ∈ log, r.now = q.clock) ∧
        (Event.finish.Legal q' ↔ rest = []) ∧
        (∀ q'', q'.step .finish = some q'' → rest = [] → q''.batch = none ∧ q''.ran = q.ran ++ log)) ∧
    (∀ now e, e ∈ q.due now ↔ e ∈ q.timers ∧ e.expiration ≤ now) ∧
    (∀ now, (q.due now).Pairwise fun a b => a.expiration ≤ b.expiration) := by
  have hok := (Ok.init clock).steps h
  obtain ⟨l, hlog⟩ := hok.log
  refine ⟨hok.matches, fun e hl => ?_, hlog.due, hlog.once, ?_, fun _ _ => mem_due, due_sorted q⟩
  · obtain ⟨q', hq', _⟩ := hok.step hl
    exact ⟨q', hq'⟩
  · rintro es' q' hb (_ | ⟨hl, hstep, hs⟩) hin
    obtain ⟨q1, hq1, hok1, hbatch, hran⟩ := hok.enter hb
    rw [hstep] at hq1
    cases hq1
    obtain ⟨log, rest, hbatch', hran', hlog', hnow⟩ := hok1.batch hs hin hbatch
    refine ⟨log, rest, hbatch', by rw [hran', hran], hlog', hnow, ?_, ?_⟩
    · simp [Event.Legal, hbatch']
    · rintro q'' hq'' rfl
      obtain ⟨q2, hq2, _, hbatch2, hran2⟩ := (hok1.steps hs).leave hbatch'
      rw [hq''] at hq2
      cases hq2
      exact ⟨hbatch2, by rw [hran2, hran', hran]⟩

/-- A one-shot and a repeating timer; the one-shot timer's callback, which runs second, cancels the other. -/
theorem timer_queue_consistent_cancel : ∃ q, Steps (init 0) [.newTimer 16 5 0 false, .addTimerInLoop 16,
      .newTimer 32 3 10 true, .addTimerInLoop 32, .setClock 10, .handleRead, .callback, .callback,
      .cancelInLoop ⟨32, 2⟩, .finish] q ∧
    q.Matches ∧ q.ran.map runEntry = [⟨3, 32⟩, ⟨5, 16⟩] ∧ q.timers.elems = [] ∧ q.heap 32 = none :=
  have h := Run.of_exec _ _ (by decide +kernel)
  ⟨_, h, (timer_queue_consistent h).1, rfl, rfl, rfl⟩

end
end TimerQueue
end ChatReactor
