import ChatReactor.TcpConnectionProofs

/-!
# How often a connection is closed

`handleClose` leaves `state_` as it was, and only `connectDestroyed` makes it `kDisconnected`. In between
every further trigger is let through: a second `forceCloseInLoop` that is already queued, an end of file
while one is queued, a `forceClose` before the server has queued `connectDestroyed`. `Careful` excludes
these; then a connection goes through the phases of `Once` and is closed and destroyed once.
-/

namespace ChatReactor
namespace World
open TcpConnection

/-- A `forceCloseInLoop` is queued, or a thread is about to queue it. -/
def ClosePending (w : World) : Prop :=
  .forceCloseInLoop ∈ w.queue.all ∨ ∃ t, w.half t = some .forceCloseInLoop

/-- The next callback of the channel calls `handleClose`. -/
def Closes (w : World) (n : Int) : Prop := ∃ k todo, w.todo = k :: todo ∧ (k = .close ∨ k = .read ∧ n = 0)

/-- An end of file or a `POLLHUP` is handled only if `handleClose` has not run and no
`forceCloseInLoop` is pending; `forceClose()` is called only then, or when the server has already queued
`connectDestroyed`, or without effect. -/
def Careful (w : World) : Event → Prop
  | .forceClose _ => w.conn.isOpen → w.closeCalls = 0 ∧ ¬ w.ClosePending ∨ .connectDestroyed ∈ w.queue.all
  | .callback n _ => w.Closes n → w.closeCalls = 0 ∧ ¬ w.ClosePending
  | _ => True

/-! ## The phases -/

/-- At most one closing functor is pending. -/
def One (w : World) : Prop :=
  specials w.queue = [] ∧ (∀ t t', w.half t = some .forceCloseInLoop → w.half t' = some .forceCloseInLoop → t = t') ∨
  specials w.queue = [.forceCloseInLoop] ∧ ∀ t, w.half t ≠ some .forceCloseInLoop

/-- What holds from `handleClose` on. -/
structure Closed (w : World) : Prop where
  wf : w.conn.outputBuffer.WF
  closeCalls : w.closeCalls = 1
  half : ∀ t f, w.half t = some f → special f = true → f = .forceCloseInLoop

/-- The server's loop has still to run `removeConnectionInLoop`. -/
structure Closing (w : World) : Prop extends Closed w where
  isOpen : w.conn.isOpen
  slot : ∃ b, w.conn.slot = some b
  specials : specials w.queue = []
  noHalf : ∀ t, w.half t ≠ some .forceCloseInLoop
  destroyed : w.destroyed = 0
  inMap : w.inMap = true
  removals : w.removals = 1

/-- `connectDestroyed` is queued, in front of any closing functor. -/
structure Leaving (w : World) : Prop extends Closed w where
  isOpen : w.conn.isOpen
  slot : ∃ b, w.conn.slot = some b
  specials : ∃ l, specials w.queue = .connectDestroyed :: l ∧ ∀ f ∈ l, f = .forceCloseInLoop
  destroyed : w.destroyed = 0
  removals : w.removals = 0

/-- `connectDestroyed` has run. -/
structure Down (w : World) : Prop extends Closed w where
  state : w.conn.state = .kDisconnected
  specials : ∀ f ∈ specials w.queue, f = .forceCloseInLoop
  destroyed : w.destroyed = 1
  removals : w.removals = 0

def Once (w : World) : Prop := Alive w ∧ (Connecting w ∨ Up w ∧ One w) ∨ Closing w ∨ Leaving w ∨ Down w

section
variable {w w' : World} {e : Event}

theorem mem_specials {f : LoopFunctor} (hf : special f = true) : f ∈ specials w.queue ↔ f ∈ w.queue.all := by
  simp [specials, hf]

theorem Quiet.half_close (h : Quiet w w') (t : Nat) :
    w'.half t = some .forceCloseInLoop ↔ w.half t = some .forceCloseInLoop := h.half t _ rfl

theorem One.quiet (h : One w) (hq : Quiet w w') : One w' := by
  simp only [One, hq.specials, hq.half_close, ne_eq]
  exact h

theorem Closed.quiet (h : Closed w) (hq : Quiet w w') : Closed w' where
  wf := hq.wf
  closeCalls := hq.closeCalls.trans h.closeCalls
  half t f hf hs := h.half t f ((hq.half t f hs).1 hf) hs

theorem Quiet.slot_some (h : Quiet w w') (hs : ∃ b, w.conn.slot = some b) : ∃ b, w'.conn.slot = some b := by
  obtain ⟨b, hb⟩ := hs
  obtain ⟨b', hb', _⟩ := h.slot b hb
  exact ⟨b', hb'⟩

/-- Calm events keep the phase. -/
theorem Once.calm (h : Once w) (hl : e.Legal w) (hc : w.Calm e) : ∃ w', w.step e = some w' ∧ Once w' := by
  rcases h with ⟨halive, hcon | ⟨hup, hone⟩⟩ | hclosing | hleaving | hdown
  · rcases hcon.step hl with ⟨w', hw', heq, hcon'⟩ | rfl | ⟨r, batch, rfl, hb⟩
    · refine ⟨w', hw', Or.inl ⟨?_, Or.inl hcon'⟩⟩
      rcases heq with rfl | rfl
      · exact halive
      · exact { halive with phase := Or.inl hcon' }
    · exact absurd hc id
    · cases hc _ _ hb
  · obtain ⟨w', hw', hq, _⟩ := step_calm halive.wf hl hc
    have hup' := hup.quiet hq
    exact ⟨w', hw', Or.inl ⟨halive.quiet hq (Or.inr hup'), Or.inr ⟨hup', hone.quiet hq⟩⟩⟩
  · obtain ⟨w', hw', hq, _⟩ := step_calm hclosing.wf hl hc
    exact ⟨w', hw', Or.inr (Or.inl
      { hclosing.toClosed.quiet hq with
        isOpen := hq.isOpen hclosing.isOpen
        slot := hq.slot_some hclosing.slot
        specials := hq.specials.trans hclosing.specials
        noHalf := fun t ht => hclosing.noHalf t ((hq.half_close t).1 ht)
        destroyed := hq.destroyed.trans hclosing.destroyed
        inMap := hq.inMap.trans hclosing.inMap
        removals := hq.removals.trans hclosing.removals })⟩
  · obtain ⟨w', hw', hq, _⟩ := step_calm hleaving.wf hl hc
    exact ⟨w', hw', Or.inr (Or.inr (Or.inl
      { hleaving.toClosed.quiet hq with
        isOpen := hq.isOpen hleaving.isOpen
        slot := hq.slot_some hleaving.slot
        specials := hq.specials ▸ hleaving.specials
        destroyed := hq.destroyed.trans hleaving.destroyed
        removals := hq.removals.trans hleaving.removals }))⟩
  · obtain ⟨w', hw', hq, _⟩ := step_calm hdown.wf hl hc
    have hnot : ¬ w.conn.isOpen := by simp [TcpConnection.isOpen, hdown.state]
    exact ⟨w', hw', Or.inr (Or.inr (Or.inr
      { hdown.toClosed.quiet hq with
        state := (hq.state.resolve_right fun ho => hnot ho.1).trans hdown.state
        specials := hq.specials ▸ hdown.specials
        destroyed := hq.destroyed.trans hdown.destroyed
        removals := hq.removals.trans hdown.removals }))⟩

/-! ## The special events -/

/-- `handleClose` with nothing else pending: the server removes the connection, or is asked to. -/
theorem Alive.close (h : Alive w) (hup : Up w) (hsp : specials w.queue = []) (hhalf : ∀ t, w.half t ≠ some .forceCloseInLoop) :
    ∃ w', w.handleClose = some w' ∧ Once w' := by
  obtain ⟨w', hw'⟩ := handleClose_total hup.isOpen h.inMap
  refine ⟨w', hw', ?_⟩
  have hclosed : ∀ q m n, Closed { w with
      conn := w.conn.disableAll, closeCalls := w.closeCalls + 1, queue := q, inMap := m, removals := n } :=
    fun _ _ _ => ⟨h.wf, congrArg (· + 1) h.closeCalls, h.half⟩
  obtain ⟨b, hb⟩ := hup.slot
  obtain ⟨b', hb', _⟩ := (Keeps.update w.conn (Poller.Call.disableAll.events w.conn.events)).slot b hb
  obtain ⟨_, ⟨_, _, rfl⟩ | ⟨hloop, rfl⟩⟩ := handleClose_eq hw'
  · have hspec : specials (w.queue.push .connectDestroyed) = [.connectDestroyed] := by
      rw [specials_push, hsp]; rfl
    exact Or.inr (Or.inr (Or.inl
      { hclosed _ _ _ with
        isOpen := hup.isOpen, slot := ⟨b', hb'⟩, specials := ⟨[], hspec, by simp⟩, destroyed := h.destroyed
        removals := h.removals }))
  · exact Or.inr (Or.inl
      { hclosed _ _ _ with
        isOpen := hup.isOpen, slot := ⟨b', hb'⟩, specials := hsp, noHalf := hhalf, destroyed := h.destroyed
        inMap := h.inMap, removals := congrArg (· + 1) h.removals })

theorem not_pending (h : ¬ w.ClosePending) (hup : Up w) : specials w.queue = [] ∧ ∀ t, w.half t ≠ some .forceCloseInLoop := by
  refine ⟨List.eq_nil_iff_forall_not_mem.2 fun f hf => ?_, fun t ht => h (Or.inr ⟨t, ht⟩)⟩
  have hfc := hup.specials f hf
  subst hfc
  exact h (Or.inl ((mem_specials rfl).1 hf))

/-- Behind `connectDestroyed` any number of closing functors may be queued. -/
theorem leaving_push (h : ∃ l, specials w.queue = .connectDestroyed :: l ∧ ∀ f ∈ l, f = .forceCloseInLoop) :
    ∃ l, specials (w.queue.push .forceCloseInLoop) = .connectDestroyed :: l ∧
      ∀ f ∈ l, f = .forceCloseInLoop := by
  obtain ⟨l, hspec, hl⟩ := h
  refine ⟨l ++ [.forceCloseInLoop], by rw [specials_push, hspec]; rfl, fun f hf => ?_⟩
  rcases List.mem_append.1 hf with hf | hf
  · exact hl f hf
  · exact List.mem_singleton.1 hf

theorem Once.half_special (h : Once w) {t : Nat} {f : LoopFunctor} (hf : w.half t = some f) (hs : special f = true) :
    f = .forceCloseInLoop := by
  rcases h with ⟨halive, _⟩ | hclosing | hleaving | hdown
  · exact halive.half t f hf hs
  · exact hclosing.half t f hf hs
  · exact hleaving.half t f hf hs
  · exact hdown.half t f hf hs

/-- An effective `forceClose()`: with nothing pending, or behind `connectDestroyed`. -/
theorem Once.forceClose (h : Once w) {t : Nat} (hopen : w.conn.isOpen) (hcare : w.Careful (.forceClose t)) :
    Once (w.forceClose t) := by
  rcases h with ⟨halive, hcon | ⟨hup, hone⟩⟩ | hclosing | hleaving | hdown
  · exact absurd hopen (by simp [TcpConnection.isOpen, hcon.state])
  · rcases hcare hopen with ⟨_, hpend⟩ | hcd
    · obtain ⟨hsp, hhalf⟩ := not_pending hpend hup
      obtain ⟨halive', hup', _⟩ := halive.forceClose hup t
      refine Or.inl ⟨halive', Or.inr ⟨hup', ?_⟩⟩
      simp only [World.forceClose, if_pos hopen]
      split
      · refine Or.inr ⟨?_, hhalf⟩
        have := specials_push w .forceCloseInLoop
        rw [hsp] at this
        exact this
      · refine Or.inl ⟨hsp, fun t1 t2 h1 h2 => ?_⟩
        have honly : ∀ t', Function.update w.half t (some .forceCloseInLoop) t' = some .forceCloseInLoop → t' = t := by
          intro t' ht'
          by_contra hne
          rw [Function.update_of_ne hne] at ht'
          exact hhalf t' ht'
        rw [honly t1 h1, honly t2 h2]
    · cases hup.specials _ ((mem_specials rfl).2 hcd)
  · rcases hcare hopen with ⟨hzero, _⟩ | hcd
    · rw [hclosing.closeCalls] at hzero
      cases hzero
    · have := (mem_specials rfl).2 hcd
      rw [hclosing.specials] at this
      cases this
  · refine Or.inr (Or.inr (Or.inl ?_))
    simp only [World.forceClose, if_pos hopen]
    split
    · exact { hleaving with isOpen := Or.inr rfl, specials := leaving_push hleaving.specials }
    · refine { hleaving with isOpen := Or.inr rfl, half := fun t' f hf hs => ?_ }
      rcases half_begun hf with heq | hf
      · exact heq
      · exact hleaving.half t' f hf hs
  · exact absurd hopen (by simp [TcpConnection.isOpen, hdown.state])

/-- A thread pushes its closing functor. -/
theorem Once.push (h : Once w) {t : Nat} (hf : w.half t = some .forceCloseInLoop) :
    Once { w with half := Function.update w.half t none, queue := w.queue.push .forceCloseInLoop } := by
  have hpush : specials (w.queue.push .forceCloseInLoop) = specials w.queue ++ [.forceCloseInLoop] :=
    specials_push w _
  have hclosed : Closed w → Closed { w with half := Function.update w.half t none, queue := w.queue.push .forceCloseInLoop } := by
    exact fun hc => ⟨hc.wf, hc.closeCalls, fun t' f hf' hs => hc.half t' f (half_pushed hf').2 hs⟩
  rcases h with ⟨halive, hcon | ⟨hup, hone⟩⟩ | hclosing | hleaving | hdown
  · rw [hcon.half t] at hf
    cases hf
  · have halive' := halive.push hup t
    rcases hone with ⟨hsp, honly⟩ | ⟨_, hhalf⟩
    · rw [hsp] at hpush
      refine Or.inl ⟨halive', Or.inr ⟨⟨hup.isOpen, hup.slot, hup.specials_push⟩, Or.inr ⟨hpush, fun t' ht' => ?_⟩⟩⟩
      obtain ⟨htt, ht'⟩ := half_pushed ht'
      exact htt (honly t' t ht' hf)
    · exact absurd hf (hhalf t)
  · exact absurd hf (hclosing.noHalf t)
  · exact Or.inr (Or.inr (Or.inl
      { hclosed hleaving.toClosed with
        isOpen := hleaving.isOpen, slot := hleaving.slot, specials := leaving_push hleaving.specials
        destroyed := hleaving.destroyed, removals := hleaving.removals }))
  · refine Or.inr (Or.inr (Or.inr
      { hclosed hdown.toClosed with
        state := hdown.state, specials := fun f hf' => ?_, destroyed := hdown.destroyed, removals := hdown.removals }))
    rw [hpush] at hf'
    rcases List.mem_append.1 hf' with hf' | hf'
    · exact hdown.specials f hf'
    · exact List.mem_singleton.1 hf'

/-- A close callback or an end of file, the first one and with nothing pending. -/
theorem Once.close (h : Once w) {k : Callback} {todo : List Callback} (htodo : w.todo = k :: todo)
    (hzero : w.closeCalls = 0) (hpend : ¬ w.ClosePending) :
    ∃ w', ({ w with todo := todo } : World).handleClose = some w' ∧ Once w' := by
  rcases h with ⟨halive, hcon | ⟨hup, _⟩⟩ | hclosing | hleaving | hdown
  · rw [hcon.todo] at htodo
    cases htodo
  · obtain ⟨hsp, hhalf⟩ := not_pending hpend hup
    have hup' : Up { w with todo := todo } := { hup with }
    exact Alive.close (w := { w with todo := todo }) { halive with phase := Or.inr hup' } hup' hsp hhalf
  · cases hclosing.closeCalls.symm.trans hzero
  · cases hleaving.closeCalls.symm.trans hzero
  · cases hdown.closeCalls.symm.trans hzero

variable {batch : List LoopFunctor}

theorem Leaving.destroyed' (h : Leaving w) (hb : w.queue.batch = .connectDestroyed :: batch) :
    ∃ w', ({ w with queue := { w.queue with batch := batch } } : World).connectDestroyed = some w' ∧ Down w' := by
  obtain ⟨l, hspec, hl⟩ := h.specials
  obtain ⟨b, hb'⟩ := h.slot
  have hopen := h.isOpen
  rw [specials_batch hb] at hspec
  have hrest := (List.cons.inj hspec).2
  have heq : ({ w with queue := { w.queue with batch := batch } } : World).connectDestroyed = some { w with
      queue := { w.queue with batch := batch }, destroyed := w.destroyed + 1,
      conn := { w.conn with state := .kDisconnected, events := kNoneEvent, slot := none } } := by
    simp [connectDestroyed, hopen, TcpConnection.disableAll, TcpConnection.update, removeChannel, hb',
      Poller.Call.events, check_of]
  exact ⟨_, heq,
    { wf := h.wf, closeCalls := h.closeCalls, half := h.half, state := rfl
      specials := fun f hf => hl f (hrest ▸ hf), destroyed := congrArg (· + 1) h.destroyed, removals := h.removals }⟩

/-- The only closing functor runs while the connection is up: it closes it. -/
theorem Alive.forceCloseInLoop (h : Alive w) (hup : Up w) (hsp : specials { w.queue with batch := batch } = [])
    (hhalf : ∀ t, w.half t ≠ some .forceCloseInLoop) (r : WriteResult) :
    ∃ w', ({ w with queue := { w.queue with batch := batch } } : World).call r .forceCloseInLoop = some w' ∧ Once w' := by
  have hup' : Up { w with queue := { w.queue with batch := batch } } := ⟨hup.isOpen, hup.slot, by rw [hsp]; simp⟩
  obtain ⟨w', hw', honce⟩ := Alive.close (w := { w with queue := { w.queue with batch := batch } })
    { h with phase := Or.inr hup' } hup' hsp hhalf
  exact ⟨w', by simpa only [call, World.forceCloseInLoop, if_pos hup.isOpen] using hw', honce⟩

/-- A closing functor that runs when the connection is down does nothing. -/
theorem Down.forceCloseInLoop (h : Down w) (hb : w.queue.batch = .forceCloseInLoop :: batch) (r : WriteResult) :
    ∃ w', ({ w with queue := { w.queue with batch := batch } } : World).call r .forceCloseInLoop = some w' ∧ Down w' := by
  have hnot : ¬ w.conn.isOpen := by simp [TcpConnection.isOpen, h.state]
  refine ⟨{ w with queue := { w.queue with batch := batch } }, by simp only [call, World.forceCloseInLoop, if_neg hnot],
    { h with specials := fun f hf => h.specials f ?_ }⟩
  rw [specials_batch hb]
  exact List.mem_append_right _ hf

/-- A special functor runs. -/
theorem Once.functor (h : Once w) {f : LoopFunctor} (hb : w.queue.batch = f :: batch) (hf : special f = true)
    (r : WriteResult) :
    ∃ w', ({ w with queue := { w.queue with batch := batch } } : World).call r f = some w' ∧ Once w' := by
  have hspec := specials_batch hb
  rw [hf] at hspec
  have hmem : f ∈ specials w.queue := by rw [hspec]; simp
  rcases h with ⟨halive, hcon | ⟨hup, hone⟩⟩ | hclosing | hleaving | hdown
  · have hall := hcon.all
    rw [TaskQueue.all_of_batch hb] at hall
    have hce := (List.cons.inj hall).1
    subst hce
    obtain ⟨w', hw', hup', hsp', heq⟩ := hcon.established hb
    refine ⟨w', hw', Or.inl ⟨?_, Or.inr ⟨hup', Or.inl ⟨hsp', ?_⟩⟩⟩⟩
    · subst heq
      exact { halive with phase := Or.inr hup' }
    · subst heq
      intro t _ ht
      rw [show World.half _ t = w.half t from rfl, hcon.half t] at ht
      cases ht
  · have hfc := hup.specials f hmem
    subst hfc
    rcases hone with ⟨hsp, _⟩ | ⟨hsp, hhalf⟩
    · rw [hsp] at hmem
      cases hmem
    · rw [hsp] at hspec
      exact halive.forceCloseInLoop hup (List.cons.inj hspec).2.symm hhalf r
  · rw [hclosing.specials] at hmem
    cases hmem
  · obtain ⟨l, hspec', _⟩ := hleaving.specials
    rw [hspec'] at hspec
    have hcd := (List.cons.inj hspec).1
    subst hcd
    obtain ⟨w', hw', hdown⟩ := hleaving.destroyed' hb
    exact ⟨w', hw', Or.inr (Or.inr (Or.inr hdown))⟩
  · have hfc := hdown.specials f hmem
    subst hfc
    obtain ⟨w', hw', hdown'⟩ := hdown.forceCloseInLoop hb r
    exact ⟨w', hw', Or.inr (Or.inr (Or.inr hdown'))⟩

/-- The server's loop removes the connection. -/
theorem Once.remove (h : Once w) (hl : 0 < w.removals) :
    ∃ w', ({ w with removals := w.removals - 1 } : World).removeConnectionInLoop = some w' ∧ Once w' := by
  rcases h with ⟨halive, _⟩ | hclosing | hleaving | hdown
  · exact absurd halive.removals (by omega)
  · have hpush : specials (w.queue.push .connectDestroyed) = [.connectDestroyed] := by
      rw [specials_push, hclosing.specials]; rfl
    refine ⟨{ w with removals := w.removals - 1, inMap := false, queue := w.queue.push .connectDestroyed }, ?_, ?_⟩
    · simp [removeConnectionInLoop, hclosing.inMap]
    · exact Or.inr (Or.inr (Or.inl
        { wf := hclosing.wf, closeCalls := hclosing.closeCalls, half := hclosing.half, isOpen := hclosing.isOpen
          slot := hclosing.slot, specials := ⟨[], hpush, by simp⟩, destroyed := hclosing.destroyed
          removals := by simp [hclosing.removals] }))
  · exact absurd hleaving.removals (by omega)
  · exact absurd hdown.removals (by omega)

/-- **One event.** A careful event passes its asserts and leads to the same or the next phase. -/
theorem Once.step (h : Once w) (hl : e.Legal w) (hcare : w.Careful e) : ∃ w', w.step e = some w' ∧ Once w' := by
  by_cases hc : w.Calm e
  · exact h.calm hl hc
  cases e with
  | forceClose t => exact ⟨_, rfl, h.forceClose (not_not.1 hc) hcare⟩
  | push t =>
    obtain ⟨f, hf, hsp⟩ := not_calm_push hl hc
    obtain rfl := h.half_special hf hsp
    simp only [World.step, hf]
    exact ⟨_, rfl, h.push hf⟩
  | callback n r =>
    obtain ⟨k, todo, htodo, hcloses, hstep⟩ := not_calm_callback hl hc
    obtain ⟨hzero, hpend⟩ := hcare ⟨k, todo, htodo, hcloses⟩
    rw [hstep]
    exact h.close htodo hzero hpend
  | functor r =>
    obtain ⟨f, batch, hb, hsp⟩ := not_calm_functor hl hc
    simp only [World.step, hb]
    exact h.functor hb hsp r
  | remove => exact h.remove hl
  | _ => exact absurd trivial hc

theorem Once.counts (h : Once w) : w.closeCalls ≤ 1 ∧ w.destroyed ≤ 1 := by
  rcases h with ⟨halive, _⟩ | hclosing | hleaving | hdown
  · simp [halive.closeCalls, halive.destroyed]
  · simp [hclosing.closeCalls, hclosing.destroyed]
  · simp [hleaving.closeCalls, hleaving.destroyed]
  · simp [hdown.closeCalls, hdown.destroyed]

theorem Once.new {sameLoop writeComplete highWater : Bool} {threadId mark : Nat}
    (h : newConnection sameLoop threadId writeComplete highWater mark = some w) : Once w := by
  obtain ⟨halive, _, _, _, hhalf, _⟩ := Alive.new h
  refine Or.inl ⟨halive, halive.phase.imp id fun hup => ⟨hup, Or.inl ⟨?_, fun t _ ht => ?_⟩⟩⟩
  · cases sameLoop with
    | true => cases h; rfl
    | false =>
      cases h
      exact absurd hup.isOpen (by simp [TcpConnection.isOpen])
  · rw [hhalf] at ht
    cases ht

/-- **A connection is closed once, if its closing triggers do not overlap.** In every run of careful
events `closeCallback_` and `connectDestroyed` have run at most once, and no careful event fails an
assert of `handleClose`, `connectDestroyed` or `removeConnectionInLoop`. -/
theorem closed_once {sameLoop writeComplete highWater : Bool} {threadId mark : Nat} {w0 : World} {es : List Event}
    (hnew : newConnection sameLoop threadId writeComplete highWater mark = some w0)
    (hrun : Run step (fun w e => e.Legal w ∧ w.Careful e) w0 es w) :
    w.closeCalls ≤ 1 ∧ w.destroyed ≤ 1 ∧ ∀ e : Event, e.Legal w → w.Careful e → ∃ w', w.step e = some w' := by
  have honce : Once w := by
    refine hrun.invariant Once ?_ (Once.new hnew)
    intro w e w' h hok hstep
    obtain ⟨w1, hw1, h1⟩ := h.step hok.1 hok.2
    rw [hstep] at hw1
    cases hw1
    exact h1
  refine ⟨honce.counts.1, honce.counts.2, fun e hl hcare => ?_⟩
  obtain ⟨w', hw', _⟩ := honce.step hl hcare
  exact ⟨w', hw'⟩

/-- An end of file, and the functor it leads to. -/
theorem closed_once_eof : ∃ w0 w, newConnection true 0 false false 0 = some w0 ∧
    Run step (fun w e => e.Legal w ∧ w.Careful e) w0 [.poll 1, .callback 0 .error, .swap, .functor .error] w ∧
    w.closeCalls = 1 ∧ w.destroyed ≤ 1 ∧ w.conn.state = .kDisconnected := by
  have hnew : newConnection true 0 false false 0 = some ((newConnection true 0 false false 0).get rfl) := rfl
  have hcare : ∀ w : World, w.queue = ⟨[], []⟩ → w.half = (fun _ => none) → w.closeCalls = 0 →
      w.Careful (.callback 0 .error) := by
    intro w hq hh hz _
    refine ⟨hz, ?_⟩
    rintro (hm | ⟨t, ht⟩)
    · rw [hq] at hm
      cases hm
    · rw [hh] at ht
      cases ht
  have hrun : Run step (fun w e => e.Legal w ∧ w.Careful e) ((newConnection true 0 false false 0).get rfl)
      [.poll 1, .callback 0 .error, .swap, .functor .error] _ :=
    .cons ⟨⟨rfl, rfl, rfl⟩, trivial⟩ rfl <|
    .cons ⟨⟨List.cons_ne_nil _ _, trivial⟩, hcare _ rfl rfl rfl⟩ rfl <|
    .cons ⟨⟨rfl, rfl⟩, trivial⟩ rfl <|
    .cons ⟨⟨rfl, List.cons_ne_nil _ _, fun _ _ => trivial⟩, trivial⟩ rfl <| .nil _
  exact ⟨_, _, hnew, hrun, rfl, (closed_once hnew hrun).2.1, rfl⟩

/-- A callback that calls `forceClose()` twice: two functors are queued, and both run `closeCallback_`. -/
theorem closed_once_twice : ¬ ∀ (sameLoop writeComplete highWater : Bool) (threadId mark : Nat) (w0 w : World)
    (es : List Event), newConnection sameLoop threadId writeComplete highWater mark = some w0 →
    Run step (fun w e => e.Legal w) w0 es w →
    w.closeCalls ≤ 1 ∧ w.destroyed ≤ 1 ∧ ∀ e : Event, e.Legal w → ∃ w', w.step e = some w' := by
  intro hall
  have hrun : Run step (fun w e => e.Legal w) ((newConnection false 0 false false 0).get rfl)
      [.swap, .functor .error, .forceClose 0, .forceClose 0, .swap, .functor .error, .functor .error] _ :=
    Run.of_exec _ _ (by decide +kernel)
  have hle := (hall false false false 0 0 _ _ _ rfl hrun).1
  revert hle
  decide +kernel

end

end World
end ChatReactor
