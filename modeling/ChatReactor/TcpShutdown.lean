import ChatReactor.TcpStream

/-!
# `shutdown()` and what was sent before it

`shutdownInLoop` issues `shutdownWrite` as soon as the channel does not wait to write. Called by its own functor it comes after
every `sendInLoop` functor that was queued before it. But it is also called directly, by `shutdown()` in the loop's thread
and by `handleWrite` when the buffer is empty, and then the messages of other threads may still be in the queue: `NoOvertaking`
excludes that.

`Track` is the invariant: what was to be sent has run, or stands in the queue in front of the functor of `shutdown()`.
-/

namespace ChatReactor

namespace TcpConnection
variable {c c' : TcpConnection} {fs : List LoopFunctor} {r : WriteResult}

theorem bufferRest_shutdownWrites {rest : List UInt8} (h : c.bufferRest rest = some (c', fs)) :
    c'.shutdownWrites = c.shutdownWrites := by
  simp only [bufferRest, Option.bind_eq_bind] at h
  obtain ⟨buffer, _, h⟩ := Option.bind_eq_some_iff.1 h
  cases h
  split <;> rfl

theorem sendInLoop_shutdownWrites {message : List UInt8} (h : c.sendInLoop message r = some (c', fs)) :
    c'.shutdownWrites = c.shutdownWrites := by
  simp only [TcpConnection.sendInLoop, Option.bind_eq_bind] at h
  split at h
  · cases h
    rfl
  · obtain ⟨_, _, h⟩ := Option.bind_eq_some_iff.1 h
    split at h
    · obtain ⟨⟨c1, fs1⟩, hrest, h⟩ := Option.bind_eq_some_iff.1 h
      cases h
      exact (bufferRest_shutdownWrites hrest).trans rfl
    · cases h
      rfl

/-- `shutdownWrite` is issued by a channel that does not wait to write. -/
theorem shutdownInLoop_issues (h : c.shutdownWrites < c.shutdownInLoop.shutdownWrites) :
    c.isWriting = false ∧ c.shutdownInLoop.isWriting = false := by
  unfold TcpConnection.shutdownInLoop at h ⊢
  split at h
  · exact absurd h (Nat.lt_irrefl _)
  · rename_i hw
    rw [if_neg hw]
    exact ⟨eq_false_of_ne_true hw, eq_false_of_ne_true hw⟩

/-- `handleWrite` issues it when it has written the whole buffer of a connection that is shutting down. -/
theorem handleWrite_issues (hwf : c.outputBuffer.WF) (hlegal : r.Legal c.outputBuffer.readableBytes)
    (h : c.handleWrite r = some (c', fs)) (hlt : c.shutdownWrites < c'.shutdownWrites) :
    c.isWriting = true ∧ c.state = .kDisconnecting ∧ r = .wrote c.outputBuffer.readableBytes ∧ c'.isWriting = false := by
  obtain ⟨c1, fs1, hc1, hwrote⟩ := handleWrite_wrote hwf hlegal
  cases h.symm.trans hc1
  cases hwrote with
  | none _ => exact absurd hlt (Nat.lt_irrefl _)
  | part n b _ _ _ _ _ => exact absurd hlt (Nat.lt_irrefl _)
  | all b hw hr _ _ =>
    refine ⟨hw, ?_, hr, (emptied_fields _).2.2⟩
    by_contra hne
    rw [emptied, if_neg hne] at hlt
    exact Nat.lt_irrefl _ hlt

end TcpConnection

namespace World
open TcpConnection

/-! ## Runs of `send` and `shutdown` -/

/-- No `forceClose()`, and the peer does not close the connection. -/
def Event.Peaceful (w : World) : Event → Prop
  | .forceClose _ => False
  | .callback n _ => w.todo.head? ≠ some .close ∧ (w.todo.head? = some .read → n ≠ 0)
  | _ => True

instance (w : World) : ∀ e : Event, Decidable (e.Peaceful w)
  | .forceClose _ => .isFalse id
  | .callback _ _ => inferInstanceAs (Decidable (_ ∧ (_ → _)))
  | .send .. | .shutdown _ | .push _ | .poll _ | .swap | .functor _ | .remove => .isTrue trivial

/-- The invariant of such a run. -/
structure Peace (w : World) : Prop where
  stream : Stream w
  phase : Connecting w ∨ (Up w ∧ specials w.queue = [])
  half : ∀ {t f}, w.half t = some f → special f = false

variable {w w' : World} {e : Event} {r : WriteResult} {noFault : Prop}

theorem Peace.calm (h : Peace w) (hup : specials w.queue = []) (hl : e.Legal w) (hp : e.Peaceful w) : w.Calm e := by
  cases e with
  | forceClose t => exact absurd hp id
  | push t => exact fun f hf => h.half hf
  | callback n r =>
    intro k todo htodo
    rw [Event.Peaceful, htodo] at hp
    exact ⟨fun hk => hp.1 (by rw [hk]; rfl), fun hk => hp.2 (by rw [hk]; rfl)⟩
  | functor r =>
    intro f batch hb
    have hspecial := specials_batch hb
    rw [hup] at hspecial
    cases hf : special f with
    | false => rfl
    | true =>
      rw [hf] at hspecial
      cases hspecial
  | remove => exact absurd hl (by simp [Event.Legal, h.stream.alive.removals])
  | _ => trivial

theorem Peace.step (h : Peace w) (hl : e.Legal w) (hnf : e.NoFault) (hp : e.Peaceful w) (hw' : w.step e = some w') :
    Peace w' := by
  rcases h.phase with hcon | ⟨hup, hnone⟩
  · have hstream := h.stream.connecting hcon hl hw'
    rcases hcon.step hl with ⟨w1, hw1, heq, hcon'⟩ | rfl | ⟨r, batch, rfl, hb⟩
    · cases hw'.symm.trans hw1
      exact ⟨hstream, .inl hcon', fun hf => nomatch (hcon'.half _).symm.trans hf⟩
    · exact absurd hl (by simp [Event.Legal, h.stream.alive.removals])
    · obtain ⟨w1, hw1, hup', hnone', heq⟩ := hcon.established hb
      simp only [World.step, hb, World.call, hw1] at hw'
      cases hw'
      refine ⟨hstream, .inr ⟨hup', hnone'⟩, fun hf => ?_⟩
      subst heq
      exact nomatch (hcon.half _).symm.trans hf
  · have hc := h.calm hnone hl hp
    obtain ⟨w1, hw1, hq, hb⟩ := step_calm h.stream.alive.wf hl hc
    cases hw'.symm.trans hw1
    have hup' := hup.quiet hq
    refine ⟨⟨h.stream.alive.quiet hq (.inr hup'), h.stream.order.moves (step_moves h.stream.alive.wf hl hw'),
      hb h.stream.bytes h.stream.alive.not_down hnf⟩, .inr ⟨hup', hq.specials.trans hnone⟩, fun {t f} hf => ?_⟩
    cases hs : special f with
    | false => rfl
    | true => exact hs.symm.trans (h.half ((hq.half t f hs).1 hf))

theorem Peace.new {sameLoop writeComplete highWater : Bool} {threadId mark : Nat}
    (h : newConnection sameLoop threadId writeComplete highWater mark = some w) : Peace w := by
  have hstream := Stream.new h
  obtain ⟨_, _, _, _, hhalf, _⟩ := Alive.new h
  refine ⟨hstream, ?_, fun hf => nomatch (hhalf _).symm.trans hf⟩
  rcases hstream.alive.phase with hcon | hup
  · exact .inl hcon
  · refine .inr ⟨hup, ?_⟩
    cases sameLoop with
    | true => cases h; rfl
    | false => cases h; exact absurd hup.isOpen (by simp [TcpConnection.isOpen])

/-! ## What is queued in front of the shutdown -/

/-- The part of the queue in front of the functor of `shutdown()`. -/
def ahead : List LoopFunctor → List LoopFunctor
  | [] => []
  | f :: q => if f = .shutdownInLoop then [] else f :: ahead q

/-- The messages of thread `t` whose `send()` has returned. -/
def returned (w : World) (t : Nat) : List (Nat × List UInt8) := match w.half t with
  | some (.sendInLoop _ _) => (own t w.accepted).dropLast
  | _ => own t w.accepted

/-- The messages `sent t` have run, or stand in the queue in front of the functor of `shutdown()`. -/
def Track (sent : Nat → List (Nat × List UInt8)) (w : World) : Prop :=
  ∀ t, sent t <+: own t w.ran ++ own t ((ahead w.queue.all).flatMap sends)

/-- The functor of `shutdown()` is only queued when the connection is shutting down. -/
structure Unshut (w : World) : Prop where
  queue : .shutdownInLoop ∈ w.queue.all → w.conn.state = .kDisconnecting
  half : ∀ {t}, w.half t = some .shutdownInLoop → w.conn.state = .kDisconnecting

theorem ahead_of_not_mem : ∀ {q : List LoopFunctor}, .shutdownInLoop ∉ q → ahead q = q
  | [], _ => rfl
  | f :: q, h => by
    obtain ⟨hf, hq⟩ := not_or.1 (mt List.mem_cons.2 h)
    rw [ahead, if_neg (Ne.symm hf), ahead_of_not_mem hq]

theorem ahead_cons_of_ne {f : LoopFunctor} (hf : f ≠ .shutdownInLoop) (q : List LoopFunctor) : ahead (f :: q) = f :: ahead q :=
  if_neg hf

/-- What is queued later comes behind. -/
theorem ahead_append (fs : List LoopFunctor) : ∀ q : List LoopFunctor, ahead q <+: ahead (q ++ fs)
  | [] => List.nil_prefix
  | f :: q => by
    by_cases hf : f = .shutdownInLoop
    · simp [ahead, hf]
    · rw [List.cons_append, ahead_cons_of_ne hf, ahead_cons_of_ne hf]
      exact List.cons_prefix_cons.2 ⟨rfl, ahead_append fs q⟩

@[simp] theorem own_nil (t : Nat) : own t [] = [] := rfl

theorem mem_of_mem_ahead {f : LoopFunctor} : ∀ {q : List LoopFunctor}, f ∈ ahead q → f ∈ q
  | g :: q, h => by
    rw [ahead] at h
    split at h
    · cases h
    · exact (List.mem_cons.1 h).elim (fun hfg => hfg ▸ List.mem_cons_self) fun h => List.mem_cons_of_mem g (mem_of_mem_ahead h)

theorem Unshut.step (h : Unshut w) (hm : Moves w w' noFault) (hup : w'.conn.state ≠ .kDisconnected) : Unshut w' := by
  have stays : w.conn.state = .kDisconnecting → w'.conn.state = .kDisconnecting := fun hd =>
    (hm.state hd).resolve_right hup
  cases hm.flow with
  | keep fs hfs hq hacc hran hhalf =>
    refine ⟨fun hin => ?_, fun hf => stays (h.half (hhalf ▸ hf))⟩
    rw [hq] at hin
    exact stays (h.queue ((List.mem_append.1 hin).resolve_right (not_mem_mute hfs)))
  | send m fs hfs hq hacc hran hhalf =>
    refine ⟨fun hin => ?_, fun hf => stays (h.half (hhalf ▸ hf))⟩
    rw [hq] at hin
    exact stays (h.queue ((List.mem_append.1 hin).resolve_right (not_mem_mute hfs)))
  | begin t f hfree ht hown hstate hq hacc hran hhalf =>
    refine ⟨fun hin => stays (h.queue (hq ▸ hin)), fun hf => ?_⟩
    rcases half_begun (hhalf ▸ hf) with heq | hf
    · exact hstate heq.symm
    · exact stays (h.half hf)
  | push t f hf hq hacc hran hhalf =>
    refine ⟨fun hin => ?_, fun hf' => stays (h.half (half_pushed (hhalf ▸ hf')).2)⟩
    rw [hq] at hin
    rcases List.mem_append.1 hin with hin | hin
    · exact stays (h.queue hin)
    · rw [← List.mem_singleton.1 hin] at hf
      exact stays (h.half hf)
  | run f rest fs hfs hall hq hacc hran hhalf =>
    refine ⟨fun hin => ?_, fun hf => stays (h.half (hhalf ▸ hf))⟩
    rw [hq] at hin
    refine stays (h.queue ?_)
    rw [hall]
    exact List.mem_cons_of_mem _ ((List.mem_append.1 hin).resolve_right (not_mem_mute hfs))

/-- More functors at the end of the queue are no loss. -/
theorem own_ahead_append (t : Nat) (ran : List (Nat × List UInt8)) (q fs : List LoopFunctor) :
    own t ran ++ own t ((ahead q).flatMap sends) <+: own t ran ++ own t ((ahead (q ++ fs)).flatMap sends) := by
  obtain ⟨l, hl⟩ := ahead_append fs q
  rw [← hl, List.flatMap_append, own_append, ← List.append_assoc]
  exact List.prefix_append _ _

/-- The loop's thread has nothing in the queue. -/
theorem Order.ahead_loop (h : Order w) : own w.threadId ((ahead w.queue.all).flatMap sends) = [] := by
  refine List.filter_eq_nil_iff.2 fun x hx => ?_
  obtain ⟨f, hf, hx⟩ := List.mem_flatMap.1 hx
  simpa using h.loop x (List.mem_flatMap.2 ⟨f, mem_of_mem_ahead hf, hx⟩)

variable {sent : Nat → List (Nat × List UInt8)}

theorem Track.step (h : Track sent w) (hord : Order w) (hm : Moves w w' noFault) : Track sent w' := by
  intro t
  cases hm.flow with
  | keep fs hfs hq hacc hran hhalf =>
    rw [hq, hran]
    exact (h t).trans (own_ahead_append t _ _ fs)
  | send m fs hfs hq hacc hran hhalf =>
    rw [hq, hran]
    refine List.IsPrefix.trans ?_ (own_ahead_append t _ _ fs)
    rw [own_append]
    by_cases ht : t = w.threadId
    · subst ht
      have hsent := h w.threadId
      rw [hord.ahead_loop, List.append_nil] at hsent ⊢
      exact hsent.trans (List.prefix_append _ _)
    · rw [own_ne (l := [(w.threadId, m)]) (by simp) ht, List.append_nil]
      exact h t
  | begin t' f hfree ht hown hstate hq hacc hran hhalf =>
    rw [hq, hran]
    exact h t
  | push t' f hf hq hacc hran hhalf =>
    rw [hq, hran]
    exact (h t).trans (own_ahead_append t _ _ [f])
  | run f rest fs hfs hall hq hacc hran hhalf =>
    rw [hq, hran]
    refine List.IsPrefix.trans ?_ (own_ahead_append t _ _ fs)
    have hsent := h t
    rw [hall] at hsent
    by_cases hf : f = .shutdownInLoop
    · simp only [ahead, hf, if_true, List.flatMap_nil] at hsent
      rw [hf]
      simp only [sends, List.append_nil, own_nil] at hsent ⊢
      exact hsent.trans (List.prefix_append _ _)
    · rw [ahead_cons_of_ne hf, List.flatMap_cons, own_append] at hsent
      rw [own_append, List.append_assoc]
      exact hsent

/-! ## The runs in which nothing is lost -/

/-- `shutdownWrite` is not issued over queued messages: `shutdown()` in the loop's thread finds none if it
issues it at once, and `handleWrite` finds none in front of the functor of `shutdown()` when it empties the buffer. -/
def Event.NoOvertaking (w : World) : Event → Prop
  | .shutdown thread => thread = w.threadId → w.conn.state = .kConnected → w.conn.isWriting = false →
      ∀ f ∈ w.queue.all, sends f = []
  | .callback _ r => w.todo.head? = some .write → w.conn.isWriting = true → w.conn.state = .kDisconnecting →
      r = .wrote w.conn.outputBuffer.readableBytes → ∀ f ∈ ahead w.queue.all, sends f = []
  | _ => True

instance (w : World) : ∀ e : Event, Decidable (e.NoOvertaking w)
  | .shutdown _ => inferInstanceAs (Decidable (_ → _ → _ → ∀ f ∈ w.queue.all, _ = _))
  | .callback _ r => inferInstanceAs (Decidable (w.todo.head? = some .write → w.conn.isWriting = true →
      w.conn.state = .kDisconnecting → r = .wrote w.conn.outputBuffer.readableBytes → ∀ f ∈ ahead w.queue.all, sends f = []))
  | .send .. | .forceClose _ | .push _ | .poll _ | .swap | .functor _ | .remove => .isTrue trivial

/-- An event of a run with `send()` and `shutdown()` calls only, without a write fault or a close by the peer. -/
def Event.Graceful (w : World) (e : Event) : Prop := e.Legal w ∧ e.NoFault ∧ e.Peaceful w ∧ e.NoOvertaking w

instance (w : World) (e : Event) : Decidable (e.Graceful w) := inferInstanceAs (Decidable (_ ∧ _ ∧ _ ∧ _))

/-- Nothing of `sent` is in the queue in front of the shutdown. -/
theorem Track.done (h : Track sent w) (hq : ∀ f ∈ ahead w.queue.all, sends f = []) (t : Nat) :
    sent t <+: own t w.ran := by
  have hsent := h t
  rw [List.flatMap_eq_nil_iff.2 hq] at hsent
  simpa using hsent

theorem sendInLoop_not_issued {sender : Nat} {m : List UInt8} (h : w.sendInLoop sender m r = some w') :
    w'.conn.shutdownWrites = w.conn.shutdownWrites := by
  obtain ⟨⟨c', fs⟩, hc', h⟩ := Option.bind_eq_some_iff.1 h
  cases h
  exact sendInLoop_shutdownWrites hc'

theorem send_not_issued {t : Nat} {m : List UInt8} (h : w.send t m r = some w') :
    w'.conn.shutdownWrites = w.conn.shutdownWrites := by
  simp only [World.send] at h
  split at h
  · split at h
    · exact (sendInLoop_not_issued h :)
    · cases h
      rfl
  · cases h
    rfl

theorem handleClose_not_issued (h : w.handleClose = some w') : w'.conn.shutdownWrites = w.conn.shutdownWrites := by
  obtain ⟨_, ⟨_, _, rfl⟩ | ⟨_, rfl⟩⟩ := handleClose_eq h <;> rfl

/-- Of the callbacks, the one that writes issues it. -/
theorem callback_issues {n : Int} {k : Callback} (h : w.callback n r k = some w')
    (hlt : w.conn.shutdownWrites < w'.conn.shutdownWrites) :
    k = .write ∧ ∃ c' fs, w.conn.handleWrite r = some (c', fs) ∧ w' = w.finish (c', fs) := by
  cases k with
  | close => exact absurd (handleClose_not_issued h) hlt.ne'
  | error =>
    cases h
    exact absurd hlt (Nat.lt_irrefl _)
  | read =>
    simp only [World.callback, handleRead] at h
    split at h
    · exact absurd (handleClose_not_issued h) hlt.ne'
    · cases h
      exact absurd hlt (Nat.lt_irrefl _)
  | write =>
    obtain ⟨⟨c', fs⟩, hc', rfl⟩ := Option.map_eq_some_iff.1 h
    exact ⟨rfl, c', fs, hc', rfl⟩

/-- Of the functors, that of `shutdown()` issues it. -/
theorem call_issues {f : LoopFunctor} (h : w.call r f = some w') (hlt : w.conn.shutdownWrites < w'.conn.shutdownWrites) :
    f = .shutdownInLoop ∧ w' = { w with conn := w.conn.shutdownInLoop } := by
  cases f with
  | connectEstablished =>
    obtain ⟨_, rfl⟩ := connectEstablished_eq h
    exact absurd hlt (Nat.lt_irrefl _)
  | connectDestroyed =>
    obtain ⟨_, conn, hconn, rfl⟩ := connectDestroyed_eq h
    obtain ⟨_, _, hconn⟩ := Option.bind_eq_some_iff.1 hconn
    cases hconn
    exact absurd hlt (Nat.lt_irrefl _)
  | forceCloseInLoop =>
    simp only [World.call, World.forceCloseInLoop] at h
    split at h
    · exact absurd (handleClose_not_issued h) hlt.ne'
    · cases h
      exact absurd hlt (Nat.lt_irrefl _)
  | shutdownInLoop =>
    cases h
    exact ⟨rfl, rfl⟩
  | sendInLoop s m => exact absurd (sendInLoop_not_issued h) hlt.ne'
  | _ =>
    cases h
    exact absurd hlt (Nat.lt_irrefl _)

/-- When `shutdownWrite` is issued, nothing of `sent` is queued, and the buffer is empty. -/
theorem Track.issued (h : Track sent w) (hp : Peace w) (hg : e.Graceful w) (hw' : w.step e = some w')
    (hlt : w.conn.shutdownWrites < w'.conn.shutdownWrites) :
    (∀ t, sent t <+: own t w'.ran) ∧ w'.conn.isWriting = false := by
  obtain ⟨hl, hnf, hpeace, hahead⟩ := hg
  have hwf := hp.stream.alive.wf
  cases e with
  | send t m r => exact absurd (send_not_issued hw') hlt.ne'
  | shutdown t =>
    cases hw'
    simp only [World.shutdown] at hlt ⊢
    split at hlt
    · rename_i hconn
      split at hlt
      · rename_i hloop
        obtain ⟨hw, hw'⟩ := shutdownInLoop_issues (c := { w.conn with state := .kDisconnecting }) hlt
        rw [if_pos hconn, if_pos hloop]
        exact ⟨h.done fun f hf => hahead hloop hconn hw f (mem_of_mem_ahead hf), hw'⟩
      · exact absurd hlt (Nat.lt_irrefl _)
    · exact absurd hlt (Nat.lt_irrefl _)
  | callback n r =>
    obtain ⟨k, todo, htodo⟩ := List.exists_cons_of_ne_nil hl.1
    simp only [World.step, htodo] at hw'
    obtain ⟨rfl, c', fs, hc', rfl⟩ := callback_issues hw' hlt
    obtain ⟨hw, hdis, hr, hw'⟩ := handleWrite_issues hwf hl.2 hc' hlt
    exact ⟨h.done (hahead (by rw [htodo]; rfl) hw hdis hr), hw'⟩
  | functor r =>
    obtain ⟨f, batch, hb⟩ := List.exists_cons_of_ne_nil hl.2.1
    simp only [World.step, hb] at hw'
    obtain ⟨rfl, rfl⟩ := call_issues hw' hlt
    refine ⟨h.done fun f hf => ?_, (shutdownInLoop_issues hlt).2⟩
    -- the functor stands at the front
    rw [TaskQueue.all_of_batch hb] at hf
    cases hf
  | push t =>
    obtain ⟨f, hf⟩ := Option.ne_none_iff_exists'.1 hl
    simp only [World.step, hf] at hw'
    cases hw'
    exact absurd hlt (Nat.lt_irrefl _)
  | forceClose t => exact absurd hpeace id
  | remove => exact absurd hl (by simp [Event.Legal, hp.stream.alive.removals])
  | _ =>
    cases hw'
    exact absurd hlt (Nat.lt_irrefl _)

/-- The messages whose `send()` has returned have run or are queued. -/
theorem Order.returned_eq (h : Order w) (t : Nat) :
    w.returned t = own t w.ran ++ own t (w.queue.all.flatMap sends) := by
  have horder := h.order t
  unfold returned
  split
  · rename_i s m hf
    rw [horder, hf]
    simp [sends]
  · rename_i hne
    cases hf : w.half t with
    | none =>
      rw [hf] at horder
      simpa using horder
    | some f =>
      rw [hf] at horder
      cases f with
      | sendInLoop s m => exact absurd hf (hne s m)
      | _ => simpa [sends] using horder

theorem Track.start (h : Peace w) (hu : Unshut w) (hconn : w.conn.state = .kConnected) : Track w.returned w := by
  intro t
  have hnone : .shutdownInLoop ∉ w.queue.all := fun hin => nomatch hconn.symm.trans (hu.queue hin)
  have heq := h.stream.order.returned_eq t
  rw [← ahead_of_not_mem hnone] at heq
  exact heq ▸ List.prefix_rfl

theorem Unshut.new {sameLoop writeComplete highWater : Bool} {threadId mark : Nat}
    (h : newConnection sameLoop threadId writeComplete highWater mark = some w) : Unshut w := by
  obtain ⟨_, _, _, _, hhalf, _⟩ := Alive.new h
  refine ⟨fun hin => ?_, fun hf => nomatch (hhalf _).symm.trans hf⟩
  cases sameLoop with
  | true => cases h; cases hin
  | false => cases h; simp [TaskQueue.all, TaskQueue.push] at hin

end World
end ChatReactor
