import ChatReactor.ConnectorRuns

/-!
# What one step of a `Connector` shows to its user

The functors it queues, the sockets it makes and hands over, and the calls of `restart`. Only the callbacks of its channel hand over a
socket, and only an attempt that ends, or a `start`, queues a functor.
-/

namespace ChatReactor
namespace Connector

variable {k k' : Connector} {e : Event}

/-- A step that runs no functor: it queues one at most, and hands over one socket at most, neither while the last socket is in use. -/
structure Seen (k k' : Connector) : Prop where
  queue : k'.queue = k.queue ∨ k.state ≠ .kConnected ∧ ∃ f, k'.queue = k.queue.push f
  handed : k'.handed = k.handed ∨ k.state = .kConnecting ∧ ∃ i, k'.handed = k.handed ++ [i]

/-- A step of the loop, not a call of the user. -/
structure Inner (k k' : Connector) : Prop extends Seen k k' where
  restarts : k'.restarts = k.restarts
  sockets : k.connect_ = false → k'.sockets = k.sockets

theorem Inner.refl (k : Connector) : Inner k k := ⟨⟨.inl rfl, .inl rfl⟩, rfl, fun _ => rfl⟩

theorem retry_sockets (k : Connector) (sockfd : Nat) : (k.retry sockfd).sockets = k.sockets := by
  simp only [retry]
  split
  · rfl
  · rfl

theorem startInLoop_sockets {err : Errno} (h : k.startInLoop err = some k') (hconnect : k.connect_ = false) :
    k'.sockets = k.sockets := by
  simp only [startInLoop, hconnect, Option.bind_eq_bind, Option.bind_eq_some_iff] at h
  obtain ⟨_, _, h⟩ := h
  cases h
  rfl

theorem removed_eq {sockfd : Nat} (h : k.removeAndResetChannel = some (sockfd, k')) :
    k'.queue = k.queue.push .resetChannel ∧ k'.handed = k.handed ∧ k'.restarts = k.restarts ∧ k'.sockets = k.sockets := by
  simp only [removeAndResetChannel, Option.bind_eq_bind, Option.bind_eq_some_iff] at h
  obtain ⟨channel, _, _, _, h⟩ := h
  cases h
  exact ⟨rfl, rfl, rfl, rfl⟩

/-- The end of an attempt that failed. -/
theorem retried_inner {k₁ : Connector} {sockfd : Nat} (hk : k.state = .kConnecting) (h : k.removeAndResetChannel = some (sockfd, k₁)) :
    Inner k (k₁.retry sockfd) := by
  obtain ⟨hqueue, hhanded, hrestarts, hsockets⟩ := removed_eq h
  have hretry := retry_untouched k₁ sockfd
  exact ⟨⟨.inr ⟨by rw [hk]; exact nofun, _, hretry.queue.trans hqueue⟩, .inl (hretry.handed.trans hhanded)⟩,
    hretry.restarts.trans hrestarts, fun _ => (retry_sockets k₁ sockfd).trans hsockets⟩

theorem callback_inner {err : Nat} {isSelfConnect : Bool} {f : Callback} (h : k.callback err isSelfConnect f = some k') :
    Inner k k' := by
  cases f with
  | close | read =>
    cases h
    exact .refl k
  | error =>
    simp only [callback, handleError, Option.bind_eq_bind, Option.bind_eq_some_iff] at h
    obtain ⟨_, hk, ⟨sockfd, k₁⟩, hremove, h⟩ := h
    cases h
    exact retried_inner (check_eq_some.1 hk) hremove
  | write =>
    simp only [callback, handleWrite] at h
    split at h
    next hk =>
      simp only [Option.bind_eq_bind, Option.bind_eq_some_iff] at h
      obtain ⟨⟨sockfd, k₁⟩, hremove, h⟩ := h
      obtain ⟨hqueue, hhanded, hrestarts, hsockets⟩ := removed_eq hremove
      have hpushed : k.state ≠ .kConnected ∧ ∃ f, k₁.queue = k.queue.push f := ⟨by simp [hk], _, hqueue⟩
      split_ifs at h
      · cases h
        exact retried_inner hk hremove
      · cases h
        exact retried_inner hk hremove
      · cases h
        exact ⟨⟨.inr hpushed, .inr ⟨hk, sockfd, by rw [hhanded]⟩⟩, hrestarts, fun _ => hsockets⟩
      · cases h
        exact ⟨⟨.inr hpushed, .inl hhanded⟩, hrestarts, fun _ => hsockets⟩
    next =>
      simp only [Option.bind_eq_bind, Option.bind_eq_some_iff] at h
      obtain ⟨_, _, h⟩ := h
      cases h
      exact .refl k

/-- The two events that move functors. -/
def Event.Drains : Event → Prop
  | .doPendingFunctors | .functor _ => True
  | _ => False

theorem step_inner (hl : e.Legal k) (hcall : ¬e.IsCall) (hdrains : ¬e.Drains) (hs : k.step e = some k') : Inner k k' := by
  cases turn_of_legal hl hcall hs with
  | poll | handleEvent | finish => exact ⟨⟨.inl rfl, .inl rfl⟩, rfl, fun _ => rfl⟩
  | timer _ hstart =>
    have hsame := startInLoop_untouched hstart
    have hsockets := startInLoop_sockets hstart
    exact ⟨⟨.inl hsame.queue, .inl hsame.handed⟩, hsame.restarts, hsockets⟩
  | callback _ hcallback =>
    have hinner := callback_inner hcallback
    exact ⟨⟨hinner.queue, hinner.handed⟩, hinner.restarts, hinner.sockets⟩
  | doPendingFunctors | functor => exact absurd trivial hdrains

/-- The calls queue a functor only where the connector is idle. -/
theorem step_seen (hl : e.Legal k) (hcareful : k.Careful e) (hdrains : ¬e.Drains) (hs : k.step e = some k') : Seen k k' := by
  by_cases hcall : e.IsCall
  · cases e with
    | start inLoopThread err =>
      cases inLoopThread with
      | true =>
        have hsame := startInLoop_untouched hs
        exact ⟨.inl hsame.queue, .inl hsame.handed⟩
      | false =>
        cases hs
        exact ⟨.inr ⟨by rw [hcareful.1]; exact nofun, _, rfl⟩, .inl rfl⟩
    | restart err =>
      have hsame := startInLoop_untouched hs
      exact ⟨.inl hsame.queue, .inl hsame.handed⟩
    | stop =>
      cases hs
      exact ⟨.inl rfl, .inl rfl⟩
    | _ => exact absurd hcall id
  · exact (step_inner hl hcall hdrains hs).toSeen

/-- While the last socket is in use, only its `resetChannel` can be queued. -/
theorem Inv.all_eq_nil (h : Inv k) (hs : k.state = .kConnected) (hreset : .resetChannel ∉ k.queue.all) : k.queue.all = [] := by
  have hwaiting := (h.idle_of_kConnected hs hreset).2
  rw [List.eq_nil_iff_forall_not_mem]
  intro f hf
  cases f with
  | startInLoop =>
    have hpos := List.count_pos_iff.2 hf
    rw [waiting] at hwaiting
    omega
  | resetChannel => exact hreset hf

theorem step_restarts (hl : e.Legal k) (hrestart : ∀ err, e ≠ .restart err) (hdrains : ¬e.Drains) (hs : k.step e = some k') :
    k'.restarts = k.restarts := by
  by_cases hcall : e.IsCall
  · cases e with
    | start inLoopThread err =>
      cases inLoopThread with
      | true => exact (startInLoop_untouched hs).restarts
      | false =>
        cases hs
        rfl
    | restart err => exact absurd rfl (hrestart err)
    | stop =>
      cases hs
      rfl
    | _ => exact absurd hcall id
  · exact (step_inner hl hcall hdrains hs).restarts

theorem functor_eq {err : Errno} (hl : Event.Legal k (.functor err)) (hs : k.step (.functor err) = some k') :
    (∃ f, k.queue.batch = f :: k'.queue.batch) ∧ k'.queue.pending = k.queue.pending ∧ k'.handed = k.handed ∧
      k'.restarts = k.restarts ∧ k'.phase = k.phase ∧ (k.connect_ = false → k'.sockets = k.sockets) := by
  cases turn_of_legal hl id hs with
  | @functor _ f batch _ hphase hb hrun =>
    cases f with
    | startInLoop =>
      have hsame := startInLoop_untouched hrun
      have hsockets := startInLoop_sockets hrun
      rw [hsame.queue]
      exact ⟨⟨_, hb⟩, rfl, hsame.handed, hsame.restarts, hsame.phase, hsockets⟩
    | resetChannel =>
      cases hrun
      exact ⟨⟨_, hb⟩, rfl, rfl, rfl, rfl, fun _ => rfl⟩

/-- The functors queued by a step. -/
theorem Seen.pending (h : Seen k k') : k'.queue.batch = k.queue.batch ∧
    k'.queue.pending.length = k.queue.pending.length + (k'.queue.pending.length - k.queue.pending.length) := by
  rcases h.queue with hq | ⟨_, f, hq⟩
  · rw [hq]
    exact ⟨rfl, by omega⟩
  · rw [hq]
    refine ⟨rfl, ?_⟩
    simp [TaskQueue.push]

/-- After `stop`, and without a `restart`, no socket is made and none is handed over. -/
theorem OnceInv.stopped_step (h : OnceInv k) (hl : e.Legal k) (honce : k.Once e) (hs : k.step e = some k')
    (hrestart : ∀ err, e ≠ .restart err) (hstop : k.connect_ = false) (hstart : 0 < k.starts) :
    k'.connect_ = false ∧ 0 < k'.starts ∧ k'.handed = k.handed ∧ k'.sockets = k.sockets := by
  by_cases hcall : e.IsCall
  · cases e with
    | start => exact absurd honce (Nat.pos_iff_ne_zero.1 hstart)
    | restart err => exact absurd rfl (hrestart err)
    | stop =>
      cases hs
      exact ⟨rfl, hstart, rfl, rfl⟩
    | _ => exact absurd hcall id
  · have hframe := step_frame h.inv hl hcall hs
    refine ⟨hframe.connect_.trans hstop, hframe.starts ▸ hstart, hframe.handed hstop, ?_⟩
    cases e with
    | doPendingFunctors =>
      cases hs
      rfl
    | functor err => exact (functor_eq hl hs).2.2.2.2.2 hstop
    | _ => exact (step_inner hl hcall id hs).sockets hstop

end Connector
end ChatReactor
