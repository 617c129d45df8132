import ChatReactor.Lib.Runs
import ChatReactor.ConnectorProofs

/-!
# Runs of a `Connector`

Two kinds of use. `Once`: one `start`, on any thread, then any number of `stop`, and a `restart` for a socket that was handed
over, once its `resetChannel` has run. Nothing goes wrong then, and every socket is closed or handed over once.

`Alternating`: `start` and `stop` in turn, on the loop's thread. `stop` only clears `connect_`: it does not end the attempt under way, and
does not cancel the timer of `retry`, since `EventLoop::cancel` does nothing. The next `start` is safe exactly if the
connector is `Idle` by then.
-/

namespace ChatReactor
namespace Connector

variable {c c' : Connector} {i : Nat}

/-! ## What the events do not change -/

structure Frame (c c' : Connector) : Prop where
  connect_ : c'.connect_ = c.connect_
  starts : c'.starts = c.starts
  handed : c.connect_ = false → c'.handed = c.handed
  /-- Only `resetChannel` is queued. -/
  queue : ∀ f ∈ c'.queue.all, f ∈ c.queue.all ∨ f = .resetChannel

theorem Frame.refl (c : Connector) : Frame c c := ⟨rfl, rfl, fun _ => rfl, fun _ => .inl⟩

/-- What the beginning and the end of an attempt leave alone. -/
structure Untouched (c c' : Connector) : Prop where
  connect_ : c'.connect_ = c.connect_
  starts : c'.starts = c.starts
  queue : c'.queue = c.queue
  handed : c'.handed = c.handed
  restarts : c'.restarts = c.restarts
  phase : c'.phase = c.phase

theorem Untouched.frame (h : Untouched c c') : Frame c c' := ⟨h.connect_, h.starts, fun _ => h.handed, fun _ hf => .inl (h.queue ▸ hf)⟩

theorem retry_untouched (c : Connector) (sockfd : Nat) : Untouched c (c.retry sockfd) := by
  simp only [retry]
  split
  · exact ⟨rfl, rfl, rfl, rfl, rfl, rfl⟩
  · exact ⟨rfl, rfl, rfl, rfl, rfl, rfl⟩

theorem connect_untouched {e : Errno} (h : c.connect e = some c') : Untouched c c' := by
  cases e
  case zero | EINPROGRESS | EINTR | EISCONN =>
    simp only [connect, connecting, Option.bind_eq_bind, Option.bind_eq_some_iff] at h
    obtain ⟨_, _, h⟩ := h
    cases h
    exact ⟨rfl, rfl, rfl, rfl, rfl, rfl⟩
  case EAGAIN | EADDRINUSE | EADDRNOTAVAIL | ECONNREFUSED | ENETUNREACH =>
    cases h
    have hretry := retry_untouched { c with sockets := c.sockets + 1 } c.sockets
    exact { hretry with }
  all_goals
    cases h
    exact ⟨rfl, rfl, rfl, rfl, rfl, rfl⟩

theorem startInLoop_untouched {e : Errno} (h : c.startInLoop e = some c') : Untouched c c' := by
  simp only [startInLoop, Option.bind_eq_bind, Option.bind_eq_some_iff] at h
  obtain ⟨_, _, h⟩ := h
  split at h
  · exact connect_untouched h
  · cases h
    exact ⟨rfl, rfl, rfl, rfl, rfl, rfl⟩

theorem removeAndResetChannel_frame {sockfd : Nat} (h : c.removeAndResetChannel = some (sockfd, c')) : Frame c c' := by
  simp only [removeAndResetChannel, Option.bind_eq_bind, Option.bind_eq_some_iff] at h
  obtain ⟨channel, _, _, _, h⟩ := h
  cases h
  refine ⟨rfl, rfl, fun _ => rfl, fun f hf => ?_⟩
  rw [TaskQueue.all_push, List.mem_append, List.mem_singleton] at hf
  exact hf

theorem Frame.trans {c₁ c₂ : Connector} (h : Frame c c₁) (h' : Frame c₁ c₂) : Frame c c₂ where
  connect_ := h'.connect_.trans h.connect_
  starts := h'.starts.trans h.starts
  handed hc := (h'.handed (h.connect_.trans hc)).trans (h.handed hc)
  queue f hf := by
    rcases h'.queue f hf with hf | hf
    · exact h.queue f hf
    · exact .inr hf

theorem callback_frame {err : Nat} {isSelfConnect : Bool} {f : Callback} (h : c.callback err isSelfConnect f = some c') :
    Frame c c' := by
  cases f with
  | close | read =>
    cases h
    exact .refl c
  | error =>
    simp only [callback, handleError, Option.bind_eq_bind, Option.bind_eq_some_iff] at h
    obtain ⟨_, _, ⟨sockfd, c₁⟩, hremove, h⟩ := h
    cases h
    exact (removeAndResetChannel_frame hremove).trans (retry_untouched c₁ sockfd).frame
  | write =>
    simp only [callback, handleWrite] at h
    split at h
    · simp only [Option.bind_eq_bind, Option.bind_eq_some_iff] at h
      obtain ⟨⟨sockfd, c₁⟩, hremove, h⟩ := h
      refine (removeAndResetChannel_frame hremove).trans ?_
      split_ifs at h with herr hself hconn
      · cases h
        exact (retry_untouched c₁ sockfd).frame
      · cases h
        exact (retry_untouched c₁ sockfd).frame
      · cases h
        exact ⟨rfl, rfl, fun hc => (by cases hc.symm.trans hconn), fun _ => .inl⟩
      · cases h
        exact ⟨rfl, rfl, fun _ => rfl, fun _ => .inl⟩
    · simp only [Option.bind_eq_bind, Option.bind_eq_some_iff] at h
      obtain ⟨_, _, h⟩ := h
      cases h
      exact .refl c

theorem step_frame {e : Event} (h : Inv c) (hl : e.Legal c) (hcall : ¬e.IsCall) (hs : c.step e = some c') : Frame c c' := by
  cases turn_of_legal hl hcall hs with
  | poll | handleEvent | finish => exact ⟨rfl, rfl, fun _ => rfl, fun _ => .inl⟩
  | timer _ hstart =>
    have hframe := (startInLoop_untouched hstart).frame
    exact ⟨hframe.connect_, hframe.starts, hframe.handed, hframe.queue⟩
  | callback _ hcallback =>
    have hframe := callback_frame hcallback
    exact ⟨hframe.connect_, hframe.starts, hframe.handed, hframe.queue⟩
  | doPendingFunctors hphase => exact ⟨rfl, rfl, fun _ => rfl, fun f hf => .inl (h.all_swap hphase ▸ hf)⟩
  | @functor _ f batch _ _ hb hrun =>
    have hmem {g : Functor} (hg : g ∈ ({ c.queue with batch := batch } : TaskQueue Functor).all) : g ∈ c.queue.all := by
      rw [TaskQueue.all_of_batch hb]
      exact List.mem_cons_of_mem f hg
    cases f with
    | startInLoop =>
      have hframe := (startInLoop_untouched hrun).frame
      exact ⟨hframe.connect_, hframe.starts, hframe.handed, fun g hg => (hframe.queue g hg).imp_left hmem⟩
    | resetChannel =>
      cases hrun
      exact ⟨rfl, rfl, fun _ => rfl, fun g hg => .inl (hmem hg)⟩

/-! ## One `start` -/

/-- One `start`, `stop` at any later time, and one `restart` at most for a socket handed over, after its `resetChannel` has run. -/
def Once (c : Connector) : Event → Prop
  | .start _ _ => c.starts = 0
  | .stop => 0 < c.starts
  | .restart _ => c.restarts < c.handed.length ∧ .resetChannel ∉ c.queue.all
  | _ => True

instance (c : Connector) : ∀ e : Event, Decidable (c.Once e)
  | .start _ _ => inferInstanceAs (Decidable (c.starts = 0))
  | .stop => inferInstanceAs (Decidable (0 < c.starts))
  | .restart _ => inferInstanceAs (Decidable (_ ∧ _))
  | .poll _ _ _ | .timer _ | .handleEvent | .callback _ _ | .doPendingFunctors | .functor _ | .finish => .isTrue trivial

abbrev OnceSteps : Connector → List Event → Connector → Prop := Run step fun c e => e.Legal c ∧ c.Once e

/-- The loop does nothing to an idle connector. -/
theorem Idle.step {e : Event} (hi : c.Idle) (h : Inv c) (hl : e.Legal c) (hcall : ¬e.IsCall) (hs : c.step e = some c') :
    c'.Idle := by
  obtain ⟨hstate, hchannel, hwaiting⟩ := hi
  have hzero : c.queue.all.count .startInLoop = 0 ∧ c.timers = [] ∧ c.phase.expired = [] := by
    simp only [waiting] at hwaiting
    exact ⟨by omega, List.eq_nil_of_length_eq_zero (by omega), List.eq_nil_of_length_eq_zero (by omega)⟩
  obtain ⟨hqueued, htimers, hexpired⟩ := hzero
  cases turn_of_legal hl hcall hs with
  | @poll expired rest active _ hperm =>
    have hnil : expired ++ rest = [] := List.perm_nil.1 (htimers ▸ hperm)
    obtain ⟨rfl, rfl⟩ := List.append_eq_nil_iff.1 hnil
    exact ⟨hstate, hchannel, by simp [waiting, hqueued, Phase.expired]⟩
  | timer hphase =>
    rw [hphase] at hexpired
    cases hexpired
  | handleEvent | finish => exact ⟨hstate, hchannel, by simp [waiting, hqueued, htimers, Phase.expired]⟩
  | @callback _ _ f todo _ hphase hcallback =>
    have hin : f ∈ c.phase.todo := by
      rw [hphase]
      exact List.mem_cons_self
    cases f with
    | close | read =>
      cases hcallback
      exact ⟨hstate, hchannel, by simp [waiting, hqueued, htimers, Phase.expired]⟩
    | error => cases hstate.symm.trans (h.error hin)
    | write => exact absurd hchannel (h.write hin).1
  | doPendingFunctors hphase =>
    exact ⟨hstate, hchannel, by simp [waiting, h.all_swap hphase, hqueued, htimers, Phase.expired]⟩
  | @functor _ f batch _ _ hb hrun =>
    have hin : f ∈ c.queue.all := by
      rw [TaskQueue.all_of_batch hb]
      exact List.mem_cons_self
    cases f with
    | startInLoop => exact absurd hin (List.count_eq_zero.1 hqueued)
    | resetChannel =>
      obtain ⟨i, hc⟩ := h.removed.2 hin
      cases hchannel.symm.trans hc

theorem start_starts {inLoopThread : Bool} {e : Errno} (hs : c.step (.start inLoopThread e) = some c') :
    c'.starts = c.starts + 1 := by
  cases inLoopThread with
  | true => exact (startInLoop_untouched hs).starts
  | false =>
    cases hs
    rfl

/-- The invariant of the runs with one `start`. -/
structure OnceInv (c : Connector) : Prop where
  inv : Inv c
  fresh : c.starts = 0 → c.Idle

theorem OnceInv.careful {e : Event} (h : OnceInv c) (honce : c.Once e) : c.Careful e := by
  cases e with
  | start => exact h.fresh honce
  | restart => exact honce
  | _ => trivial

theorem OnceInv.step {e : Event} (h : OnceInv c) (hok : e.Legal c ∧ c.Once e) (hs : c.step e = some c') : OnceInv c' := by
  obtain ⟨hl, honce⟩ := hok
  obtain ⟨c₁, hs₁, hinv⟩ := h.inv.step hl (h.careful honce)
  cases hs.symm.trans hs₁
  refine ⟨hinv, fun hzero => ?_⟩
  by_cases hcall : e.IsCall
  · cases e with
    | start => exact absurd hzero (by rw [start_starts hs]; exact Nat.succ_ne_zero _)
    | restart e =>
      -- without a `start` no socket was handed over
      have hfresh : c.starts = 0 := (startInLoop_untouched hs).starts.symm.trans hzero
      cases (h.fresh hfresh).1.symm.trans (h.inv.handed_state honce.1)
    | stop =>
      cases hs
      exact absurd hzero (Nat.pos_iff_ne_zero.1 honce)
    | _ => exact absurd hcall id
  · exact (h.fresh ((step_frame h.inv hl hcall hs).starts.symm.trans hzero)).step h.inv hl hcall hs

theorem OnceInv.of_steps {es : List Event} (h : OnceSteps init es c) : OnceInv c :=
  h.invariant OnceInv OnceInv.step ⟨Inv.init, fun _ => ⟨rfl, rfl, rfl⟩⟩

/-- After `stop`, and as long as there is no `restart`, nothing is handed over. -/
theorem OnceInv.stopped {es : List Event} (h : OnceInv c) (hstop : c.connect_ = false) (hstart : 0 < c.starts)
    (hs : OnceSteps c es c') (hes : ∀ e, .restart e ∉ es) : c'.handed = c.handed := by
  induction hs with
  | nil => rfl
  | @cons c c₁ c₂ e es hok hs hrest ih =>
    have hkept : c₁.connect_ = false ∧ 0 < c₁.starts ∧ c₁.handed = c.handed := by
      by_cases hcall : e.IsCall
      · cases e with
        | start => exact absurd hok.2 (Nat.pos_iff_ne_zero.1 hstart)
        | restart e => exact absurd List.mem_cons_self (hes e)
        | stop =>
          cases hs
          exact ⟨rfl, hstart, rfl⟩
        | _ => exact absurd hcall id
      · have hframe := step_frame h.inv hok.1 hcall hs
        exact ⟨hframe.connect_.trans hstop, hframe.starts ▸ hstart, hframe.handed hstop⟩
    obtain ⟨hstop', hstart', hhanded⟩ := hkept
    exact (ih (h.step hok hs) hstop' hstart' fun e he => hes e (List.mem_cons_of_mem _ he)).trans hhanded

/-- The attempt on this socket has not ended. -/
def InProgress (c : Connector) (i : Nat) : Prop := c.state = .kConnecting ∧ c.channel.map Channel.fd = some i

theorem Inv.inProgress_iff (h : Inv c) : c.InProgress i ↔ c.channel = some ⟨i, true⟩ := by
  constructor
  · rintro ⟨hstate, hfd⟩
    obtain ⟨j, hc⟩ := h.connecting.1 hstate
    rw [hc] at hfd ⊢
    cases hfd
    rfl
  · intro hc
    exact ⟨h.connecting.2 ⟨i, hc⟩, by rw [hc]; rfl⟩

/-- The socket is closed once, or handed over once, and not both; while its attempt is under way, neither. -/
def Owned (c : Connector) (i : Nat) : Prop :=
  c.InProgress i ∧ i ∉ c.closed ∧ i ∉ c.handed ∨
    ¬c.InProgress i ∧ (c.closed.count i = 1 ∧ i ∉ c.handed ∨ i ∉ c.closed ∧ c.handed.count i = 1)

theorem Inv.owned (h : Inv c) (hi : i < c.sockets) : c.Owned i := by
  have hcount := h.count i
  simp only [Owned, h.inProgress_iff, ← List.count_eq_zero]
  by_cases hc : c.channel = some ⟨i, true⟩
  · rw [if_neg (fun hand => hand.2 hc)] at hcount
    exact .inl ⟨hc, by omega, by omega⟩
  · rw [if_pos ⟨hi, hc⟩] at hcount
    exact .inr ⟨hc, by omega⟩

theorem Inv.lt_sockets (h : Inv c) (hi : i ∈ c.closed ++ c.handed) : i < c.sockets := by
  by_contra hge
  have hcount := h.count i
  rw [if_neg (fun hand => hge hand.1), ← List.count_append] at hcount
  exact List.count_eq_zero.1 hcount hi

/-- **Every socket is closed or handed over, once.** In every run with one `start`, `stop` at any later time and a `restart` at most
for each socket handed over: no assert fails; a socket whose attempt has ended was closed by the connector or passed to
`newConnectionCallback_`, once, and not both; and after a `stop` no socket is handed over before the next `restart`. -/
theorem sockets_owned {es : List Event} (h : OnceSteps init es c) :
    (∀ i < c.sockets, c.Owned i) ∧ (∀ i ∈ c.closed ++ c.handed, i < c.sockets) ∧
    (∀ e, e.Legal c → c.Once e → ∃ c', c.step e = some c') ∧
    (∀ es' c', OnceSteps c (.stop :: es') c' → (∀ e, .restart e ∉ es') → c'.handed = c.handed) := by
  have honce := OnceInv.of_steps h
  refine ⟨fun i hi => honce.inv.owned hi, fun i hi => honce.inv.lt_sockets hi, fun e hl hcall => ?_, ?_⟩
  · obtain ⟨c', hc', _⟩ := honce.inv.step hl (honce.careful hcall)
    exact ⟨c', hc'⟩
  · rintro es' c' (_ | ⟨hok, hs, hrest⟩) hes
    cases hs
    exact OnceInv.stopped (c := c.stop) (honce.step hok rfl) rfl hok.2 hrest hes

/-- An attempt that fails by `POLLERR` and `POLLOUT` together, a retry that succeeds, and a `restart` that fails at once. -/
theorem sockets_owned_retry : ∃ c, OnceSteps init [.start true .EINPROGRESS, .poll [] [] (some 0x00c), .handleEvent, .callback 111 false,
      .callback 0 false, .doPendingFunctors, .functor .zero, .finish, .poll [500] [] none, .timer .EINPROGRESS, .handleEvent,
      .doPendingFunctors, .finish, .poll [] [] (some 0x004), .handleEvent, .callback 0 false, .doPendingFunctors, .functor .zero,
      .restart .EACCES, .stop] c ∧
    c.closed = [0, 2] ∧ c.handed = [1] ∧ ∀ i < 3, c.Owned i :=
  have h := Run.of_exec _ _ (by decide +kernel)
  ⟨_, h, by decide +kernel, by decide +kernel, fun i hi => (sockets_owned h).1 i (Nat.lt_of_lt_of_le hi (by decide +kernel))⟩

/-! ## `start` and `stop` in turn -/

/-- `start` and `stop` alternate, on the loop's thread. -/
def Alternating (c : Connector) : Event → Prop
  | .start inLoopThread _ => inLoopThread = true ∧ c.connect_ = false
  | .stop => c.connect_ = true
  | .restart _ => False
  | _ => True

/-- In addition, `start` finds the connector idle. -/
def Ready (c : Connector) (e : Event) : Prop := e.Legal c ∧ c.Alternating e ∧ c.Careful e

instance (c : Connector) : ∀ e : Event, Decidable (c.Alternating e)
  | .start _ _ => inferInstanceAs (Decidable (_ ∧ _))
  | .stop => inferInstanceAs (Decidable (c.connect_ = true))
  | .restart _ => .isFalse id
  | .poll _ _ _ | .timer _ | .handleEvent | .callback _ _ | .doPendingFunctors | .functor _ | .finish => .isTrue trivial

instance (c : Connector) : ∀ e : Event, Decidable (c.Careful e)
  | .start _ _ => inferInstanceAs (Decidable c.Idle)
  | .restart _ => inferInstanceAs (Decidable (_ ∧ _))
  | .stop | .poll _ _ _ | .timer _ | .handleEvent | .callback _ _ | .doPendingFunctors | .functor _ | .finish => .isTrue trivial

instance (c : Connector) (e : Event) : Decidable (c.Ready e) := inferInstanceAs (Decidable (_ ∧ _))

abbrev ReadySteps : Connector → List Event → Connector → Prop := Run step Ready

/-- The invariant of these runs: on the loop's thread `start` queues nothing. -/
structure ReadyInv (c : Connector) : Prop where
  inv : Inv c
  queue : ∀ f ∈ c.queue.all, f = .resetChannel

theorem ReadyInv.step {e : Event} (h : ReadyInv c) (hok : c.Ready e) (hs : c.step e = some c') : ReadyInv c' := by
  obtain ⟨hl, halt, hcareful⟩ := hok
  obtain ⟨c₁, hs₁, hinv⟩ := h.inv.step hl hcareful
  cases hs.symm.trans hs₁
  refine ⟨hinv, fun f hf => ?_⟩
  by_cases hcall : e.IsCall
  · cases e with
    | start inLoopThread e =>
      obtain ⟨rfl, _⟩ := halt
      exact ((startInLoop_untouched hs).frame.queue f hf).elim (h.queue f) id
    | restart => exact absurd halt id
    | stop =>
      cases hs
      exact h.queue f hf
    | _ => exact absurd hcall id
  · exact ((step_frame h.inv hl hcall hs).queue f hf).elim (h.queue f) id

theorem ReadyInv.steps {es : List Event} (h : ReadyInv c) (hs : ReadySteps c es c') : ReadyInv c' :=
  hs.invariant ReadyInv ReadyInv.step h

theorem ReadyInv.init : ReadyInv init := ⟨Inv.init, nofun⟩

/-! ### The end of an iteration in which nothing is left to do -/

theorem steps_of_functors (hq : c.queue = ⟨[], []⟩) (hphase : c.phase = .functors) : ReadySteps c [.finish] { c with phase := .outside } :=
  .cons ⟨⟨hphase, by rw [hq]⟩, trivial, trivial⟩ rfl (.nil _)

theorem steps_of_channels {todo : List Callback} (hq : c.queue = ⟨[], []⟩) (hphase : c.phase = .channels todo)
    (htodo : ∀ f ∈ todo, f = .close ∨ f = .read) : ∃ es, ReadySteps c es { c with phase := .outside } := by
  induction todo generalizing c with
  | nil =>
    have hrun := steps_of_functors (c := { c with phase := .functors }) hq rfl
    refine ⟨.doPendingFunctors :: [.finish], .cons ⟨hphase, trivial, trivial⟩ ?_ hrun⟩
    simp only [Connector.step, hq]
    rfl
  | cons f todo ih =>
    obtain ⟨es, hrun⟩ := ih (c := { c with phase := .channels todo }) hq rfl fun g hg => htodo g (List.mem_cons_of_mem f hg)
    refine ⟨.callback 0 false :: es, .cons ⟨?_, trivial, trivial⟩ ?_ hrun⟩
    · change c.phase.todo ≠ []
      rw [hphase]
      exact List.cons_ne_nil f todo
    · rcases htodo f List.mem_cons_self with rfl | rfl
      · simp only [Connector.step, hphase, callback]
      · simp only [Connector.step, hphase, callback]

/-- The iteration of a connector without functors, expired timers and events to handle comes to its end. -/
theorem steps_outside (hq : c.queue = ⟨[], []⟩) (hexpired : c.phase.expired = []) (hactive : c.phase.active = none)
    (htodo : ∀ f ∈ c.phase.todo, f = .close ∨ f = .read) : ∃ es, ReadySteps c es { c with phase := .outside } := by
  cases hphase : c.phase with
  | outside =>
    refine ⟨[], ?_⟩
    rw [← hphase]
    exact .nil c
  | timers expired active =>
    rw [hphase] at hexpired hactive
    replace hexpired : expired = [] := hexpired
    replace hactive : active = none := hactive
    subst hexpired hactive
    obtain ⟨es, hrun⟩ := steps_of_channels (c := { c with phase := .channels [] }) hq rfl nofun
    refine ⟨.handleEvent :: es, .cons ⟨?_, trivial, trivial⟩ ?_ hrun⟩
    · change c.phase = .timers [] c.phase.active
      rw [hphase]
      rfl
    · simp only [Connector.step, hphase]
      rfl
  | channels todo =>
    rw [hphase] at htodo
    exact steps_of_channels hq hphase htodo
  | functors => exact ⟨_, steps_of_functors hq hphase⟩

/-! ### A `start` that comes too early -/

theorem startInLoop_eq_none (hs : c.state ≠ .kDisconnected) (e : Errno) : c.startInLoop e = none := by
  simp [startInLoop, check, hs]

theorem timer_eq_none (hs : c.state ≠ .kDisconnected) (e : Errno) : c.step (.timer e) = none := by
  simp only [Connector.step]
  split
  · exact startInLoop_eq_none (by exact hs) e
  · rfl

/-- What comes after passes its asserts, as long as `start` finds the connector idle. -/
def Safe (c : Connector) : Prop := ∀ es c₁, ReadySteps c es c₁ → ∀ e, c₁.Ready e → ∃ c₂, c₁.step e = some c₂

theorem ReadyInv.safe (h : ReadyInv c) : c.Safe := by
  intro es c₁ hs e hok
  obtain ⟨c₂, hc₂, _⟩ := (h.steps hs).inv.step hok.1 hok.2.2
  exact ⟨c₂, hc₂⟩

/-- A connector that is connecting, with a timer of an earlier attempt still set. -/
theorem not_safe_of_timer (hs : c.state = .kConnecting) (hq : c.queue = ⟨[], []⟩) (hactive : c.phase.active = none)
    (htodo : ∀ f ∈ c.phase.todo, f = .close ∨ f = .read) (hw : 0 < c.waiting) : ¬c.Safe := by
  intro hsafe
  have hstate : c.state ≠ .kDisconnected := by
    rw [hs]
    exact nofun
  by_cases hexpired : c.phase.expired = []
  · -- the timer runs in the next iteration
    have htimers : c.timers ≠ [] := by
      intro hnil
      simp [waiting, hq, hexpired, hnil, TaskQueue.all] at hw
    obtain ⟨es, hrun⟩ := steps_outside hq hexpired hactive htodo
    have hpoll : ReadySteps { c with phase := .outside } [.poll c.timers [] none]
        { c with timers := [], phase := .timers c.timers none } :=
      .cons ⟨⟨rfl, by rw [List.append_nil], fun hne => absurd rfl hne⟩, trivial, trivial⟩ rfl (.nil _)
    obtain ⟨c₂, hc₂⟩ := hsafe _ _ (hrun.append hpoll) (.timer .zero) ⟨htimers, trivial, trivial⟩
    rw [timer_eq_none (by exact hstate)] at hc₂
    cases hc₂
  · obtain ⟨c₂, hc₂⟩ := hsafe [] c (.nil c) (.timer .zero) ⟨hexpired, trivial, trivial⟩
    rw [timer_eq_none hstate] at hc₂
    cases hc₂

theorem ReadyInv.idle_of_start (h : ReadyInv c)
    (hstart : ∀ e, ∃ c', c.step (.start true e) = some c' ∧ c'.Safe) : c.Idle := by
  obtain ⟨c', hs, hsafe⟩ := hstart .EINPROGRESS
  have hstate : c.state = .kDisconnected := by
    by_contra hne
    cases (startInLoop_eq_none (c := { c with connect_ := true, starts := c.starts + 1 }) hne .EINPROGRESS).symm.trans hs
  have hchannel : c.channel = none := by
    by_contra hne
    simp [Connector.step, start, startInLoop, connect, connecting, check, hstate, hne] at hs
  refine ⟨hstate, hchannel, ?_⟩
  by_contra hw
  have hq : c.queue = ⟨[], []⟩ := by
    have hall : c.queue.all = [] := by
      refine List.eq_nil_iff_forall_not_mem.2 fun f hf => ?_
      cases h.queue f hf
      obtain ⟨i, hc⟩ := h.inv.removed.2 hf
      cases hchannel.symm.trans hc
    obtain ⟨hb, hp⟩ := List.append_eq_nil_iff.1 hall
    cases hqueue : c.queue
    rw [hqueue] at hb hp
    cases hb
    cases hp
    rfl
  simp only [Connector.step, start, startInLoop, connect, connecting, hstate, hchannel, check_of, if_true, Option.bind_eq_bind,
    Option.bind_some, Option.pure_def, Option.some.injEq] at hs
  subst hs
  refine not_safe_of_timer (by rfl) (by exact hq) ?_ ?_ (by exact Nat.pos_of_ne_zero hw) hsafe
  · by_contra hne
    cases hstate.symm.trans (h.inv.active hne)
  · intro f hf
    cases f with
    | close => exact .inl rfl
    | read => exact .inr rfl
    | error => cases hstate.symm.trans (h.inv.error hf)
    | write => exact absurd hchannel (h.inv.write hf).1

/-- A socket that was neither closed nor handed over. -/
def Open (c : Connector) (i : Nat) : Prop := i < c.sockets ∧ i ∉ c.closed ∧ i ∉ c.handed

theorem Inv.channel_of_open (h : Inv c) (hi : c.Open i) : c.channel = some ⟨i, true⟩ := by
  obtain ⟨hlt, hclosed, hhanded⟩ := hi
  have hcount := h.count i
  rw [List.count_eq_zero.2 hclosed, List.count_eq_zero.2 hhanded] at hcount
  by_contra hne
  rw [if_pos ⟨hlt, hne⟩] at hcount
  cases hcount

/-- **`start` and `stop` in turn are safe exactly if `start` finds the connector idle.** In every run in which `start` does so,
no assert fails and there is one attempt at most; and where it does not, the asserts can fail, in the call or later. -/
theorem start_stop_safe_iff {es : List Event} (h : ReadySteps init es c) :
    (∀ e, c.Ready e → ∃ c', c.step e = some c') ∧ (∀ i j, c.Open i → c.Open j → i = j) ∧
    (c.connect_ = false → ((∀ e, ∃ c', c.step (.start true e) = some c' ∧ c'.Safe) ↔ c.Idle)) := by
  have hready := ReadyInv.init.steps h
  refine ⟨fun e hok => hready.safe [] c (.nil c) e hok, fun i j hi hj => ?_, fun hstop => ⟨hready.idle_of_start, ?_⟩⟩
  · cases (hready.inv.channel_of_open hi).symm.trans (hready.inv.channel_of_open hj)
    rfl
  · intro hidle e
    have hok : c.Ready (.start true e) := ⟨trivial, ⟨rfl, hstop⟩, hidle⟩
    obtain ⟨c', hc', _⟩ := hready.inv.step hok.1 hok.2.2
    exact ⟨c', hc', (hready.step hok hc').safe⟩

/-- An attempt that is refused after `stop` leaves nothing behind, so that the next `start` makes the second one. -/
theorem start_stop_safe_refused : ∃ c, ReadySteps init [.start true .EINPROGRESS, .stop, .poll [] [] (some 0x00c), .handleEvent,
      .callback 111 false, .callback 0 false, .doPendingFunctors, .functor .zero, .finish] c ∧
    c.Idle ∧ (∀ e, ∃ c', c.step (.start true e) = some c' ∧ c'.Safe) :=
  have h := Run.of_exec _ _ (by decide +kernel)
  ⟨_, h, by decide +kernel, ((start_stop_safe_iff h).2.2 (by decide +kernel)).2 (by decide +kernel)⟩

/-- The attempt is under way when `start` is called again; or its timer is still set, and runs while the second attempt is under way. -/
theorem second_start_fails :
    (∃ c, Run step (fun c e => e.Legal c ∧ c.Alternating e) init [.start true .EINPROGRESS, .stop] c ∧
      ∀ e, c.Alternating (.start true e) ∧ c.step (.start true e) = none) ∧
    (∃ c, Run step (fun c e => e.Legal c ∧ c.Alternating e) init
        [.start true .ECONNREFUSED, .stop, .start true .EINPROGRESS, .poll [500] [] none] c ∧
      ∀ e, Event.Legal c (.timer e) ∧ c.step (.timer e) = none) := by
  refine ⟨⟨_, Run.of_exec _ _ (by decide +kernel), fun e => ⟨⟨rfl, rfl⟩, rfl⟩⟩,
    ⟨_, Run.of_exec _ _ (by decide +kernel), fun e => ⟨List.cons_ne_nil 500 [], rfl⟩⟩⟩

end Connector
end ChatReactor
