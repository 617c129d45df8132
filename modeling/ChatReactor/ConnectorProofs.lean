import ChatReactor.Connector

/-!
# One attempt at a time

`Inv` is what holds in every run in which `start` is called only where the connector is `Idle`, and `restart` only for a socket that was
handed over. There is then at most one of: a `startInLoop` that is queued or will be run by a timer, an attempt that is
connecting, a socket handed over and not restarted for. The queued `resetChannel` stands between the removal of a channel and
the next attempt; it runs in the iteration it was queued in, before the timers of the next one.
-/

namespace ChatReactor
namespace Connector

/-- The calls of `startInLoop` to come. -/
def waiting (c : Connector) : Nat := c.queue.all.count .startInLoop + c.timers.length + c.phase.expired.length

/-- No attempt is under way or to come, and nothing is left of the last one. -/
def Idle (c : Connector) : Prop := c.state = .kDisconnected ∧ c.channel = none ∧ c.waiting = 0

instance (c : Connector) : Decidable c.Idle := inferInstanceAs (Decidable (_ ∧ _))

/-- A call that finds the connector ready for it. -/
def Careful (c : Connector) : Event → Prop
  | .start _ _ => c.Idle
  | .restart _ => c.restarts < c.handed.length ∧ .resetChannel ∉ c.queue.all
  | _ => True

structure Inv (c : Connector) : Prop where
  waiting_le : c.waiting ≤ 1
  waiting_state : 0 < c.waiting → c.state = .kDisconnected
  queued_channel : .startInLoop ∈ c.queue.all → c.channel = none
  restarts_le : c.restarts ≤ c.handed.length ∧ c.handed.length ≤ c.restarts + 1
  handed_state : c.restarts < c.handed.length → c.state = .kConnected
  connecting : c.state = .kConnecting ↔ ∃ i, c.channel = some ⟨i, true⟩
  removed : (∃ i, c.channel = some ⟨i, false⟩) ↔ .resetChannel ∈ c.queue.all
  resets_le : c.queue.all.count .resetChannel ≤ 1
  batch : c.phase ≠ .functors → c.queue.batch = []
  pending : .resetChannel ∈ c.queue.pending → ∃ todo, c.phase = .channels todo
  active : c.phase.active ≠ none → c.state = .kConnecting
  todo : c.phase.todo.Sublist [.close, .error, .read, .write]
  error : .error ∈ c.phase.todo → c.state = .kConnecting
  write : .write ∈ c.phase.todo → c.channel ≠ none ∧ c.state ≠ .kConnected
  fd_lt : ∀ {i b}, c.channel = some ⟨i, b⟩ → i < c.sockets
  count : ∀ i, c.closed.count i + c.handed.count i = if i < c.sockets ∧ c.channel ≠ some ⟨i, true⟩ then 1 else 0

variable {c c' : Connector} {i : Nat} {todo : List Callback}

theorem Inv.init : Inv init := by
  constructor <;> simp [Connector.init, waiting, TaskQueue.all, Phase.expired, Phase.active, Phase.todo]

theorem handleEvent_sublist (revents : BitVec 32) :
    (ChatReactor.handleEvent revents).Sublist [.close, .error, .read, .write] := by
  unfold ChatReactor.handleEvent
  split_ifs <;> decide

theorem Inv.idle_of_kConnected (h : Inv c) (hs : c.state = .kConnected) (hr : .resetChannel ∉ c.queue.all) :
    c.channel = none ∧ c.waiting = 0 := by
  constructor
  · cases hc : c.channel with
    | none => rfl
    | some ch =>
      obtain ⟨i, b⟩ := ch
      cases b with
      | true => cases hs.symm.trans (h.connecting.2 ⟨i, hc⟩)
      | false => exact absurd (h.removed.1 ⟨i, hc⟩) hr
  · by_contra hw
    cases hs.symm.trans (h.waiting_state (Nat.pos_of_ne_zero hw))

theorem Inv.waiting_eq_zero (h : Inv c) (hs : c.state = .kConnecting) : c.waiting = 0 := by
  by_contra hw
  cases hs.symm.trans (h.waiting_state (Nat.pos_of_ne_zero hw))

theorem Inv.handed_eq (h : Inv c) (hs : c.state ≠ .kConnected) : c.handed.length = c.restarts := by
  have hle := h.restarts_le
  by_contra hne
  exact hs (h.handed_state (by omega))

/-! ## The functions -/

/-- `connect`, in each of its cases. -/
inductive Connected (c : Connector) : Connector → Prop
  | connecting : Connected c { c with sockets := c.sockets + 1, state := .kConnecting, channel := some ⟨c.sockets, true⟩ }
  | retry : Connected c (({ c with sockets := c.sockets + 1 }).retry c.sockets)
  | close : Connected c (({ c with sockets := c.sockets + 1 }).close c.sockets)

theorem connect_cases (hc : c.channel = none) (e : Errno) : ∃ c', c.connect e = some c' ∧ Connected c c' := by
  cases e
  case zero | EINPROGRESS | EINTR | EISCONN => exact ⟨_, by simp [connect, Connector.connecting, hc], .connecting⟩
  case EAGAIN | EADDRINUSE | EADDRNOTAVAIL | ECONNREFUSED | ENETUNREACH => exact ⟨_, rfl, .retry⟩
  all_goals exact ⟨_, rfl, .close⟩

theorem Idle.not_queued (hi : c.Idle) : .startInLoop ∉ c.queue.all := by
  intro hin
  have hpos := List.count_pos_iff.2 hin
  have hzero := hi.2.2
  unfold waiting at hzero
  omega

/-- A socket that was made and closed at once. -/
theorem Inv.closed (h : Inv c) (hi : c.Idle) : Inv (({ c with sockets := c.sockets + 1 }).close c.sockets) := by
  obtain ⟨hstate, hchannel, hwaiting⟩ := hi
  refine { h with fd_lt := fun hc => ?_, count := fun i => ?_ }
  · cases hchannel.symm.trans hc
  · have hcount := h.count i
    simp only [close, hchannel, List.count_append, List.count_singleton, beq_iff_eq] at hcount ⊢
    by_cases hi : c.sockets = i
    · subst hi
      simp at hcount ⊢
      omega
    · have hlt : i < c.sockets + 1 ↔ i < c.sockets := by omega
      simpa [hi, hlt] using hcount

/-- A timer is set where there was none. -/
theorem Inv.runAfter (h : Inv c) (hs : c.state = .kDisconnected) (hw : c.waiting = 0) (d d' : Nat) :
    Inv { c with timers := c.timers ++ [d], retryDelayMs := d' } := by
  have hone : waiting { c with timers := c.timers ++ [d], retryDelayMs := d' } = 1 := by
    simp only [waiting, List.length_append, List.length_singleton] at hw ⊢
    omega
  exact { h with waiting_le := hone.le, waiting_state := fun _ => hs }

theorem Inv.retry {sockfd : Nat} (h : Inv { c.close sockfd with state := .kDisconnected }) (hw : c.waiting = 0) :
    Inv (c.retry sockfd) := by
  simp only [Connector.retry]
  split
  · exact h.runAfter rfl hw _ _
  · exact h

theorem Inv.connected (h : Inv c) (hi : c.Idle) (hc : Connected c c') : Inv c' := by
  have hidle := hi
  obtain ⟨hstate, hchannel, hwaiting⟩ := hi
  cases hc with
  | close => exact h.closed hidle
  | retry =>
    refine Inv.retry ?_ hwaiting
    rw [← hstate]
    exact h.closed hidle
  | connecting =>
    have hzero : ¬0 < c.waiting := by omega
    refine { h with
      waiting_state := fun hw => absurd hw hzero
      queued_channel := fun hin => absurd hin hidle.not_queued
      handed_state := fun hlt => ?_
      connecting := ⟨fun _ => ⟨_, rfl⟩, fun _ => rfl⟩
      removed := ⟨fun hex => ?_, fun hin => ?_⟩
      active := fun _ => rfl
      error := fun _ => rfl
      write := fun _ => ⟨nofun, nofun⟩
      fd_lt := fun hc => ?_
      count := fun i => ?_ }
    · cases hstate.symm.trans (h.handed_state hlt)
    · obtain ⟨i, hi⟩ := hex
      cases hi
    · obtain ⟨i, hi⟩ := h.removed.2 hin
      cases hchannel.symm.trans hi
    · cases hc
      exact Nat.lt_succ_self _
    · have hcount := h.count i
      rw [hcount]
      refine if_congr ?_ rfl rfl
      simp [hchannel]
      omega

/-- `startInLoop` passes its asserts where the connector is idle. -/
theorem Inv.startInLoop (h : Inv c) (hi : c.Idle) (e : Errno) : ∃ c', c.startInLoop e = some c' ∧ Inv c' := by
  unfold Connector.startInLoop
  rw [check_of hi.1]
  simp only [Option.bind_eq_bind, Option.bind_some]
  split
  · obtain ⟨c', hc', hcases⟩ := connect_cases hi.2.1 e
    exact ⟨c', hc', h.connected hi hcases⟩
  · exact ⟨c, rfl, h⟩

/-! ## The handlers -/

/-- The end of an attempt: the channel is removed, and its socket closed or handed over. -/
theorem Inv.ended (h : Inv c) (hphase : c.phase = .channels todo) (hchannel : c.channel = some ⟨i, true⟩) {state : States}
    {closed handed : List Nat} (herror : .error ∉ todo) (hwrite : .write ∈ todo → state = .kDisconnected) (hstate : state ≠ .kConnecting)
    (hhanded : handed.length = c.restarts ∨ handed.length = c.restarts + 1 ∧ state = .kConnected)
    (hcount : ∀ j, closed.count j + handed.count j = c.closed.count j + c.handed.count j + if i = j then 1 else 0) :
    Inv { c with
      state := state, channel := some ⟨i, false⟩, queue := c.queue.push .resetChannel, closed := closed, handed := handed } := by
  have hconnecting : c.state = .kConnecting := h.connecting.2 ⟨i, hchannel⟩
  have hw : c.queue.all.count .startInLoop + c.timers.length + c.phase.expired.length = 0 := h.waiting_eq_zero hconnecting
  have hreset : .resetChannel ∉ c.queue.all := by
    intro hin
    obtain ⟨j, hj⟩ := h.removed.2 hin
    cases hchannel.symm.trans hj
  have hzero : waiting { c with
      state := state, channel := some ⟨i, false⟩, queue := c.queue.push .resetChannel, closed := closed, handed := handed } = 0 := by
    simpa [waiting] using hw
  have htodo : c.phase.todo = todo := by rw [hphase]; rfl
  have hlen : c.restarts ≤ handed.length ∧ handed.length ≤ c.restarts + 1 := by omega
  refine {
    waiting_le := by omega
    waiting_state := fun hpos => by omega
    queued_channel := fun hin => ?_
    restarts_le := hlen
    handed_state := fun hlt => ?_
    connecting := ⟨fun hs => absurd hs hstate, fun ⟨_, hc⟩ => by cases hc⟩
    removed := ⟨fun _ => by simp, fun _ => ⟨i, rfl⟩⟩
    resets_le := by simp [List.count_eq_zero.2 hreset]
    batch := h.batch
    pending := fun _ => ⟨todo, hphase⟩
    active := fun hne => ?_
    todo := h.todo
    error := fun hin => absurd (htodo ▸ hin) herror
    write := fun hin => ⟨nofun, ?_⟩
    fd_lt := fun hc => ?_
    count := fun j => ?_ }
  · rw [TaskQueue.all_push, List.mem_append] at hin
    rcases hin with hin | hin
    · have := List.count_pos_iff.2 hin
      omega
    · simp at hin
  · rcases hhanded with hlen | ⟨_, hs⟩
    · exact absurd (hlen ▸ hlt) (Nat.lt_irrefl c.restarts)
    · exact hs
  · rw [show c.phase.active = none by rw [hphase]; rfl] at hne
    exact absurd rfl hne
  · rw [show state = .kDisconnected from hwrite (htodo ▸ hin)]
    exact nofun
  · cases hc
    exact h.fd_lt hchannel
  · have hbefore := h.count j
    have hlt := h.fd_lt hchannel
    rw [hcount j, hbefore, hchannel]
    by_cases hj : i = j
    · subst hj
      simp [hlt]
    · simp [hj]

/-- The loop moves on to the phase `p`: the queue may be swapped and timers taken into the batch, and the callbacks of `p` find the
connector as they need it. -/
theorem Inv.move {p : Phase} {timers : List Nat} {queue : TaskQueue Functor} (h : Inv c) (hall : queue.all = c.queue.all)
    (hwaiting : timers.length + p.expired.length ≤ c.timers.length + c.phase.expired.length)
    (hbatch : p ≠ .functors → queue.batch = []) (hpending : .resetChannel ∈ queue.pending → ∃ todo, p = .channels todo)
    (hactive : p.active ≠ none → c.state = .kConnecting) (htodo : p.todo.Sublist [.close, .error, .read, .write])
    (herror : .error ∈ p.todo → c.state = .kConnecting) (hwrite : .write ∈ p.todo → c.channel ≠ none ∧ c.state ≠ .kConnected) :
    Inv { c with phase := p, timers := timers, queue := queue } := by
  have hle : waiting { c with phase := p, timers := timers, queue := queue } ≤ c.waiting := by
    simp only [waiting, hall]
    omega
  exact { h with
    waiting_le := hle.trans h.waiting_le
    waiting_state := fun hpos => h.waiting_state (hpos.trans_le hle)
    queued_channel := fun hin => h.queued_channel (hall ▸ hin)
    removed := hall ▸ h.removed
    resets_le := hall ▸ h.resets_le
    batch := hbatch
    pending := hpending
    active := hactive
    todo := htodo
    error := herror
    write := hwrite }

/-- Outside the phase of the channels no `resetChannel` waits for the next swap. -/
theorem Inv.not_pending (h : Inv c) (hphase : ∀ todo, c.phase ≠ .channels todo) : .resetChannel ∉ c.queue.pending := by
  intro hin
  obtain ⟨todo, htodo⟩ := h.pending hin
  exact hphase todo htodo

/-- The next callback is taken. -/
theorem Inv.next {f : Callback} (h : Inv c) (hphase : c.phase = .channels (f :: todo)) : Inv { c with phase := .channels todo } := by
  have hmem {g : Callback} (hg : g ∈ todo) : g ∈ c.phase.todo := by
    rw [hphase]
    exact List.mem_cons_of_mem f hg
  have htodo := h.todo
  rw [hphase] at htodo
  refine h.move rfl ?_ (fun _ => h.batch (by simp [hphase])) (fun _ => ⟨todo, rfl⟩) (fun hne => absurd rfl hne) ?_
    (fun hin => h.error (hmem hin)) (fun hin => h.write (hmem hin))
  · rw [hphase]
    exact le_rfl
  · exact (List.sublist_cons_self f todo).trans htodo

theorem removeAndResetChannel_eq (hc : c.channel = some ⟨i, true⟩) : c.removeAndResetChannel =
    some (i, { c with channel := some ⟨i, false⟩, queue := c.queue.push .resetChannel }) := by
  simp [removeAndResetChannel, hc]

theorem count_closed (closed handed : List Nat) (i j : Nat) :
    (closed ++ [i]).count j + handed.count j = closed.count j + handed.count j + if i = j then 1 else 0 := by
  simp [List.count_singleton]
  omega

theorem count_handed (closed handed : List Nat) (i j : Nat) :
    closed.count j + (handed ++ [i]).count j = closed.count j + handed.count j + if i = j then 1 else 0 := by
  simp [List.count_singleton]
  omega

/-- `retry`, after the channel was removed. -/
theorem Inv.retried (h : Inv c) (hphase : c.phase = .channels todo) (hc : c.channel = some ⟨i, true⟩) (herror : .error ∉ todo) :
    Inv (({ c with channel := some ⟨i, false⟩, queue := c.queue.push .resetChannel }).retry i) := by
  have hstate : c.state = .kConnecting := h.connecting.2 ⟨i, hc⟩
  have hhanded := h.handed_eq (by rw [hstate]; exact nofun)
  refine Inv.retry ?_ ?_
  · exact h.ended hphase hc herror (fun _ => rfl) nofun (.inl hhanded) (count_closed _ _ i)
  · simpa [waiting] using h.waiting_eq_zero hstate

theorem Inv.handleError (h : Inv c) (hphase : c.phase = .channels todo) (hs : c.state = .kConnecting) (herror : .error ∉ todo) :
    ∃ c', c.handleError = some c' ∧ Inv c' := by
  obtain ⟨i, hc⟩ := h.connecting.1 hs
  refine ⟨_, ?_, h.retried hphase hc herror⟩
  simp [Connector.handleError, hs, removeAndResetChannel_eq hc]

/-- `handleWrite` is the last callback of an event. -/
theorem Inv.handleWrite (h : Inv c) (hphase : c.phase = .channels []) (hs : c.state ≠ .kConnected) (err : Nat)
    (isSelfConnect : Bool) : ∃ c', c.handleWrite err isSelfConnect = some c' ∧ Inv c' := by
  unfold Connector.handleWrite
  by_cases hconn : c.state = .kConnecting
  · obtain ⟨i, hc⟩ := h.connecting.1 hconn
    have hhanded := h.handed_eq hs
    simp only [hconn, if_true, removeAndResetChannel_eq hc, Option.bind_eq_bind, Option.bind_some]
    split_ifs
    · exact ⟨_, rfl, h.retried hphase hc List.not_mem_nil⟩
    · exact ⟨_, rfl, h.retried hphase hc List.not_mem_nil⟩
    · refine ⟨_, rfl, h.ended hphase hc List.not_mem_nil nofun nofun (.inr ⟨?_, rfl⟩) (count_handed _ _ i)⟩
      rw [List.length_append, hhanded, List.length_singleton]
    · exact ⟨_, rfl, h.ended hphase hc List.not_mem_nil nofun nofun (.inl hhanded) (count_closed _ _ i)⟩
  · have hdis : c.state = .kDisconnected := by
      cases hstate : c.state with
      | kDisconnected => rfl
      | kConnecting => exact absurd hstate hconn
      | kConnected => exact absurd hstate hs
    exact ⟨c, by simp [hdis], h⟩

theorem Inv.callback {f : Callback} (h : Inv c) (hphase : c.phase = .channels (f :: todo)) (err : Nat) (isSelfConnect : Bool) :
    ∃ c', ({ c with phase := .channels todo } : Connector).callback err isSelfConnect f = some c' ∧ Inv c' := by
  have hnext := h.next hphase
  have hsub := h.todo
  have hin : f ∈ c.phase.todo := by
    rw [hphase]
    exact List.mem_cons_self
  rw [hphase] at hsub
  cases f with
  | close => exact ⟨_, rfl, hnext⟩
  | read => exact ⟨_, rfl, hnext⟩
  | error =>
    refine hnext.handleError rfl (h.error hin) fun herror => ?_
    exact (List.nodup_cons.1 (hsub.nodup (by decide))).1 herror
  | write =>
    have hlast : todo = [] := by simpa [Phase.todo, List.sublist_cons_iff] using hsub
    subst hlast
    exact hnext.handleWrite rfl (h.write hin).2 err isSelfConnect

/-! ## The events of the loop -/

theorem Inv.pushStart (h : Inv c) (hi : c.Idle) : Inv { c with queue := c.queue.push .startInLoop } := by
  have hwaiting : waiting { c with queue := c.queue.push .startInLoop } = 1 := by
    have hzero := hi.2.2
    simp only [waiting, TaskQueue.all_push, List.count_append, List.count_singleton_self] at hzero ⊢
    omega
  refine { h with
    waiting_le := hwaiting.le
    waiting_state := fun _ => hi.1
    queued_channel := fun _ => hi.2.1
    removed := ⟨fun hc => ?_, fun hin => ?_⟩
    resets_le := ?_
    pending := fun hin => ?_ }
  · exact TaskQueue.all_push c.queue .startInLoop ▸ List.mem_append_left _ (h.removed.1 hc)
  · rw [TaskQueue.all_push] at hin
    exact h.removed.2 (by simpa using hin)
  · simpa using h.resets_le
  · exact h.pending (by simpa [TaskQueue.push] using hin)

/-- `restart`, before it calls `startInLoop`. -/
theorem Inv.restarted (h : Inv c) (hlt : c.restarts < c.handed.length) (hreset : .resetChannel ∉ c.queue.all) :
    let c' := { c with state := .kDisconnected, retryDelayMs := kInitRetryDelayMs, connect_ := true, restarts := c.restarts + 1 }
    Inv c' ∧ c'.Idle := by
  have hstate := h.handed_state hlt
  obtain ⟨hchannel, hwaiting⟩ := h.idle_of_kConnected hstate hreset
  have hle := h.restarts_le
  refine ⟨{ h with
    waiting_state := fun _ => rfl
    restarts_le := ⟨hlt, by dsimp only; omega⟩
    handed_state := fun hlt' => by dsimp only at hlt'; omega
    connecting := ⟨nofun, fun ⟨i, hc⟩ => by cases hchannel.symm.trans hc⟩
    active := fun hne => by cases hstate.symm.trans (h.active hne)
    error := fun hin => by cases hstate.symm.trans (h.error hin)
    write := fun hin => absurd hchannel (h.write hin).1 }, rfl, hchannel, hwaiting⟩

theorem Inv.poll {expired rest : List Nat} {active : Option (BitVec 32)} (h : Inv c) (hphase : c.phase = .outside)
    (hperm : (expired ++ rest).Perm c.timers) (hactive : active ≠ none → c.channel.map Channel.inPoller = some true) :
    Inv { c with timers := rest, phase := .timers expired active } := by
  refine h.move rfl ?_ (fun _ => h.batch (by simp [hphase])) (fun hin => ?_) (fun hne => ?_) (List.nil_sublist _) nofun nofun
  · have hlen := hperm.length_eq
    simp only [hphase, Phase.expired, List.length_append, List.length_nil] at hlen ⊢
    omega
  · exact absurd hin (h.not_pending (by simp [hphase]))
  · obtain ⟨⟨i, b⟩, hc, rfl⟩ := Option.map_eq_some_iff.1 (hactive hne)
    exact h.connecting.2 ⟨i, hc⟩

/-- A timer's turn: the channel of the last attempt is gone, since `resetChannel` has run. -/
theorem Inv.timer {d : Nat} {expired : List Nat} {active : Option (BitVec 32)} (h : Inv c)
    (hphase : c.phase = .timers (d :: expired) active) :
    let c' := { c with phase := .timers expired active }
    Inv c' ∧ c'.Idle := by
  have hle : c.queue.all.count .startInLoop + c.timers.length + (expired.length + 1) ≤ 1 := by
    have hle := h.waiting_le
    simp only [waiting, hphase] at hle
    exact hle
  have hzero : waiting { c with phase := .timers expired active } = 0 := by
    simp only [waiting, Phase.expired]
    omega
  have hstate : c.state = .kDisconnected := by
    refine h.waiting_state ?_
    simp only [waiting, hphase, Phase.expired, List.length_cons]
    omega
  have hchannel : c.channel = none := by
    cases hc : c.channel with
    | none => rfl
    | some ch =>
      obtain ⟨i, b⟩ := ch
      cases b with
      | true => cases hstate.symm.trans (h.connecting.2 ⟨i, hc⟩)
      | false =>
        have hin := h.removed.1 ⟨i, hc⟩
        rw [TaskQueue.all, h.batch (by simp [hphase])] at hin
        exact absurd hin (h.not_pending (by simp [hphase]))
  refine ⟨?_, hstate, hchannel, hzero⟩
  refine h.move rfl ?_ (fun _ => h.batch (by simp [hphase])) (fun hin => ?_) (fun hne => ?_) (List.nil_sublist _)
    (fun hin => by cases hin) (fun hin => by cases hin)
  · rw [hphase]
    simp [Phase.expired]
  · exact absurd hin (h.not_pending (by simp [hphase]))
  · exact h.active (by rw [hphase]; exact hne)

theorem Inv.handleEvent {active : Option (BitVec 32)} (h : Inv c) (hphase : c.phase = .timers [] active) :
    Inv { c with phase := .channels ((active.map ChatReactor.handleEvent).getD []) } := by
  have hconnecting {f : Callback} (hin : f ∈ (active.map ChatReactor.handleEvent).getD []) : c.state = .kConnecting := by
    refine h.active fun hnone => ?_
    rw [hphase] at hnone
    replace hnone : active = none := hnone
    simp [hnone] at hin
  refine h.move rfl ?_ (fun _ => h.batch (by simp [hphase])) (fun _ => ⟨_, rfl⟩) (fun hne => absurd rfl hne) ?_ hconnecting
    (fun hin => ?_)
  · rw [hphase]
    exact le_rfl
  · cases active with
    | none => exact List.nil_sublist _
    | some revents => exact handleEvent_sublist revents
  · have hstate := hconnecting hin
    obtain ⟨i, hc⟩ := h.connecting.1 hstate
    exact ⟨by rw [hc]; exact nofun, by rw [hstate]; exact nofun⟩

theorem Inv.all_swap (h : Inv c) (hphase : c.phase = .channels todo) : c.queue.swap.all = c.queue.all :=
  TaskQueue.all_swap (h.batch (by simp [hphase]))

theorem Inv.doPendingFunctors (h : Inv c) (hphase : c.phase = .channels []) :
    Inv { c with phase := .functors, queue := c.queue.swap } := by
  refine h.move (h.all_swap hphase) ?_ (fun hne => absurd rfl hne) nofun (fun hne => absurd rfl hne) (List.nil_sublist _) nofun nofun
  rw [hphase]
  exact le_rfl

theorem Inv.finish (h : Inv c) (hphase : c.phase = .functors) (hb : c.queue.batch = []) : Inv { c with phase := .outside } := by
  refine h.move rfl ?_ (fun _ => hb) (fun hin => ?_) (fun hne => absurd rfl hne) (List.nil_sublist _) nofun nofun
  · rw [hphase]
    exact le_rfl
  · exact absurd hin (h.not_pending (by simp [hphase]))

/-- The next functor is taken, and leaves the queue `q`. -/
theorem Inv.functor {f : Functor} {q : TaskQueue Functor} (h : Inv c) (hphase : c.phase = .functors)
    (hall : c.queue.all = f :: q.all) (hq : q.pending = c.queue.pending) (e : Errno) :
    ∃ c', ({ c with queue := q } : Connector).runFunctor e f = some c' ∧ Inv c' := by
  have hpending : .resetChannel ∉ q.pending := hq ▸ h.not_pending (by simp [hphase])
  cases f with
  | startInLoop =>
    have hle : waiting { c with queue := q } + 1 ≤ 1 := by
      have hle := h.waiting_le
      simp only [waiting, hall, List.count_cons_self] at hle ⊢
      omega
    have hstate : c.state = .kDisconnected := by
      refine h.waiting_state ?_
      simp only [waiting, hall, List.count_cons_self]
      omega
    have hchannel : c.channel = none := h.queued_channel (hall ▸ List.mem_cons_self)
    have hmem : .resetChannel ∈ c.queue.all ↔ .resetChannel ∈ q.all := by simp [hall]
    have hresets := h.resets_le
    rw [hall, List.count_cons_of_ne (by decide)] at hresets
    have hinv : Inv { c with queue := q } := { h with
      waiting_le := (Nat.le_add_right _ 1).trans hle
      waiting_state := fun _ => hstate
      queued_channel := fun _ => hchannel
      removed := h.removed.trans hmem
      resets_le := hresets
      batch := fun hne => absurd hphase hne
      pending := fun hin => absurd hin hpending }
    exact hinv.startInLoop ⟨hstate, hchannel, by omega⟩ e
  | resetChannel =>
    obtain ⟨i, hc⟩ := h.removed.2 (hall ▸ List.mem_cons_self)
    have hnone : .resetChannel ∉ q.all := by
      have hle := h.resets_le
      rw [hall, List.count_cons_self] at hle
      exact List.count_eq_zero.1 (by omega)
    have hwaiting : waiting { c with queue := q, channel := none } = c.waiting := by
      simp only [waiting, hall, List.count_cons_of_ne (show Functor.resetChannel ≠ .startInLoop by decide)]
    refine ⟨_, rfl, { h with
      waiting_le := hwaiting ▸ h.waiting_le
      waiting_state := fun hpos => h.waiting_state (hwaiting ▸ hpos)
      queued_channel := fun _ => rfl
      connecting := ⟨fun hs => ?_, nofun⟩
      removed := ⟨nofun, fun hin => absurd hin hnone⟩
      resets_le := (List.count_eq_zero.2 hnone).le.trans zero_le_one
      batch := fun hne => absurd hphase hne
      pending := fun hin => absurd hin hpending
      write := fun hin => absurd hin (hphase ▸ List.not_mem_nil)
      fd_lt := nofun
      count := fun j => ?_ }⟩
    · obtain ⟨j, hj⟩ := h.connecting.1 hs
      cases hc.symm.trans hj
    · have hcount := h.count j
      rw [hc] at hcount
      simpa [resetChannel] using hcount

/-! ## Every event -/

/-- The calls of the connector's user. -/
def Event.IsCall : Event → Prop
  | .start _ _ | .restart _ | .stop => True
  | _ => False

/-- The other events, each with what it finds and what it does. -/
inductive Turn (c : Connector) : Event → Option Connector → Prop
  | poll {expired rest : List Nat} {active : Option (BitVec 32)} : c.phase = .outside → (expired ++ rest).Perm c.timers →
      (active ≠ none → c.channel.map Channel.inPoller = some true) →
      Turn c (.poll expired rest active) (some { c with timers := rest, phase := .timers expired active })
  | timer {e : Errno} {d : Nat} {expired : List Nat} {active : Option (BitVec 32)} {r : Option Connector} :
      c.phase = .timers (d :: expired) active → ({ c with phase := .timers expired active } : Connector).startInLoop e = r →
      Turn c (.timer e) r
  | handleEvent {active : Option (BitVec 32)} : c.phase = .timers [] active →
      Turn c .handleEvent (some { c with phase := .channels ((active.map ChatReactor.handleEvent).getD []) })
  | callback {err : Nat} {isSelfConnect : Bool} {f : Callback} {todo : List Callback} {r : Option Connector} :
      c.phase = .channels (f :: todo) → ({ c with phase := .channels todo } : Connector).callback err isSelfConnect f = r →
      Turn c (.callback err isSelfConnect) r
  | doPendingFunctors : c.phase = .channels [] →
      Turn c .doPendingFunctors (some { c with phase := .functors, queue := c.queue.swap })
  | functor {e : Errno} {f : Functor} {batch : List Functor} {r : Option Connector} : c.phase = .functors →
      c.queue.batch = f :: batch → ({ c with queue := { c.queue with batch := batch } } : Connector).runFunctor e f = r →
      Turn c (.functor e) r
  | finish : c.phase = .functors → c.queue.batch = [] → Turn c .finish (some { c with phase := .outside })

theorem turn_of_legal {e : Event} {r : Option Connector} (hl : e.Legal c) (hcall : ¬e.IsCall) (hr : c.step e = r) : Turn c e r := by
  subst hr
  cases e with
  | start | restart | stop => exact absurd trivial hcall
  | poll => exact .poll hl.1 hl.2.1 hl.2.2
  | timer e =>
    cases hphase : c.phase with
    | timers expired active =>
      cases expired with
      | nil => exact absurd (by rw [hphase]; rfl) hl
      | cons d expired => exact .timer hphase (by simp only [Connector.step, hphase])
    | _ => exact absurd (by rw [hphase]; rfl) hl
  | handleEvent =>
    replace hl : c.phase = .timers [] c.phase.active := hl
    have hturn := Turn.handleEvent hl
    simp only [Connector.step]
    rw [hl]
    exact hturn
  | callback err isSelfConnect =>
    cases hphase : c.phase with
    | channels todo =>
      cases todo with
      | nil => exact absurd (by rw [hphase]; rfl) hl
      | cons f todo => exact .callback hphase (by simp only [Connector.step, hphase])
    | _ => exact absurd (by rw [hphase]; rfl) hl
  | doPendingFunctors => exact .doPendingFunctors hl
  | functor e =>
    cases hb : c.queue.batch with
    | nil => exact absurd hb hl.2
    | cons f batch => exact .functor hl.1 hb (by simp only [Connector.step, hb])
  | finish => exact .finish hl.1 hl.2

/-- What the loop does passes the asserts and keeps the invariant. -/
theorem Inv.turn {e : Event} {r : Option Connector} (h : Inv c) (ht : Turn c e r) : ∃ c', r = some c' ∧ Inv c' := by
  cases ht with
  | poll hphase hperm hactive => exact ⟨_, rfl, h.poll hphase hperm hactive⟩
  | timer hphase hstart =>
    obtain ⟨hinv, hidle⟩ := h.timer hphase
    exact hstart ▸ hinv.startInLoop hidle _
  | handleEvent hphase => exact ⟨_, rfl, h.handleEvent hphase⟩
  | callback hphase hcallback => exact hcallback ▸ h.callback hphase _ _
  | doPendingFunctors hphase => exact ⟨_, rfl, h.doPendingFunctors hphase⟩
  | functor hphase hb hrun => exact hrun ▸ h.functor hphase (TaskQueue.all_of_batch hb) rfl _
  | finish hphase hb => exact ⟨_, rfl, h.finish hphase hb⟩

/-- **One event.** Where the calls are careful, no assert fails, and the invariant is kept. -/
theorem Inv.step {e : Event} (h : Inv c) (hl : e.Legal c) (hcareful : c.Careful e) : ∃ c', c.step e = some c' ∧ Inv c' := by
  by_cases hcall : e.IsCall
  · cases e with
    | start inLoopThread e =>
      have hcalled : Inv { c with connect_ := true, starts := c.starts + 1 } := { h with }
      cases inLoopThread with
      | true => exact hcalled.startInLoop hcareful e
      | false => exact ⟨_, rfl, hcalled.pushStart hcareful⟩
    | restart e =>
      obtain ⟨hinv, hidle⟩ := h.restarted hcareful.1 hcareful.2
      exact hinv.startInLoop hidle e
    | stop => exact ⟨_, rfl, { h with }⟩
    | _ => exact absurd hcall id
  · exact h.turn (turn_of_legal hl hcall rfl)

end Connector
end ChatReactor
