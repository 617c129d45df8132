import ChatReactor.ConnectorSteps
import ChatReactor.TcpClient

/-!
# A client and its connector keep each other's rules

The rules of a connector (`Connector.OnceSteps`) are that `restart` is called at most once for a socket handed over, and not before
the `resetChannel` of that socket has run. `TcpClient` calls `restart` in `removeConnection`. That is behind `resetChannel`
for two reasons: a handler of the new connection is called in the next iteration at the earliest, and a `forceCloseInLoop`
of it stands behind `resetChannel` in the same queue. `Inv` says so, and `Inv.step` makes of every run of the client a run of the
connector in which the rule is kept.
-/

namespace ChatReactor

/-! ## The invariant -/

namespace TcpClient

variable {c c' : TcpClient} {i : Nat}

/-- What is known of the connection in use. -/
structure Live (c : TcpClient) (i : Nat) : Prop where
  handed : i ∈ c.connector.handed
  restarts : c.connector.restarts < c.connector.handed.length
  destroyed : .conn i .connectDestroyed ∉ c.queue.all
  /-- Its handler is not called in the iteration in which it was made. -/
  polled : i ∈ c.polled → c.connector.queue.all = []
  /-- A `forceCloseInLoop` of it stands behind `resetChannel`. -/
  forced : c.queue.all.Pairwise fun f g => f = .conn i .forceCloseInLoop → g ≠ .connector

structure Inv (c : TcpClient) : Prop where
  once : c.connector.OnceInv
  batch : c.queue.batch.count .connector = c.connector.queue.batch.length
  pending : c.queue.pending.count .connector = c.connector.queue.pending.length
  phase : c.connector.phase ≠ .functors → c.queue.batch = []
  conns : ∀ i, c.conns i ≠ none ↔ i ∈ c.connector.handed
  queued : ∀ {i f}, .conn i f ∈ c.queue.all → i ∈ c.connector.handed
  polled : ∀ i ∈ c.polled, i ∈ c.connector.handed
  /-- A connection that is open is the one in use, or is about to be destroyed. -/
  opened : ∀ {i conn}, c.conns i = some conn →
    (conn.isOpen ↔ c.connection_ = some i ∨ .conn i .connectDestroyed ∈ c.queue.all)
  destroys : ∀ i, c.queue.all.count (.conn i .connectDestroyed) ≤ 1
  ids : ∀ {i conn}, c.conns i = some conn → conn.connId < c.nextConnId
  distinct : ∀ {i j conn conn'}, c.conns i = some conn → c.conns j = some conn' → conn.connId = conn'.connId → i = j
  live : ∀ {i}, c.connection_ = some i → Live c i

theorem Inv.init : Inv init where
  once := ⟨Connector.Inv.init, fun _ => ⟨rfl, rfl, rfl⟩⟩
  batch := rfl
  pending := rfl
  phase _ := rfl
  conns i := by simp [TcpClient.init, Connector.init]
  queued h := by simp [TcpClient.init, TaskQueue.all] at h
  polled i h := by simp [TcpClient.init] at h
  opened h := by simp [TcpClient.init] at h
  destroys i := by simp [TcpClient.init, TaskQueue.all]
  ids h := by simp [TcpClient.init] at h
  distinct h := by simp [TcpClient.init] at h
  live h := by simp [TcpClient.init] at h

theorem Inv.kConnected (h : Inv c) (hi : c.connection_ = some i) : c.connector.state = .kConnected :=
  h.once.inv.handed_state (h.live hi).restarts

/-- The connector has moved on, and has queued `n` functors. -/
theorem Inv.moved (h : Inv c) {k : Connector} {n : Nat} (honce : k.OnceInv) (hbatch : k.queue.batch = c.connector.queue.batch)
    (hpending : k.queue.pending.length = c.connector.queue.pending.length + n)
    (hphase : k.phase ≠ .functors → c.queue.batch = []) (hhanded : k.handed = c.connector.handed)
    (hlive : ∀ i, c.connection_ = some i → n = 0 ∧ k.queue = c.connector.queue ∧ k.restarts = c.connector.restarts) :
    Inv { c with connector := k, queue := c.queue.pushAll (List.replicate n .connector) } where
  once := honce
  batch := by rw [hbatch]; exact h.batch
  pending := by
    rw [hpending, ← h.pending]
    simp [TaskQueue.pushAll]
  phase := hphase
  conns i := by rw [hhanded]; exact h.conns i
  queued {i f} hf := by
    rw [hhanded]
    refine h.queued (f := f) ?_
    simpa [List.mem_replicate] using hf
  polled i hi := by rw [hhanded]; exact h.polled i hi
  opened hconn := by simpa [List.mem_replicate] using h.opened hconn
  destroys i := by simpa [List.count_replicate] using h.destroys i
  ids := h.ids
  distinct := h.distinct
  live {i} hi := by
    obtain ⟨rfl, hqueue, hrestarts⟩ := hlive i hi
    have hli := h.live hi
    have hall : (c.queue.pushAll (List.replicate 0 .connector)).all = c.queue.all := by simp
    exact { handed := by rw [hhanded]; exact hli.handed
            restarts := by rw [hhanded, hrestarts]; exact hli.restarts
            destroyed := by rw [hall]; exact hli.destroyed
            polled := by rw [hqueue]; exact hli.polled
            forced := by rw [hall]; exact hli.forced }

theorem update_some {conns : Nat → Option Conn} {j : Nat} {x y : Conn} (h : Function.update conns i (some x) j = some y) :
    j = i ∧ y = x ∨ j ≠ i ∧ conns j = some y := by
  by_cases hj : j = i
  · subst hj
    rw [Function.update_self] at h
    exact .inl ⟨rfl, (Option.some.inj h).symm⟩
  · rw [Function.update_of_ne hj] at h
    exact .inr ⟨hj, h⟩

/-- The connector has handed over a socket. -/
theorem Inv.handedOver (h : Inv c) (hnone : c.connection_ = none) {k : Connector} {n sockfd : Nat} (honce : k.OnceInv)
    (hbatch : k.queue.batch = c.connector.queue.batch)
    (hpending : k.queue.pending.length = c.connector.queue.pending.length + n)
    (hphase : k.phase ≠ .functors → c.queue.batch = []) (hhanded : k.handed = c.connector.handed ++ [sockfd])
    (hrestarts : k.restarts = c.connector.restarts) :
    Inv { c with
      connector := k, queue := c.queue.pushAll (List.replicate n .connector), nextConnId := c.nextConnId + 1,
      connection_ := some sockfd, conns := Function.update c.conns sockfd (some ⟨c.nextConnId, .kConnected, true⟩) } := by
  have hfresh : sockfd ∉ c.connector.handed := by
    have hcount := honce.inv.count sockfd
    rw [hhanded, List.count_append, List.count_singleton_self] at hcount
    rw [← List.count_eq_zero]
    split_ifs at hcount
    omega
  have hnot {f : ConnFunctor} : .conn sockfd f ∉ c.queue.all := fun hf => hfresh (h.queued hf)
  exact {
    once := honce
    batch := by rw [hbatch]; exact h.batch
    pending := by
      rw [hpending, ← h.pending]
      simp [TaskQueue.pushAll]
    phase := hphase
    conns := fun i => by
      rw [hhanded, List.mem_append, List.mem_singleton, ← h.conns i]
      by_cases hi : i = sockfd
      · simp [hi]
      · simp [hi]
    queued := fun {i f} hf => by
      rw [hhanded]
      refine List.mem_append_left _ (h.queued (f := f) ?_)
      simpa [List.mem_replicate] using hf
    polled := fun i hi => by
      rw [hhanded]
      exact List.mem_append_left _ (h.polled i hi)
    opened := fun {i conn} hconn => by
      rcases update_some hconn with ⟨rfl, rfl⟩ | ⟨hi, hconn⟩
      · exact ⟨fun _ => .inl rfl, fun _ => .inl rfl⟩
      · have hopened := h.opened hconn
        simp only [hnone, reduceCtorEq, false_or] at hopened
        simpa [List.mem_replicate, Ne.symm hi] using hopened
    destroys := fun i => by simpa [List.count_replicate] using h.destroys i
    ids := fun {i conn} hconn => by
      rcases update_some hconn with ⟨rfl, rfl⟩ | ⟨hi, hconn⟩
      · exact Nat.lt_succ_self _
      · exact Nat.lt_succ_of_lt (h.ids hconn)
    distinct := fun {i j conn conn'} hi hj heq => by
      rcases update_some hi with ⟨rfl, rfl⟩ | ⟨_, hi'⟩
      · rcases update_some hj with ⟨rfl, rfl⟩ | ⟨_, hj'⟩
        · rfl
        · exact absurd (h.ids hj') (by rw [← heq]; exact Nat.lt_irrefl _)
      · rcases update_some hj with ⟨rfl, rfl⟩ | ⟨_, hj'⟩
        · exact absurd (h.ids hi') (by rw [heq]; exact Nat.lt_irrefl _)
        · exact h.distinct hi' hj' heq
    live := fun {i} hi => by
      obtain rfl : sockfd = i := Option.some.inj hi
      have hle := h.once.inv.restarts_le.1
      exact {
        handed := by simp [hhanded]
        restarts := by
          simp only [hhanded, hrestarts, List.length_append, List.length_singleton]
          omega
        destroyed := by simpa [List.mem_replicate] using hnot
        polled := fun hin => absurd (h.polled _ hin) hfresh
        forced := by
          refine List.pairwise_of_forall_mem_list fun f hf g _ hforce => absurd ?_ (hnot (f := .forceCloseInLoop))
          subst hforce
          simpa [List.mem_replicate] using hf } }

/-- A step of the connector that runs no functor. -/
theorem Inv.advance (h : Inv c) {e : Connector.Event} (hl : e.Legal c.connector) (honce : c.connector.Once e) (hdrains : ¬e.Drains)
    (hphase : ∀ k, c.connector.step e = some k → k.phase ≠ .functors → c.queue.batch = [])
    (hrestart : c.connection_ = none ∨ ∀ err, e ≠ .restart err) :
    ∃ c', c.advance e = some c' ∧ Inv c' ∧ c.connector.step e = some c'.connector ∧ c'.connect_ = c.connect_ := by
  have hcareful := h.once.careful honce
  obtain ⟨k, hs, -⟩ := h.once.inv.step hl hcareful
  have honce' := h.once.step ⟨hl, honce⟩ hs
  have hseen := Connector.step_seen hl hcareful hdrains hs
  obtain ⟨hbatch, hpending⟩ := hseen.pending
  rcases hseen.handed with hhanded | ⟨hk, sockfd, hhanded⟩
  · refine ⟨_, ?_, h.moved honce' hbatch hpending (hphase k hs) hhanded fun i hi => ?_, hs, rfl⟩
    · simp [TcpClient.advance, hs, hhanded]
    · have hqueue : k.queue = c.connector.queue := hseen.queue.resolve_right fun hne => hne.1 (h.kConnected hi)
      refine ⟨by rw [hqueue, Nat.sub_self], hqueue, ?_⟩
      rcases hrestart with hnone | hne
      · cases hnone.symm.trans hi
      · exact Connector.step_restarts hl hne hdrains hs
  · have hnone : c.connection_ = none := by
      cases hc : c.connection_ with
      | none => rfl
      | some i => cases (h.kConnected hc).symm.trans hk
    have hrestarts : k.restarts = c.connector.restarts := by
      refine Connector.step_restarts hl ?_ hdrains hs
      rintro err rfl
      cases (h.once.inv.handed_state honce.1).symm.trans hk
    refine ⟨_, ?_, h.handedOver hnone honce' hbatch hpending (hphase k hs) hhanded hrestarts, hs, rfl⟩
    simp [TcpClient.advance, hs, hhanded, newConnection, Conn.connectEstablished]

/-! ## The connections -/

variable {conn : Conn}

/-- One connection changes, and a functor of it may be taken off the batch. -/
theorem Inv.changed (h : Inv c) {q : TaskQueue Pending} {conn' : Conn} (hconn : c.conns i = some conn)
    (hid : conn'.connId = conn.connId) (hbatch : q.batch.Sublist c.queue.batch)
    (hpending : q.pending = c.queue.pending) (hmarks : q.batch.count .connector = c.queue.batch.count .connector)
    (hothers : ∀ j ≠ i, .conn j .connectDestroyed ∈ c.queue.all → .conn j .connectDestroyed ∈ q.all)
    (hopen : conn'.isOpen ↔ c.connection_ = some i ∨ .conn i .connectDestroyed ∈ q.all) :
    Inv ({ c with queue := q }.setConn i conn') := by
  have hsub : q.all.Sublist c.queue.all := hbatch.append (by rw [hpending])
  have hold {j x} (hx : Function.update c.conns i (some conn') j = some x) : ∃ y, c.conns j = some y ∧ y.connId = x.connId := by
    rcases update_some hx with ⟨rfl, rfl⟩ | ⟨_, hx⟩
    · exact ⟨conn, hconn, hid.symm⟩
    · exact ⟨x, hx, rfl⟩
  exact {
    once := h.once
    batch := hmarks.trans h.batch
    pending := (congrArg _ hpending).trans h.pending
    phase := fun hphase => by
      rw [h.phase hphase] at hbatch
      exact List.sublist_nil.1 hbatch
    conns := fun j => by
      refine Iff.trans ?_ (h.conns j)
      by_cases hj : j = i
      · subst hj
        simp [TcpClient.setConn, hconn]
      · simp [TcpClient.setConn, hj]
    queued := fun hf => h.queued (hsub.subset hf)
    polled := h.polled
    opened := fun {j x} hx => by
      rcases update_some hx with ⟨rfl, rfl⟩ | ⟨hj, hx'⟩
      · exact hopen
      · refine (h.opened hx').trans (or_congr_right ⟨hothers j hj, fun hin => hsub.subset hin⟩)
    destroys := fun j => (hsub.count_le _).trans (h.destroys j)
    ids := fun hx => by
      obtain ⟨y, hy, hyx⟩ := hold hx
      exact hyx ▸ h.ids hy
    distinct := fun hx hx' heq => by
      obtain ⟨y, hy, hyx⟩ := hold hx
      obtain ⟨y', hy', hyx'⟩ := hold hx'
      exact h.distinct hy hy' (hyx.trans (heq.trans hyx'.symm))
    live := fun hj =>
      { h.live hj with
        destroyed := fun hin => (h.live hj).destroyed (hsub.subset hin)
        forced := (h.live hj).forced.sublist hsub } }

theorem Inv.setConn (h : Inv c) {conn' : Conn} (hconn : c.conns i = some conn) (hid : conn'.connId = conn.connId)
    (hopen : conn'.isOpen ↔ conn.isOpen) : Inv (c.setConn i conn') :=
  h.changed hconn hid (.refl _) rfl rfl (fun _ _ => id) (hopen.trans (h.opened hconn))

/-- A `forceCloseInLoop` is queued. -/
theorem Inv.pushForce (h : Inv c) (hi : i ∈ c.connector.handed) :
    Inv { c with queue := c.queue.push (.conn i .forceCloseInLoop) } :=
  { h with
    pending := by
      rw [← h.pending]
      simp [TaskQueue.push]
    queued := fun {j f} hf => by
      rw [TaskQueue.all_push, List.mem_append, List.mem_singleton] at hf
      rcases hf with hf | hf
      · exact h.queued hf
      · cases hf
        exact hi
    opened := fun hconn => by simpa using h.opened hconn
    destroys := fun j => by simpa [List.count_append] using h.destroys j
    live := fun {j} hj =>
      { h.live hj with
        destroyed := by simpa using (h.live hj).destroyed
        forced := by
          rw [TaskQueue.all_push, List.pairwise_append]
          refine ⟨(h.live hj).forced, List.pairwise_singleton _ _, fun f _ g hg _ => ?_⟩
          simp [List.mem_singleton.1 hg] } }

/-- The connection in use is let go, and will be destroyed. -/
theorem Inv.letGo (h : Inv c) (hi : c.connection_ = some i) :
    Inv { c with connection_ := none, queue := c.queue.push (.conn i .connectDestroyed) } :=
  { h with
    pending := by
      rw [← h.pending]
      simp [TaskQueue.push]
    queued := fun {j f} hf => by
      rw [TaskQueue.all_push, List.mem_append, List.mem_singleton] at hf
      rcases hf with hf | hf
      · exact h.queued hf
      · cases hf
        exact (h.live hi).handed
    opened := fun {j conn} hconn => by
      have hopened := h.opened hconn
      by_cases hj : j = i
      · subst hj
        simpa [hi] using hopened
      · simpa [hi, hj, Ne.symm hj] using hopened
    destroys := fun j => by
      rw [TaskQueue.all_push, List.count_append]
      by_cases hj : j = i
      · subst hj
        rw [List.count_eq_zero.2 (h.live hi).destroyed, List.count_singleton_self]
      · have hzero : [Pending.conn i .connectDestroyed].count (.conn j .connectDestroyed) = 0 :=
          List.count_eq_zero.2 (by simpa using hj)
        rw [hzero]
        exact h.destroys j
    live := nofun }

/-- What a step leads to: the connector has made one of its own at most, and a `restart` only for a client that wants one. -/
structure After (c c' : TcpClient) : Prop where
  inv : Inv c'
  connector : c'.connector = c.connector ∨ ∃ e, e.Legal c.connector ∧ c.connector.Once e ∧
    c.connector.step e = some c'.connector ∧ ∀ err, e = .restart err → c.connect_ = true
  connect_ : 0 < c.connector.starts → c'.connect_ = true → c.connect_ = true

theorem Inv.after (h : Inv c') (hconnector : c'.connector = c.connector) (hconnect : c'.connect_ = true → c.connect_ = true) :
    After c c' := ⟨h, .inl hconnector, fun _ => hconnect⟩

theorem removeConnection_eq (hi : c.connection_ = some i) (err : Connector.Errno) :
    c.removeConnection i err =
      (let c := { c with connection_ := none, queue := c.queue.push (.conn i .connectDestroyed) }
      if c.retry && c.connect_ then c.advance (.restart err) else some c) := by
  simp [removeConnection, hi]

theorem handleClose_eq (hconn : c.conns i = some conn) (hopen : conn.isOpen) (err : Connector.Errno) :
    c.handleClose i err = (c.setConn i { conn with reading := false }).removeConnection i err := by
  simp [TcpClient.handleClose, hconn, hopen]

/-- The connection in use is closed, where the connector's functors have been run. -/
theorem Inv.handleClose (h : Inv c) (hi : c.connection_ = some i) (hqueue : c.connector.queue.all = []) (err : Connector.Errno) :
    ∃ c', c.handleClose i err = some c' ∧ After c c' := by
  have hli := h.live hi
  obtain ⟨conn, hconn⟩ := Option.ne_none_iff_exists'.1 ((h.conns i).2 hli.handed)
  have hopen : conn.isOpen := (h.opened hconn).2 (.inl hi)
  have hset : Inv (c.setConn i { conn with reading := false }) := h.setConn hconn rfl Iff.rfl
  have hgone := hset.letGo hi
  rw [handleClose_eq hconn hopen, removeConnection_eq (c := c.setConn i { conn with reading := false }) hi]
  by_cases hretry : (c.retry && c.connect_) = true
  · have honce : c.connector.Once (.restart err) := ⟨hli.restarts, by rw [hqueue]; exact List.not_mem_nil⟩
    have hlegal : Connector.Event.Legal c.connector (.restart err) := trivial
    obtain ⟨c', hc', hinv, hs, hconnect⟩ := hgone.advance hlegal honce id
      (fun k hk hphase => h.phase ((Connector.startInLoop_untouched hk).phase ▸ hphase)) (.inl rfl)
    refine ⟨c', (if_pos hretry).trans hc', hinv, .inr ⟨_, hlegal, honce, hs, fun _ _ => ?_⟩, fun _ hc => ?_⟩
    · exact (Bool.and_eq_true_iff.1 hretry).2
    · rwa [hconnect] at hc
  · exact ⟨_, if_neg hretry, hgone.after rfl id⟩

theorem Inv.shutdown (h : Inv c) (hconn : c.conns i = some conn) : Inv (c.setConn i conn.shutdown) := by
  refine h.setConn hconn ?_ ?_
  · unfold Conn.shutdown
    split <;> rfl
  · unfold Conn.shutdown
    split
    next hstate => exact ⟨fun _ => .inl hstate, fun _ => .inr rfl⟩
    next => exact Iff.rfl

theorem Inv.forceClose (h : Inv c) (hconn : c.conns i = some conn) : ∃ c', c.forceClose i = some c' ∧ After c c' := by
  by_cases hopen : conn.isOpen
  · have hset : Inv (c.setConn i { conn with state := .kDisconnecting }) :=
      h.setConn hconn rfl ⟨fun _ => hopen, fun _ => .inr rfl⟩
    have hin : i ∈ c.connector.handed := (h.conns i).1 (by rw [hconn]; exact nofun)
    refine ⟨_, ?_, (hset.pushForce (i := i) hin).after rfl id⟩
    simp only [TcpClient.forceClose, hconn, Option.bind_eq_bind, Option.bind_some, if_pos hopen]
    rfl
  · refine ⟨c, ?_, h.after rfl id⟩
    simp only [TcpClient.forceClose, hconn, Option.bind_eq_bind, Option.bind_some, if_neg hopen]
    rfl

/-! ## The functors -/

theorem count_conn (f : ConnFunctor) (l : List Pending) : (.conn i f :: l).count Pending.connector = l.count .connector :=
  List.count_cons_of_ne (by simp)

variable {batch : List Pending}

theorem Inv.connectDestroyed (h : Inv c) (hb : c.queue.batch = .conn i .connectDestroyed :: batch) :
    ∃ c', ({ c with queue := ⟨batch, c.queue.pending⟩ } : TcpClient).connectDestroyed i = some c' ∧ After c c' := by
  have hall := TaskQueue.all_of_batch hb
  have hin : .conn i .connectDestroyed ∈ c.queue.all := by
    rw [hall]
    exact List.mem_cons_self
  obtain ⟨conn, hconn⟩ := Option.ne_none_iff_exists'.1 ((h.conns i).2 (h.queued hin))
  have hopen : conn.isOpen := (h.opened hconn).2 (.inr hin)
  have hnot : c.connection_ ≠ some i := fun hi => (h.live hi).destroyed hin
  have hrest : .conn i .connectDestroyed ∉ (⟨batch, c.queue.pending⟩ : TaskQueue Pending).all := by
    have hle := h.destroys i
    rw [hall, List.count_cons_self] at hle
    rw [← List.count_eq_zero]
    omega
  have hinv : Inv (({ c with queue := ⟨batch, c.queue.pending⟩ } : TcpClient).setConn i
      { conn with state := .kDisconnected, reading := false }) := by
    refine h.changed hconn rfl ?_ rfl ?_ ?_ ?_
    · rw [hb]
      exact List.sublist_cons_self _ _
    · rw [hb, count_conn]
    · intro j hj hin
      rw [hall] at hin
      exact (List.mem_cons.1 hin).resolve_left fun heq => hj (by cases heq; rfl)
    · refine ⟨fun hclosed => ?_, fun hor => absurd hor (not_or.2 ⟨hnot, hrest⟩)⟩
      rcases hclosed with hstate | hstate <;> cases hstate
  refine ⟨_, ?_, hinv.after rfl id⟩
  simp only [TcpClient.connectDestroyed, hconn, Option.bind_eq_bind, Option.bind_some, check_of hopen]
  rfl

/-- The next functor is a `forceCloseInLoop`. -/
theorem Inv.popForce (h : Inv c) (hb : c.queue.batch = .conn i .forceCloseInLoop :: batch)
    (hconn : c.conns i = some conn) : Inv { c with queue := ⟨batch, c.queue.pending⟩ } := by
  have hall := TaskQueue.all_of_batch hb
  have hsame : ({ c with queue := ⟨batch, c.queue.pending⟩ } : TcpClient).setConn i conn =
      { c with queue := ⟨batch, c.queue.pending⟩ } := by
    simp only [TcpClient.setConn, ← hconn, Function.update_eq_self]
  have hin {j} (hin : .conn j .connectDestroyed ∈ c.queue.all) :
      .conn j .connectDestroyed ∈ (⟨batch, c.queue.pending⟩ : TaskQueue Pending).all := by
    rw [hall] at hin
    exact (List.mem_cons.1 hin).resolve_left nofun
  rw [← hsame]
  refine h.changed hconn rfl ?_ rfl ?_ (fun _ _ => hin) ((h.opened hconn).trans (or_congr_right ⟨hin, fun hin => ?_⟩))
  · rw [hb]
    exact List.sublist_cons_self _ _
  · rw [hb, count_conn]
  · rw [hall]
    exact List.mem_cons_of_mem _ hin

/-- The places of the connector's functors are as many as the functors. -/
theorem Inv.all_count (h : Inv c) : c.queue.all.count .connector = c.connector.queue.all.length := by
  rw [TaskQueue.all, TaskQueue.all, List.count_append, List.length_append, h.batch, h.pending]

theorem Inv.forceCloseInLoop (h : Inv c) (hb : c.queue.batch = .conn i .forceCloseInLoop :: batch)
    (hcareful : c.ClosesOnce (.conn i .forceCloseInLoop)) (err : Connector.Errno) :
    ∃ c', ({ c with queue := ⟨batch, c.queue.pending⟩ } : TcpClient).forceCloseInLoop i err = some c' ∧ After c c' := by
  have hall := TaskQueue.all_of_batch hb
  have hin : .conn i .forceCloseInLoop ∈ c.queue.all := by
    rw [hall]
    exact List.mem_cons_self
  obtain ⟨conn, hconn⟩ := Option.ne_none_iff_exists'.1 ((h.conns i).2 (h.queued hin))
  have hpop := h.popForce hb hconn
  by_cases hopen : conn.isOpen
  · have hi : c.connection_ = some i := hcareful (by rw [hconn]; exact decide_eq_true hopen)
    -- the connector's functors were in front of this one
    have hqueue : c.connector.queue.all = [] := by
      have hforced := (h.live hi).forced
      rw [hall, List.pairwise_cons] at hforced
      have hzero : c.queue.all.count .connector = 0 := by
        rw [hall, count_conn, List.count_eq_zero]
        exact fun hmem => hforced.1 _ hmem rfl rfl
      rwa [h.all_count, List.length_eq_zero_iff] at hzero
    obtain ⟨c', hc', hafter⟩ := hpop.handleClose hi hqueue err
    refine ⟨c', ?_, hafter.inv, hafter.connector, hafter.connect_⟩
    simp only [TcpClient.forceCloseInLoop, hconn, Option.bind_eq_bind, Option.bind_some, if_pos hopen]
    exact hc'
  · refine ⟨_, ?_, hpop.after rfl id⟩
    simp only [TcpClient.forceCloseInLoop, hconn, Option.bind_eq_bind, Option.bind_some, if_neg hopen]
    rfl

/-- The next functor is one of the connector's. -/
theorem Inv.functor (h : Inv c) (hphase : c.connector.phase = .functors) (hb : c.queue.batch = .connector :: batch)
    (err : Connector.Errno) :
    ∃ c', ({ c with queue := ⟨batch, c.queue.pending⟩ } : TcpClient).advance (.functor err) = some c' ∧ After c c' := by
  have hall := TaskQueue.all_of_batch hb
  have hcount := h.batch
  rw [hb, List.count_cons_self] at hcount
  have hne : c.connector.queue.batch ≠ [] := by
    rintro hnil
    rw [hnil] at hcount
    cases hcount
  have hl : Connector.Event.Legal c.connector (.functor err) := ⟨hphase, hne⟩
  have honce : c.connector.Once (.functor err) := trivial
  obtain ⟨k, hs, -⟩ := h.once.inv.step hl (h.once.careful honce)
  obtain ⟨⟨f, hbatch⟩, hpending, hhanded, hrestarts, hphase', -⟩ := Connector.functor_eq hl hs
  have hinv : Inv { c with connector := k, queue := ⟨batch, c.queue.pending⟩ } :=
    { h with
      once := h.once.step ⟨hl, honce⟩ hs
      batch := by
        rw [hbatch, List.length_cons] at hcount
        exact Nat.succ.inj hcount
      pending := by rw [hpending]; exact h.pending
      phase := fun hne => absurd (hphase'.trans hphase) hne
      conns := fun j => by rw [hhanded]; exact h.conns j
      queued := fun {j f} hf => by
        rw [hhanded]
        exact h.queued (hall ▸ List.mem_cons_of_mem _ hf)
      polled := fun j hj => by rw [hhanded]; exact h.polled j hj
      opened := fun hconn => by simpa [hall] using h.opened hconn
      destroys := fun j => by simpa [hall] using h.destroys j
      live := fun {j} hj => by
        have hlj := h.live hj
        exact {
          handed := by rw [hhanded]; exact hlj.handed
          restarts := by rw [hhanded, hrestarts]; exact hlj.restarts
          destroyed := fun hin => hlj.destroyed (hall ▸ List.mem_cons_of_mem _ hin)
          polled := fun hin => absurd (List.append_eq_nil_iff.1 (hlj.polled hin)).1 hne
          forced := by
            have hforced := hlj.forced
            rw [hall] at hforced
            exact hforced.of_cons } }
  refine ⟨_, ?_, hinv, .inr ⟨_, hl, honce, hs, nofun⟩, fun _ => id⟩
  simp [TcpClient.advance, hs, hhanded, hpending, TaskQueue.pushAll]

theorem Inv.doPendingFunctors (h : Inv c) (hl : Connector.Event.Legal c.connector .doPendingFunctors) :
    ∃ c', c.step .doPendingFunctors = some c' ∧ After c c' := by
  have honce : c.connector.Once .doPendingFunctors := trivial
  have hphase : c.connector.phase ≠ .functors := fun heq => by cases heq.symm.trans hl
  have hbatch := h.phase hphase
  have hs : c.connector.step .doPendingFunctors =
      some { c.connector with phase := .functors, queue := c.connector.queue.swap } := rfl
  have hall : c.queue.swap.all = c.queue.all := TaskQueue.all_swap hbatch
  have hinv : Inv { c with
      connector := { c.connector with phase := .functors, queue := c.connector.queue.swap }, queue := c.queue.swap,
      polled := [] } :=
    { h with
      once := h.once.step ⟨hl, honce⟩ hs
      batch := h.pending
      pending := rfl
      phase := fun hne => absurd rfl hne
      queued := fun hf => h.queued (hall ▸ hf)
      polled := nofun
      opened := fun hconn => by
        rw [hall]
        exact h.opened hconn
      destroys := fun j => by
        rw [hall]
        exact h.destroys j
      live := fun hj =>
        { h.live hj with
          destroyed := by
            rw [hall]
            exact (h.live hj).destroyed
          polled := nofun
          forced := by
            rw [hall]
            exact (h.live hj).forced } }
  refine ⟨_, ?_, hinv, .inr ⟨_, hl, honce, hs, nofun⟩, fun _ => id⟩
  simp [TcpClient.step, TcpClient.advance, hs, TaskQueue.pushAll, TaskQueue.swap]

/-! ## Every event -/

/-- An event that is a step of the connector and runs no functor. -/
theorem Inv.loop (h : Inv c) {e : Connector.Event} (hl : e.Legal c.connector) (hcall : ¬e.IsCall) (hdrains : ¬e.Drains)
    (hphase : c.queue.batch = []) : ∃ c', c.advance e = some c' ∧ After c c' := by
  have honce : c.connector.Once e := by
    cases e with
    | start | restart | stop => exact absurd trivial hcall
    | _ => trivial
  have hrestart : ∀ err, e ≠ .restart err := by
    rintro err rfl
    exact hcall trivial
  obtain ⟨c', hc', hinv, hs, hconnect⟩ := h.advance hl honce hdrains (fun _ _ _ => hphase) (.inr hrestart)
  exact ⟨c', hc', hinv, .inr ⟨e, hl, honce, hs, fun err herr => absurd herr (hrestart err)⟩, fun _ hc => hconnect ▸ hc⟩

/-- The connections that are polled have been made, and the connector's functors have been run. -/
theorem Inv.setPolled (h : Inv c) (hphase : c.connector.phase = .outside) {polled : List Nat}
    (hpolled : ∀ i ∈ polled, (c.conns i).any Conn.reading = true) : Inv { c with polled := polled } :=
  { h with
    polled := fun i hi => (h.conns i).1 fun hnone => by
      have hany := hpolled i hi
      rw [hnone] at hany
      cases hany
    live := fun {i} hi =>
      { h.live hi with
        polled := fun _ => by
          have hne : c.connector.phase ≠ .functors := by rw [hphase]; exact nofun
          refine h.once.inv.all_eq_nil (h.kConnected hi) ?_
          rw [TaskQueue.all, h.once.inv.batch hne, List.nil_append]
          intro hin
          obtain ⟨todo, htodo⟩ := h.once.inv.pending hin
          cases hphase.symm.trans htodo } }

/-- **One event.** Every assert holds, the invariant is kept, and the connector has made a step that its rules allow, if any. -/
theorem Inv.step (h : Inv c) {e : Event} (hl : e.Legal c) (hcareful : c.Careful e) : ∃ c', c.step e = some c' ∧ After c c' := by
  cases e with
  | connect inLoopThread err =>
    have hc : Inv { c with connect_ := true } := { h with live := fun hi => { h.live hi with } }
    have hlegal : Connector.Event.Legal c.connector (.start inLoopThread err) := trivial
    have honce : c.connector.Once (.start inLoopThread err) := hcareful
    have hphase (k) (hk : c.connector.step (.start inLoopThread err) = some k) : k.phase = c.connector.phase := by
      cases inLoopThread with
      | true => exact (Connector.startInLoop_untouched hk).phase
      | false =>
        cases hk
        rfl
    obtain ⟨c', hc', hinv, hs, -⟩ := hc.advance hlegal honce id (fun k hk hne => h.phase (hphase k hk ▸ hne)) (.inr nofun)
    exact ⟨c', hc', hinv, .inr ⟨_, hlegal, honce, hs, nofun⟩, fun hpos => absurd hcareful (Nat.pos_iff_ne_zero.1 hpos)⟩
  | disconnect =>
    have hc : Inv { c with connect_ := false } := { h with live := fun hi => { h.live hi with } }
    cases hconnection : c.connection_ with
    | none => exact ⟨{ c with connect_ := false }, by simp [TcpClient.step, disconnect, hconnection], hc.after rfl nofun⟩
    | some i =>
      obtain ⟨conn, hconn⟩ := Option.ne_none_iff_exists'.1 ((h.conns i).2 (h.live hconnection).handed)
      refine ⟨_, ?_, (hc.shutdown hconn).after rfl nofun⟩
      simp [TcpClient.step, disconnect, hconnection, TcpClient.shutdown, hconn]
  | stop =>
    have hc : Inv { c with connect_ := false } := { h with live := fun hi => { h.live hi with } }
    have hlegal : Connector.Event.Legal c.connector .stop := trivial
    obtain ⟨c', hc', hinv, hs, hconnect⟩ := hc.advance hlegal hcareful id
      (fun k hk hphase => h.phase (by cases hk; exact hphase)) (.inr nofun)
    exact ⟨c', hc', hinv, .inr ⟨_, hlegal, hcareful, hs, nofun⟩, fun _ hc => by cases hconnect.symm.trans hc⟩
  | enableRetry =>
    have hc : Inv { c with retry := true } := { h with live := fun hi => { h.live hi with } }
    exact ⟨_, rfl, hc.after rfl id⟩
  | shutdown i =>
    obtain ⟨conn, hconn⟩ := Option.ne_none_iff_exists'.1 hl
    exact ⟨_, by simp [TcpClient.step, TcpClient.shutdown, hconn], (h.shutdown hconn).after rfl id⟩
  | forceClose i =>
    obtain ⟨conn, hconn⟩ := Option.ne_none_iff_exists'.1 hl
    exact h.forceClose hconn
  | poll expired waiting active polled =>
    have hphase : c.connector.phase ≠ .functors := by rw [hl.1.1]; exact nofun
    obtain ⟨c', hc', hafter⟩ := (h.setPolled hl.1.1 hl.2).loop hl.1 id id (h.phase hphase)
    exact ⟨c', hc', hafter.inv, hafter.connector, hafter.connect_⟩
  | timer err => exact h.loop hl id id (h.phase fun hphase => hl (by rw [hphase]; rfl))
  | handleEvent =>
    have hphase : c.connector.phase = .timers [] c.connector.phase.active := hl
    exact h.loop hl id id (h.phase (by rw [hphase]; exact nofun))
  | callback err isSelfConnect => exact h.loop hl id id (h.phase fun hphase => hl (by rw [hphase]; rfl))
  | close i err => exact h.handleClose hcareful ((h.live hcareful).polled hl.1) err
  | doPendingFunctors => exact h.doPendingFunctors hl
  | functor err =>
    cases hb : c.queue.batch with
    | nil => exact absurd hb hl.2
    | cons f batch =>
      have hstep : c.step (.functor err) = ({ c with queue := ⟨batch, c.queue.pending⟩ } : TcpClient).runFunctor err f := by
        simp only [TcpClient.step, hb]
      rw [hstep]
      cases f with
      | connector => exact h.functor hl.1 hb err
      | conn i f =>
        cases f with
        | connectDestroyed => exact h.connectDestroyed hb
        | forceCloseInLoop => exact h.forceCloseInLoop hb (hcareful _ (by rw [hb]; rfl)) err
  | finish =>
    have hlegal : Connector.Event.Legal c.connector .finish := ⟨hl.1, by
      have hbatch := h.batch
      rw [hl.2] at hbatch
      exact List.length_eq_zero_iff.1 hbatch.symm⟩
    exact h.loop hlegal id id hl.2

/-! ## Runs -/

theorem Inv.of_steps {es : List Event} (h : Steps TcpClient.init es c) : Inv c := by
  refine h.invariant Inv ?_ Inv.init
  intro c e c' hc hok hs
  obtain ⟨c₁, hs₁, hafter⟩ := hc.step hok.1 hok.2
  cases hs.symm.trans hs₁
  exact hafter.inv

/-- A run of the client is a run of its connector, with the rules of the connector kept. -/
theorem Inv.refines {es : List Event} (h : Inv c) (hrun : Steps c es c') :
    ∃ ks, Connector.OnceSteps c.connector ks c'.connector := by
  induction hrun with
  | nil c => exact ⟨[], .nil _⟩
  | @cons c c₁ c₂ e es hok hs _ ih =>
    obtain ⟨c₁', hs', hafter⟩ := h.step hok.1 hok.2
    cases hs.symm.trans hs'
    obtain ⟨ks, hks⟩ := ih hafter.inv
    rcases hafter.connector with heq | ⟨k, hl, honce, hk, -⟩
    · exact ⟨ks, heq ▸ hks⟩
    · exact ⟨k :: ks, .cons ⟨hl, honce⟩ hk hks⟩

/-- `stop()` has been called. -/
structure Stopped (c : TcpClient) : Prop where
  starts : 0 < c.connector.starts
  connect_ : c.connect_ = false
  connector : c.connector.connect_ = false

theorem Stopped.step (h : Stopped c) (hc : Inv c) (hafter : After c c') :
    Stopped c' ∧ c'.connector.sockets = c.connector.sockets ∧ c'.connector.handed = c.connector.handed := by
  have hconnect : c'.connect_ = false := by
    cases hc' : c'.connect_ with
    | false => rfl
    | true => cases h.connect_.symm.trans (hafter.connect_ h.starts hc')
  rcases hafter.connector with heq | ⟨k, hl, honce, hk, hrestart⟩
  · exact ⟨⟨heq ▸ h.starts, hconnect, heq ▸ h.connector⟩, by rw [heq], by rw [heq]⟩
  · obtain ⟨hstop, hstart, hhanded, hsockets⟩ := hc.once.stopped_step hl honce hk
      (fun err herr => by cases h.connect_.symm.trans (hrestart err herr)) h.connector h.starts
    exact ⟨⟨hstart, hconnect, hstop⟩, hsockets, hhanded⟩

theorem Stopped.steps {es : List Event} (h : Stopped c) (hc : Inv c) (hrun : Steps c es c') :
    c'.connector.sockets = c.connector.sockets ∧ c'.connector.handed = c.connector.handed := by
  induction hrun with
  | nil => exact ⟨rfl, rfl⟩
  | @cons c c₁ c₂ e es hok hs _ ih =>
    obtain ⟨c₁', hs', hafter⟩ := hc.step hok.1 hok.2
    cases hs.symm.trans hs'
    obtain ⟨h₁, hsockets, hhanded⟩ := h.step hc hafter
    obtain ⟨hsockets', hhanded'⟩ := ih h₁ hafter.inv
    exact ⟨hsockets'.trans hsockets, hhanded'.trans hhanded⟩

theorem stop_eq (c : TcpClient) : c.step .stop = some { c with connect_ := false, connector := c.connector.stop } := by
  simp [TcpClient.step, stop, TcpClient.advance, Connector.step, Connector.stop, TaskQueue.pushAll]

/-- **One connection at a time.** In every run with one `connect()`, `stop()` and `disconnect()` at any later time, and no
connection closed twice: no assert fails, neither of the client nor of its connector, and the connector is used by its rules;
every socket is closed by the connector or becomes a connection, once; the client holds every open connection that is not about to be
destroyed, and while it holds one, no attempt is under way or to come; no two connections have the same name; and after
`stop()` no socket is made. -/
theorem client_one_connection {es : List Event} (h : Steps init es c) :
    (∃ ks, Connector.OnceSteps .init ks c.connector) ∧ (∀ e, e.Legal c → c.Careful e → ∃ c', c.step e = some c') ∧
    (∀ i < c.connector.sockets, c.connector.Owned i) ∧ (∀ i, c.conns i ≠ none ↔ i ∈ c.connector.handed) ∧
    (∀ i conn, c.conns i = some conn → conn.isOpen →
      c.connection_ = some i ∨ .conn i .connectDestroyed ∈ c.queue.all) ∧
    (c.connection_ ≠ none → c.connector.state = .kConnected ∧ c.connector.waiting = 0) ∧
    (∀ i j conn conn', c.conns i = some conn → c.conns j = some conn' → conn.connId = conn'.connId → i = j) ∧
    (∀ es' c', Steps c (.stop :: es') c' →
      c'.connector.sockets = c.connector.sockets ∧ c'.connector.handed = c.connector.handed) := by
  have hinv := Inv.of_steps h
  refine ⟨Inv.init.refines h, fun e hl hcareful => ?_, fun i hi => hinv.once.inv.owned hi, hinv.conns,
    fun i conn hconn => (hinv.opened hconn).1, fun hne => ?_, fun i j conn conn' => hinv.distinct, ?_⟩
  · obtain ⟨c', hc', -⟩ := hinv.step hl hcareful
    exact ⟨c', hc'⟩
  · obtain ⟨i, hi⟩ := Option.ne_none_iff_exists'.1 hne
    have hstate := hinv.kConnected hi
    refine ⟨hstate, ?_⟩
    by_contra hwaiting
    cases hstate.symm.trans (hinv.once.inv.waiting_state (Nat.pos_of_ne_zero hwaiting))
  · rintro es' c' (_ | ⟨hok, hs, hrest⟩)
    obtain ⟨c₁, hs₁, hafter⟩ := hinv.step hok.1 hok.2
    cases hs.symm.trans hs₁
    cases (stop_eq c).symm.trans hs
    have hstopped : Stopped { c with connect_ := false, connector := c.connector.stop } := ⟨hok.2, rfl, rfl⟩
    exact hstopped.steps hafter.inv hrest

/-- A connection that is closed by the peer, a second one instead of it, and `stop()`. -/
theorem client_one_connection_again : ∃ c, Steps init [.enableRetry, .connect true .EINPROGRESS, .poll [] [] (some 0x004) [],
      .handleEvent, .callback 0 false, .doPendingFunctors, .functor .zero, .finish, .poll [] [] none [0], .handleEvent,
      .close 0 .EINPROGRESS, .doPendingFunctors, .functor .zero, .finish, .poll [] [] (some 0x004) [], .handleEvent,
      .callback 0 false, .stop] c ∧ c.connection_ = some 1 ∧ ∀ i < 2, c.connector.Owned i :=
  have h := Run.of_exec _ _ (by decide +kernel)
  ⟨_, h, by decide +kernel, fun i hi => (client_one_connection h).2.2.1 i (Nat.lt_of_lt_of_le hi (by decide +kernel))⟩

end TcpClient
end ChatReactor
