import ChatReactor.FileServerProofs

/-!
# The phases of a file session

`download.cc` sends the file in one piece; `download2.cc` and `download3.cc` send it chunk by chunk, each chunk when
`onWriteComplete` says that the one before is gone. That callback has two sources, the direct write of `sendInLoop` and
`handleWrite`. The phases of a session say that there is always exactly one of them to come: a chunked session is `Waiting`
for a functor that is queued, or `Writing` out of a buffer that `handleWrite` will empty, until it is `Finished`.
`rank` falls with every functor that gets its turn and every write that takes a byte.
-/

namespace ChatReactor

/-- The result of a `::write` of `len` bytes on a socket that is up: any part of them may be taken, or it may
block; nothing to write is written at once. -/
structure WriteResult.Works (len : Nat) (r : WriteResult) : Prop where
  legal : r.Legal len
  noFault : r ≠ .fault
  zero : len = 0 → r = .wrote 0

namespace TcpConnection
variable {c c' : TcpConnection} {m : List UInt8} {r : WriteResult} {fs : List LoopFunctor}

/-- `sendInLoop` with nothing in front of the message: the kernel takes all of it, or the rest is buffered. -/
theorem Sent.idle (h : Sent c m r c' fs) (hup : c.state ≠ .kDisconnected) (hw : c.isWriting = false)
    (hempty : c.outputBuffer.readableBytes = 0) (hr : r.Works m.length) :
    (c' = { c with wire := c.wire ++ m } ∧ fs = if c.hasWriteCompleteCallback then [.writeCompleteCallback] else []) ∨
    ∃ n b, n < m.length ∧ c' = ({ c with wire := c.wire ++ m.take n, outputBuffer := b } : TcpConnection).enableWriting ∧
      b.WF ∧ b.content = c.outputBuffer.content ++ m.drop n ∧ ∀ f ∈ fs, ∃ len, f = .highWaterMarkCallback len := by
  cases h with
  | down hdown => exact absurd hdown hup
  | direct _ hle =>
    have hall : r = .wrote m.length := by
      cases r with
      | wrote n =>
        have hge : m.length ≤ n := by simpa [directWrite, hw, hempty] using hle
        exact congrArg _ (Nat.le_antisymm hr.legal hge)
      | wouldBlock =>
        have hzero : m.length = 0 := by simpa [directWrite, hw, hempty] using hle
        exact absurd (hr.zero hzero) (by simp)
      | error =>
        have hzero : m.length = 0 := by simpa [directWrite, hw, hempty] using hle
        exact absurd (hr.zero hzero) (by simp)
      | fault => exact absurd rfl hr.noFault
    subst hall
    refine .inl ⟨by simp [directWrite, hw, hempty], ?_⟩
    simp [directComplete, hw, hempty]
  | rest b _ _ _ hlt hwf hcontent hfs =>
    refine .inr ⟨_, b, hlt, ?_, hwf, hcontent, hfs⟩
    have hw' : ({ c with wire := c.wire ++ m.take (c.directWrite r).1 } : TcpConnection).isWriting = false := hw
    simp [buffered, hw']

end TcpConnection

namespace FileServer
open TcpConnection

/-! ## The phases of a session -/

/-- Before the end of the stream: what the kernel has, what is buffered and what has not been read are the file. -/
structure Open (p : Program) (content : List UInt8) (s : Session) : Prop where
  wf : s.conn.outputBuffer.WF
  callback : s.conn.hasWriteCompleteCallback = p.writeComplete
  slot : s.conn.slot = some true
  shutdownWrites : s.conn.shutdownWrites = 0
  bytes : s.conn.output ++ s.file.rest = content
  notices : ∀ f ∈ s.world.queue.all, f.Notice

/-- The chunk is gone, and `onWriteComplete` is queued. -/
structure Waiting (p : Program) (content : List UInt8) (s : Session) : Prop extends Open p content s where
  chunked : p.writeComplete = true
  context : s.context = .file
  state : s.conn.state = .kConnected
  events : s.conn.events = kReadEvent
  empty : s.conn.outputBuffer.content = []
  trigger : s.world.queue.all.count .writeCompleteCallback = 1

/-- `handleWrite` has something to write. -/
structure Writing (p : Program) (content : List UInt8) (s : Session) : Prop extends Open p content s where
  state : s.conn.state = if p.writeComplete then .kConnected else .kDisconnecting
  events : s.conn.events = kReadEvent ||| kWriteEvent
  pending : s.conn.outputBuffer.content ≠ []
  trigger : s.world.queue.all.count .writeCompleteCallback = 0
  chunk : p.writeComplete = true → s.context = .file ∧ s.conn.outputBuffer.content.length ≤ kBufSize
  whole : p.writeComplete = false → s.file.rest = []

/-- The kernel has the file and the end of the stream, and nothing more is sent. -/
structure Finished (content : List UInt8) (s : Session) : Prop where
  wf : s.conn.outputBuffer.WF
  wire : s.conn.wire = content
  shutdownWrites : s.conn.shutdownWrites = 1
  empty : s.conn.outputBuffer.content = []
  quiet : s.conn.isWriting = false
  state : s.conn.state ≠ .kConnected ∧ s.conn.state ≠ .kConnecting
  queue : ∀ f ∈ s.world.queue.all, f = .connectDestroyed ∨ ∃ len, f = .highWaterMarkCallback len

inductive Phase (p : Program) (content : List UInt8) (s : Session) : Prop
  | waiting : Waiting p content s → Phase p content s
  | writing : Writing p content s → Phase p content s
  | finished : Finished content s → Phase p content s

/-- What is left to do. -/
def rank (s : Session) : Nat :=
  3 * s.file.rest.length + s.conn.outputBuffer.content.length +
    if .writeCompleteCallback ∈ s.world.queue.batch then 1 else 2

theorem rank_le (s : Session) : rank s ≤ 3 * s.file.rest.length + s.conn.outputBuffer.content.length + 2 := by
  unfold rank
  split <;> omega

/-! ## Sending -/

section
variable {p : Program} {content m : List UInt8} {s s' : Session} {r : WriteResult} {g_file : Option (List UInt8)}

/-- A chunked session is idle, and `m` has been read. -/
structure Ready (p : Program) (content m : List UInt8) (s : Session) : Prop where
  wf : s.conn.outputBuffer.WF
  callback : s.conn.hasWriteCompleteCallback = p.writeComplete
  slot : s.conn.slot = some true
  shutdownWrites : s.conn.shutdownWrites = 0
  state : s.conn.state = .kConnected
  events : s.conn.events = kReadEvent
  empty : s.conn.outputBuffer.content = []
  bytes : s.conn.wire ++ m ++ s.file.rest = content
  notices : ∀ f ∈ s.world.queue.all, f.Notice
  trigger : s.world.queue.all.count .writeCompleteCallback = 0

/-- `shutdown()` of a connection that has written all ends the stream. -/
theorem Finished.shutdown (hwf : s.conn.outputBuffer.WF) (hstate : s.conn.state = .kConnected) (hw : s.conn.isWriting = false)
    (hempty : s.conn.outputBuffer.content = []) (hshut : s.conn.shutdownWrites = 0) (hwire : s.conn.wire = content)
    (hqueue : ∀ f ∈ s.world.queue.all, f = .connectDestroyed ∨ ∃ len, f = .highWaterMarkCallback len) :
    Finished content s.shutdown := by
  rw [Session.shutdown_eq hstate, shutdownInLoop_idle (by exact hw)]
  exact ⟨hwf, hwire, congrArg (· + 1) hshut, hempty, hw, by simp, hqueue⟩

theorem Ready.sent (h : Ready p content m s) (hr : r.Works m.length) :
    ∃ c' fs accepted ran, s.send m r = some { s with world := { s.world with
        conn := c', queue := s.world.queue.pushAll fs, accepted := accepted, ran := ran } } ∧
      ((c' = { s.conn with wire := s.conn.wire ++ m } ∧ fs = if p.writeComplete then [.writeCompleteCallback] else []) ∨
      ∃ n b, n < m.length ∧ b.WF ∧ b.content = m.drop n ∧ (∀ f ∈ fs, ∃ len, f = .highWaterMarkCallback len) ∧
        c' = { s.conn with
          wire := s.conn.wire ++ m.take n, outputBuffer := b, events := kReadEvent ||| kWriteEvent }) := by
  obtain ⟨c', fs, accepted, ran, hsend, hsent⟩ := Session.send_sent h.wf h.state m r
  refine ⟨c', fs, accepted, ran, hsend, ?_⟩
  have hup : s.conn.state ≠ .kDisconnected := by
    rw [h.state]
    decide
  rcases hsent.idle hup (isWriting_read h.events) ((readableBytes_eq_zero h.wf).2 h.empty) hr with
    ⟨hc', hfs⟩ | ⟨n, b, hlt, hc', hwf, hcontent, hfs⟩
  · rw [h.callback] at hfs
    exact .inl ⟨hc', hfs⟩
  · rw [h.empty] at hcontent
    rw [enableWriting_read (c := { s.conn with wire := s.conn.wire ++ m.take n, outputBuffer := b }) h.slot h.events] at hc'
    exact .inr ⟨n, b, hlt, hwf, hcontent, hfs, hc'⟩

theorem Ready.batch (h : Ready p content m s) : .writeCompleteCallback ∉ s.world.queue.batch := fun hmem =>
  List.count_eq_zero.1 h.trigger (List.mem_append_left _ hmem)

/-- A chunk is sent: it is gone and `onWriteComplete` queued, or the rest of it is being written. -/
theorem Ready.sendChunk (h : Ready p content m s) (hp : p.writeComplete = true) (hctx : s.context = .file)
    (hlen : m.length ≤ kBufSize) (hr : r.Works m.length) : ∃ s', s.send m r = some s' ∧ Phase p content s' ∧
      rank s' ≤ 3 * s.file.rest.length + m.length + 2 := by
  obtain ⟨c', fs, accepted, ran, hsend, ⟨rfl, rfl⟩ | ⟨n, b, hlt, hwf, hcontent, hfs, rfl⟩⟩ := h.sent hr
  · rw [hp, if_pos rfl] at hsend
    refine ⟨_, hsend, .waiting ⟨⟨h.wf, h.callback, h.slot, h.shutdownWrites, ?_, ?_⟩, hp, hctx, h.state, h.events, h.empty, ?_⟩, ?_⟩
    · simpa [output, h.empty] using h.bytes
    · exact notices_append h.notices (by simp [LoopFunctor.Notice])
    · simp [h.trigger]
    · simp [rank, TaskQueue.pushAll, h.batch, h.empty]
  · refine ⟨_, hsend, .writing ⟨⟨hwf, h.callback, h.slot, h.shutdownWrites, ?_, ?_⟩, ?_, rfl, ?_, ?_, fun _ => ⟨hctx, ?_⟩, ?_⟩, ?_⟩
    · simpa [output, hcontent] using h.bytes
    · exact notices_append h.notices (notice_highWater hfs)
    · rw [hp, if_pos rfl]
      exact h.state
    · simpa [hcontent] using hlt
    · simp [h.trigger, count_highWater hfs]
    · simp only [hcontent, List.length_drop]
      omega
    · intro hp'
      rw [hp] at hp'
      cases hp'
    · simp only [rank, TaskQueue.pushAll, h.batch, hcontent, List.length_drop, if_false]
      omega

/-- The whole file is sent and `shutdown()` called: the stream is at its end, or will be when the rest is written. -/
theorem Ready.sendWhole (h : Ready .download content m s) (hrest : s.file.rest = []) (hr : r.Works m.length) :
    ∃ s', s.send m r = some s' ∧ Phase .download content s'.shutdown := by
  obtain ⟨c', fs, accepted, ran, hsend, ⟨rfl, rfl⟩ | ⟨n, b, hlt, hwf, hcontent, hfs, rfl⟩⟩ := h.sent hr
  · refine ⟨_, hsend, .finished ?_⟩
    refine Finished.shutdown h.wf h.state (isWriting_read h.events) h.empty h.shutdownWrites ?_ fun f hf => ?_
    · simpa [hrest] using h.bytes
    · rw [TaskQueue.all_pushAll, Program.writeComplete, if_neg Bool.false_ne_true, List.append_nil] at hf
      exact .inr (notice_cases (h.notices f hf) fun he => List.count_eq_zero.1 h.trigger (he ▸ hf))
  · refine ⟨_, hsend, .writing ?_⟩
    rw [Session.shutdown_eq (by exact h.state), shutdownInLoop_writing (isWriting_write rfl)]
    refine ⟨⟨hwf, h.callback, h.slot, h.shutdownWrites, ?_, notices_append h.notices (notice_highWater hfs)⟩, rfl, rfl, ?_, ?_,
      fun hp => ?_, fun _ => hrest⟩
    · simpa [output, hcontent] using h.bytes
    · simpa [hcontent] using hlt
    · simp [h.trigger, count_highWater hfs]
    · cases hp

/-! ## One event -/

/-- Neither side closes the connection before the end of the stream, and no chunk fails with `EPIPE` or `ECONNRESET`. -/
def Event.Smooth (s : Session) : Event → Prop
  | .callback n _ => s.world.todo.head? = some .close ∨ s.world.todo.head? = some .read ∧ n = 0 → s.conn.shutdownWrites ≠ 0
  | .functor r => s.world.queue.batch.head? = some .writeCompleteCallback → r ≠ .fault
  | _ => True

instance (s : Session) : ∀ e : Event, Decidable (e.Smooth s)
  | .callback n _ => inferInstanceAs (Decidable
      (s.world.todo.head? = some .close ∨ s.world.todo.head? = some .read ∧ n = 0 → s.conn.shutdownWrites ≠ 0))
  | .functor _ => inferInstanceAs (Decidable (_ → _))
  | .poll _ | .swap => .isTrue trivial

/-- `handleWrite` gets rid of a byte or more. -/
def Event.Writes (s : Session) : Event → Prop
  | .callback _ r => s.world.todo.head? = some .write ∧ s.conn.isWriting = true ∧ ∃ n, r = .wrote (n + 1)
  | _ => False

variable {e : Event}

theorem Event.Writes.isWriting (h : e.Writes s) : s.conn.isWriting = true := by
  cases e with
  | callback n r => exact h.2.1
  | _ => cases h

variable {todo : List Callback}

/-- What a callback of the channel comes to before the end of the stream, other than a write. -/
theorem Open.callback_idle (h : Open p content s) {n : Int} {k : Callback} (htodo : s.world.todo = k :: todo)
    (hs : (Event.callback n r).Smooth s) (hk : k ≠ .write) :
    s.step p g_file (.callback n r) = some { s with world := { s.world with todo := todo } } := by
  have hearly : ¬ (s.world.todo.head? = some .close ∨ s.world.todo.head? = some .read ∧ n = 0) :=
    fun hclose => hs hclose h.shutdownWrites
  rw [htodo] at hearly
  cases k with
  | close => exact absurd (Or.inl rfl) hearly
  | error => simp [Session.step, Event.inWorld, World.step, htodo, World.callback, Session.calledBack]
  | read =>
    have hn : n ≠ 0 := fun hn => hearly (Or.inr ⟨rfl, hn⟩)
    simp [Session.step, Event.inWorld, World.step, htodo, World.callback, World.handleRead, hn, Session.calledBack]
  | write => exact absurd rfl hk

variable {f : LoopFunctor} {batch : List LoopFunctor}

theorem rank_popped (hb : s.world.queue.batch = f :: batch) (hf : f ≠ .writeCompleteCallback) :
    rank (s.popped batch) = rank s := by
  by_cases hmem : .writeCompleteCallback ∈ batch
  · simp [rank, Session.popped, hb, hmem]
  · simp [rank, Session.popped, hb, hmem, hf.symm]

/-- Nothing has happened but that functors have moved up in the queue. -/
structure Idle (s s' : Session) : Prop where
  conn : s'.conn = s.conn
  context : s'.context = s.context
  file : s'.file = s.file
  queue : ∀ f ∈ s'.world.queue.all, f ∈ s.world.queue.all
  trigger : s'.world.queue.all.count .writeCompleteCallback = s.world.queue.all.count .writeCompleteCallback
  rank : rank s' ≤ rank s

theorem Idle.of_queue (s' : Session) (hconn : s'.conn = s.conn) (hcontext : s'.context = s.context) (hfile : s'.file = s.file)
    (hqueue : s'.world.queue = s.world.queue) : Idle s s' := by
  refine ⟨hconn, hcontext, hfile, fun f hf => hqueue ▸ hf, by rw [hqueue], Nat.le_of_eq ?_⟩
  rw [FileServer.rank, hconn, hfile, hqueue, FileServer.rank]

theorem Open.idle (h : Open p content s) (hi : Idle s s') : Open p content s' := by
  obtain ⟨hconn, -, hfile, hqueue, -, -⟩ := hi
  exact ⟨hconn ▸ h.wf, hconn ▸ h.callback, hconn ▸ h.slot, hconn ▸ h.shutdownWrites, hconn ▸ hfile ▸ h.bytes,
    fun f hf => h.notices f (hqueue f hf)⟩

theorem Waiting.idle (h : Waiting p content s) (hi : Idle s s') : Waiting p content s' :=
  ⟨h.toOpen.idle hi, h.chunked, hi.context.trans h.context, hi.conn ▸ h.state, hi.conn ▸ h.events, hi.conn ▸ h.empty,
    hi.trigger.trans h.trigger⟩

theorem Writing.idle (h : Writing p content s) (hi : Idle s s') : Writing p content s' :=
  ⟨h.toOpen.idle hi, hi.conn ▸ h.state, hi.conn ▸ h.events, hi.conn ▸ h.pending, hi.trigger.trans h.trigger,
    hi.conn ▸ hi.context ▸ h.chunk, hi.file ▸ h.whole⟩

/-- A swap of the list brings the functor into the batch. -/
theorem idle_swap (hbatch : s.world.queue.batch = []) (hs' : s' = { s with world := { s.world with queue := s.world.queue.swap } }) :
    Idle s s' ∧ (.writeCompleteCallback ∈ s.world.queue.all → rank s' < rank s) := by
  have hall := TaskQueue.all_swap hbatch
  subst hs'
  refine ⟨⟨rfl, rfl, rfl, fun f hf => hall ▸ hf, congrArg _ hall, ?_⟩, fun hmem => ?_⟩
  · refine Nat.le_trans (rank_le _) (Nat.le_of_eq ?_)
    simp [rank, hbatch]
  · have hpending : .writeCompleteCallback ∈ s.world.queue.pending := by
      rwa [TaskQueue.all, hbatch, List.nil_append] at hmem
    simp [rank, TaskQueue.swap, hpending, hbatch]

theorem idle_popped (hb : s.world.queue.batch = f :: batch) (hf : f ≠ .writeCompleteCallback) :
    Idle s (s.popped batch) := by
  have hall := popped_all hb
  refine ⟨rfl, rfl, rfl, fun f hf => hall ▸ List.mem_cons_of_mem _ hf, ?_, Nat.le_of_eq (rank_popped hb hf)⟩
  rw [hall, List.count_cons_of_ne hf]

/-- Before the end of the stream only two kinds of events do something: a write, and `onWriteComplete`. -/
theorem Open.step_cases (h : Open p content s) (hl : e.Legal s) (hs : e.Smooth s) :
    (∃ n r todo, e = .callback n r ∧ s.world.todo = .write :: todo) ∨
    (∃ r batch, e = .functor r ∧ s.world.queue.batch = .writeCompleteCallback :: batch) ∨
    ∃ s', s.step p g_file e = some s' ∧ Idle s s' ∧ ¬ e.Writes s ∧
      (e = .swap → .writeCompleteCallback ∈ s.world.queue.all → rank s' < rank s) := by
  cases e with
  | poll revents => exact .inr (.inr ⟨_, rfl, .of_queue _ rfl rfl rfl rfl, id, by simp⟩)
  | callback n r =>
    obtain ⟨k, todo, htodo⟩ := List.exists_cons_of_ne_nil hl.1
    by_cases hk : k = .write
    · exact .inl ⟨n, r, todo, rfl, hk ▸ htodo⟩
    · refine .inr (.inr ⟨_, h.callback_idle htodo hs hk, .of_queue _ rfl rfl rfl rfl, fun hwrites => ?_, by simp⟩)
      rw [Event.Writes, htodo] at hwrites
      exact hk (Option.some.inj hwrites.1)
  | swap =>
    obtain ⟨hidle, hlt⟩ := idle_swap (s := s) hl.2 rfl
    exact .inr (.inr ⟨_, rfl, hidle, id, fun _ => hlt⟩)
  | functor r =>
    obtain ⟨f, batch, hb⟩ := List.exists_cons_of_ne_nil hl.2.1
    by_cases hf : f = .writeCompleteCallback
    · exact .inr (.inl ⟨r, batch, rfl, hf ▸ hb⟩)
    · obtain ⟨len, rfl⟩ := notice_cases (h.notices f (by simp [popped_all hb])) hf
      exact .inr (.inr ⟨_, step_highWater hb, idle_popped hb hf, id, by simp⟩)

/-- The functor is off the queue, and the next chunk has been read. -/
theorem Waiting.ready (h : Waiting p content s) (hb : s.world.queue.batch = .writeCompleteCallback :: batch) :
    Ready p content s.chunk (s.popped batch).readChunk := by
  have hall := popped_all hb
  refine ⟨h.wf, h.callback, h.slot, h.shutdownWrites, h.state, h.events, h.empty, ?_, fun f hf => ?_, ?_⟩
  · have hout := h.bytes
    rw [output, h.empty, List.append_nil] at hout
    rw [List.append_assoc]
    exact (congrArg _ (List.take_append_drop _ _)).trans hout
  · exact h.notices f (hall ▸ List.mem_cons_of_mem _ hf)
  · have hone := h.trigger
    rw [hall, List.count_cons_self] at hone
    exact Nat.succ.inj hone

/-- `onWriteComplete` sends the next chunk, or ends the stream at the end of the file. -/
theorem Waiting.writeComplete (h : Waiting p content s) (hb : s.world.queue.batch = .writeCompleteCallback :: batch)
    (hl : r.Legal s.chunk.length) (hf : r ≠ .fault) :
    ∃ s', s.step p g_file (.functor r) = some s' ∧ Phase p content s' ∧ (Finished content s' ∨ rank s' ≤ rank s) := by
  have hready := h.ready hb
  obtain ⟨context, file, heq⟩ := onWriteComplete_eq h.chunked (s.popped batch) r
  rw [step_writeComplete hb, heq, sendNext_file (by exact h.context)]
  split
  · rename_i hpos
    have hpos : 0 < s.chunk.length := hpos
    obtain ⟨s', hsend, hphase, hrank⟩ := hready.sendChunk h.chunked h.context (List.length_take_le _ _)
      ⟨hl, hf, fun hzero => absurd hzero (Nat.ne_of_gt hpos)⟩
    refine ⟨s', hsend, hphase, .inr (Nat.le_trans hrank ?_)⟩
    -- a chunk of `k` bytes takes `3 * k` off the file and adds at most `k + 1`
    have hread : s.chunk.length + (s.popped batch).readChunk.file.rest.length = s.file.rest.length := by
      rw [← List.length_append]
      exact congrArg _ (List.take_append_drop _ _)
    rw [rank, h.empty, hb, if_pos List.mem_cons_self, List.length_nil]
    omega
  · rename_i hzero
    have hnil : s.chunk = [] := List.length_eq_zero_iff.1 (Nat.eq_zero_of_not_pos hzero)
    have hend : s.file.rest = [] := (List.take_eq_nil_iff.1 hnil).resolve_left (Nat.ne_of_gt kBufSize_pos)
    have hwire : s.conn.wire = content := by
      have hout := h.bytes
      rwa [output, h.empty, hend, List.append_nil, List.append_nil] at hout
    have hfinished : Finished content (⟨(s.popped batch).world, context (s.popped batch).readChunk,
        file (s.popped batch).readChunk⟩ : Session).shutdown := by
      refine Finished.shutdown h.wf h.state (isWriting_read h.events) h.empty h.shutdownWrites hwire fun f hf => .inr ?_
      exact notice_cases (hready.notices f hf) fun he => List.count_eq_zero.1 hready.trigger (he ▸ hf)
    exact ⟨_, rfl, .finished hfinished, .inl hfinished⟩

/-- **One event of a waiting session**: it passes its asserts, and a round of the loop brings the functor nearer. -/
theorem Waiting.step (h : Waiting p content s) (hl : e.Legal s) (hs : e.Smooth s) :
    ∃ s', s.step p g_file e = some s' ∧ Phase p content s' ∧
      (Finished content s' ∨ rank s' ≤ rank s ∧ (e = .swap → rank s' < rank s)) := by
  rcases h.step_cases hl hs with ⟨n, r, todo, rfl, htodo⟩ | ⟨r, batch, rfl, hb⟩ | ⟨s', hs', hidle, -, hswap⟩
  · have hnone : s.conn.handleWrite r = some (s.conn, []) := by simp [handleWrite, isWriting_read h.events]
    have hidle := Idle.of_queue (s := s)
      { s with world := { s.world with todo := todo, conn := s.conn, queue := s.world.queue.pushAll [] } }
      rfl rfl rfl (pushAll_nil _)
    exact ⟨_, step_write htodo hnone, .waiting (h.idle hidle), .inr ⟨hidle.rank, by simp⟩⟩
  · have hlegal : r.Legal s.chunk.length := hl.2.2 .writeCompleteCallback (by rw [hb]; rfl)
    obtain ⟨s', hs', hphase, hrank⟩ := h.writeComplete hb hlegal (hs (by rw [hb]; rfl))
    exact ⟨s', hs', hphase, hrank.imp_right fun hle => ⟨hle, by simp⟩⟩
  · have hmem : .writeCompleteCallback ∈ s.world.queue.all := List.count_pos_iff.1 (by rw [h.trigger]; decide)
    exact ⟨s', hs', .waiting (h.idle hidle), .inr ⟨hidle.rank, fun he => hswap he hmem⟩⟩

/-- `handleWrite` has written the whole buffer: the next chunk can be read, or the stream ends. -/
theorem Writing.emptied (h : Writing p content s) {b : Buffer} (hwf : b.WF) (hempty : b.content = []) :
    Phase p content { s with world := { s.world with
        todo := todo
        conn := ({ s.conn with wire := s.conn.wire ++ s.conn.outputBuffer.content, outputBuffer := b } : TcpConnection).emptied
        queue := s.world.queue.pushAll (if s.conn.hasWriteCompleteCallback then [.writeCompleteCallback] else []) } } := by
  have hdisable := disableWriting_write
    (c := { s.conn with wire := s.conn.wire ++ s.conn.outputBuffer.content, outputBuffer := b }) h.slot h.events
  have hstate := h.state
  rw [h.callback, TcpConnection.emptied, hdisable]
  cases hp : p.writeComplete with
  | true =>
    rw [hp, if_pos rfl] at hstate
    have hopen : s.conn.state ≠ .kDisconnecting := by
      rw [hstate]
      decide
    rw [if_neg (by exact hopen), if_pos rfl]
    refine .waiting ⟨⟨hwf, h.callback, h.slot, h.shutdownWrites, ?_, ?_⟩, hp, (h.chunk hp).1, hstate, rfl, hempty, ?_⟩
    · simpa [output, hempty] using h.bytes
    · exact notices_append h.notices (by simp [LoopFunctor.Notice])
    · simp [h.trigger]
  | false =>
    rw [hp, if_neg Bool.false_ne_true] at hstate
    rw [if_pos (by exact hstate), if_neg Bool.false_ne_true, pushAll_nil]
    refine .finished ⟨hwf, ?_, congrArg (· + 1) h.shutdownWrites, hempty, isWriting_read rfl, ?_, fun f hf => .inr ?_⟩
    · simpa [output, h.whole hp] using h.bytes
    · simp [hstate]
    · exact notice_cases (h.notices f hf) fun he => List.count_eq_zero.1 h.trigger (he ▸ hf)

theorem Writing.rank_eq (h : Writing p content s) :
    rank s = 3 * s.file.rest.length + s.conn.outputBuffer.content.length + 2 := by
  have hquiet : .writeCompleteCallback ∉ s.world.queue.batch := fun hmem =>
    List.count_eq_zero.1 h.trigger (List.mem_append_left _ hmem)
  rw [rank, if_neg hquiet]

theorem Writing.rank_lt (h : Writing p content s) (s' : Session) (hfile : s'.file = s.file) (hempty : s'.conn.outputBuffer.content = []) :
    rank s' < rank s := by
  have hle := rank_le s'
  have hpos := List.length_pos_iff.2 h.pending
  rw [hfile, hempty, List.length_nil] at hle
  rw [h.rank_eq]
  omega

/-- `handleWrite` writes what it can. -/
theorem Writing.wrote (h : Writing p content s) {n : Int} (htodo : s.world.todo = .write :: todo)
    (hl : r.Legal s.conn.outputBuffer.readableBytes) :
    ∃ s', s.step p g_file (.callback n r) = some s' ∧ Phase p content s' ∧
      (Finished content s' ∨ rank s' ≤ rank s ∧ ((Event.callback n r).Writes s → rank s' < rank s)) := by
  obtain ⟨c', fs, hc', hwrote⟩ := handleWrite_wrote h.wf hl
  refine ⟨_, step_write htodo hc', ?_⟩
  cases hwrote with
  | none hnone =>
    have hidle := Idle.of_queue (s := s)
      { s with world := { s.world with todo := todo, conn := s.conn, queue := s.world.queue.pushAll [] } }
      rfl rfl rfl (pushAll_nil _)
    refine ⟨.writing (h.idle hidle), .inr ⟨hidle.rank, fun hwrites => ?_⟩⟩
    obtain ⟨-, -, n, hr⟩ := hwrites
    exact absurd hr (hnone (isWriting_write h.events) n)
  | part n b hw hr hwf hcontent hne =>
    rw [pushAll_nil]
    have hshort : b.content.length < s.conn.outputBuffer.content.length := by
      have hpos := List.length_pos_iff.2 h.pending
      rw [hcontent, List.length_drop]
      omega
    have hwriting : Writing p content { s with world := { s.world with
        todo := todo
        conn := { s.conn with wire := s.conn.wire ++ s.conn.outputBuffer.content.take (n + 1), outputBuffer := b } } } := by
      refine { h with wf := hwf, bytes := ?_, pending := hne, chunk := fun hp => ⟨(h.chunk hp).1, ?_⟩ }
      · have hout := h.bytes
        rw [output] at hout
        rw [output, hcontent, List.append_assoc s.conn.wire, List.take_append_drop]
        exact hout
      · exact Nat.le_trans (Nat.le_of_lt hshort) (h.chunk hp).2
    refine ⟨.writing hwriting, .inr ?_⟩
    rw [h.rank_eq, hwriting.rank_eq]
    dsimp only
    omega
  | all b hw hr hwf hempty =>
    have hlt := h.rank_lt { s with world := { s.world with
      todo := todo
      conn := ({ s.conn with wire := s.conn.wire ++ s.conn.outputBuffer.content, outputBuffer := b } : TcpConnection).emptied
      queue := s.world.queue.pushAll (if s.conn.hasWriteCompleteCallback then [.writeCompleteCallback] else []) } } rfl
      (by rw [(emptied_fields _).1]; exact hempty)
    exact ⟨h.emptied hwf hempty, .inr ⟨Nat.le_of_lt hlt, fun _ => hlt⟩⟩

/-- **One event of a writing session**: it passes its asserts, and what `handleWrite` writes is off the buffer. -/
theorem Writing.step (h : Writing p content s) (hl : e.Legal s) (hs : e.Smooth s) :
    ∃ s', s.step p g_file e = some s' ∧ Phase p content s' ∧
      (Finished content s' ∨ rank s' ≤ rank s ∧ (e.Writes s → rank s' < rank s)) := by
  rcases h.step_cases hl hs with ⟨n, r, todo, rfl, htodo⟩ | ⟨r, batch, rfl, hb⟩ | ⟨s', hs', hidle, hno, -⟩
  · exact h.wrote htodo hl.2
  · refine absurd h.trigger (Nat.ne_of_gt (List.count_pos_iff.2 ?_))
    rw [popped_all hb]
    exact List.mem_cons_self
  · exact ⟨s', hs', .writing (h.idle hidle), .inr ⟨hidle.rank, fun hwrites => absurd hwrites hno⟩⟩

/-! ## After the end of the stream -/

theorem Finished.of_world (h : Finished content s) (hw : s'.world = s.world) : Finished content s' := by
  obtain ⟨world, context, file⟩ := s'
  cases hw
  exact { h with }

/-- `handleClose` leaves the bytes alone. -/
theorem Finished.handleClose (h : Finished content s) {w' : World}
    (hw' : ({ s.world with todo := todo } : World).handleClose = some w') : Finished content { s with world := w' } := by
  have hquiet : s.conn.disableAll.isWriting = false := disableAll_isWriting s.conn
  obtain ⟨-, ⟨-, -, rfl⟩ | ⟨-, rfl⟩⟩ := World.handleClose_eq hw'
  · refine ⟨h.wf, h.wire, h.shutdownWrites, h.empty, hquiet, h.state, fun f hf => ?_⟩
    rw [TaskQueue.all_push] at hf
    rcases List.mem_append.1 hf with hf | hf
    · exact h.queue f hf
    · exact .inl (List.mem_singleton.1 hf)
  · exact ⟨h.wf, h.wire, h.shutdownWrites, h.empty, hquiet, h.state, h.queue⟩

theorem Finished.popped (h : Finished content s) (hb : s.world.queue.batch = f :: batch) :
    ∀ f ∈ (s.popped batch).world.queue.all, f = .connectDestroyed ∨ ∃ len, f = .highWaterMarkCallback len :=
  fun f hf => h.queue f (popped_all hb ▸ List.mem_cons_of_mem _ hf)

theorem Finished.connectDestroyed (h : Finished content s) (hb : s.world.queue.batch = f :: batch) {w' : World}
    (hw' : (s.popped batch).world.connectDestroyed = some w') : Finished content { s with world := w' } := by
  obtain ⟨-, conn, hconn, rfl⟩ := World.connectDestroyed_eq hw'
  obtain rfl := removeChannel_eq hconn
  refine ⟨h.wf, h.wire, h.shutdownWrites, h.empty, ?_, ⟨StateE.noConfusion, StateE.noConfusion⟩, h.popped hb⟩
  exact disableAll_isWriting { s.conn with state := .kDisconnected }

theorem Finished.callback (h : Finished content s) {n : Int} (hl : (Event.callback n r).Legal s)
    (hs' : s.step p g_file (.callback n r) = some s') : Finished content s' := by
  obtain ⟨todo, ⟨w', hw', rfl⟩ | ⟨c', fs, hc', rfl⟩ | rfl⟩ := callback_cases hl.1 hs'
  · exact h.handleClose hw'
  · have hnone : s.conn.handleWrite r = some (s.conn, []) := by simp [handleWrite, h.quiet]
    cases hc'.symm.trans hnone
    exact { h with queue := by simpa [pushAll_nil] using h.queue }
  · exact { h with }

/-- **One event after the end of the stream.** -/
theorem Finished.step (h : Finished content s) (hl : e.Legal s) (hs' : s.step p g_file e = some s') : Finished content s' := by
  cases e with
  | poll revents =>
    cases hs'
    exact { h with }
  | callback n r => exact h.callback hl hs'
  | swap =>
    cases hs'
    exact { h with queue := fun f hf => h.queue f (TaskQueue.all_swap hl.2 ▸ hf) }
  | functor r =>
    obtain ⟨w, hw, hs'⟩ := Option.bind_eq_some_iff.1 hs'
    obtain ⟨f, batch, hb⟩ := List.exists_cons_of_ne_nil hl.2.1
    simp only [Event.inWorld, World.step, hb] at hw
    simp only [Session.calledBack, hb] at hs'
    rcases h.queue f (by simp [popped_all hb]) with rfl | ⟨len, rfl⟩
    · have hdown := h.connectDestroyed hb hw
      exact hdown.of_world (onConnection_down hdown.state.1 hs')
    · cases hw
      cases hs'
      exact { h with queue := h.popped hb }

/-! ## The first chunk -/

/-- What `onConnection` sends. -/
def Program.first (p : Program) (g_file : Option (List UInt8)) : List UInt8 :=
  if p.writeComplete then (g_file.getD []).take kBufSize else g_file.getD []

/-- A new connection is idle. -/
theorem Ready.new (p : Program) (threadId mark : Nat) (context : Context) (file : File) (h : m ++ file.rest = content) :
    Ready p content m ((⟨newWorld p threadId, context, file⟩ : Session).setHighWaterMarkCallback mark) :=
  ⟨Buffer.new_layout.wf, rfl, rfl, rfl, rfl, rfl, Buffer.new_layout.content_eq, h, fun _ hf => absurd hf List.not_mem_nil, rfl⟩

/-- `onConnection` of the chunked programs. -/
theorem sendFirst_phase (hp : p.writeComplete = true) (threadId : Nat) (hr : r.Works (p.first g_file).length) :
    ∃ s, sendFirst g_file ⟨newWorld p threadId, .empty, ⟨[], []⟩⟩ r = some s ∧ Phase p (g_file.getD []) s := by
  cases g_file with
  | none =>
    have hnew := Ready.new p threadId (kBufSize + 1) .empty ⟨[], []⟩ (List.append_nil [])
    refine ⟨_, rfl, .finished ?_⟩
    refine Finished.shutdown hnew.wf hnew.state (isWriting_read hnew.events) hnew.empty hnew.shutdownWrites rfl ?_
    exact fun _ hf => absurd hf List.not_mem_nil
  | some content =>
    rw [Program.first, if_pos hp] at hr
    have hready : Ready p content (content.take kBufSize) _ :=
      Ready.new p threadId (kBufSize + 1) .file ((⟨content, []⟩ : File).fread kBufSize).2 (List.take_append_drop _ _)
    obtain ⟨s, hsend, hphase, -⟩ := hready.sendChunk hp rfl (List.length_take_le _ _) hr
    exact ⟨s, hsend, hphase⟩

theorem connect_phase (p : Program) (threadId : Nat) (hr : r.Works (p.first g_file).length) :
    ∃ s, connect p g_file threadId r = some s ∧ Phase p (g_file.getD []) s := by
  rw [connect_eq]
  cases p with
  | download =>
    have hready : Ready .download (g_file.getD []) (g_file.getD []) _ :=
      Ready.new .download threadId (64 * 1024) .empty ⟨[], []⟩ (List.append_nil _)
    obtain ⟨s, hsend, hphase⟩ := hready.sendWhole rfl hr
    refine ⟨s.shutdown, ?_, hphase⟩
    simp only [Program.onConnection, Download.onConnection, readFile_eq, Option.bind_eq_bind, Option.bind_some, hsend]
    rfl
  | download2 => exact sendFirst_phase rfl threadId hr
  | download3 => exact sendFirst_phase rfl threadId hr

end

end FileServer
end ChatReactor
