import ChatReactor.FileServer
import ChatReactor.TcpConnectionProofs

/-!
# What the members of a file session do

One equation for each callback and each kind of event of a session, over the specifications of the connection's members.
-/

namespace ChatReactor
namespace FileServer
open TcpConnection

/-! ## Reading the file -/

theorem kBufSize_pos : 0 < kBufSize := by decide

/-- The loop reads all that is left. -/
theorem readLoop_eq {size : Nat} (hsize : 0 < size) : ∀ (fuel : Nat) (fp : File), fp.rest.length < fuel →
    readLoop size fuel fp = some fp.rest
  | 0, _, h => absurd h (Nat.not_lt_zero _)
  | fuel + 1, fp, h => by
    simp only [readLoop, File.fread, List.length_take]
    split
    · rename_i hpos
      have hshort : (fp.rest.drop size).length < fuel := by
        rw [List.length_drop]
        omega
      rw [readLoop_eq hsize fuel _ hshort]
      simp
    · rename_i hzero
      have hnil : fp.rest = [] := List.length_eq_zero_iff.1 (by omega)
      rw [hnil]

theorem readFile_eq (g_file : Option (List UInt8)) : readFile g_file = some (g_file.getD []) := by
  cases g_file with
  | none => rfl
  | some content => exact readLoop_eq (by decide) _ _ (Nat.lt_succ_self _)

/-! ## The connection -/

section
variable {c : TcpConnection}

theorem isWriting_read (h : c.events = kReadEvent) : c.isWriting = false := by
  rw [isWriting, h]
  decide

theorem isWriting_write (h : c.events = kReadEvent ||| kWriteEvent) : c.isWriting = true := by
  rw [isWriting, h]
  decide

theorem shutdownInLoop_idle (h : c.isWriting = false) :
    c.shutdownInLoop = { c with shutdownWrites := c.shutdownWrites + 1 } := by
  rw [shutdownInLoop, h]
  rfl

theorem shutdownInLoop_writing (h : c.isWriting = true) : c.shutdownInLoop = c := by
  rw [shutdownInLoop, if_pos h]

/-- A connection that reads starts to write as well. -/
theorem enableWriting_read (hslot : c.slot = some true) (h : c.events = kReadEvent) :
    c.enableWriting = { c with events := kReadEvent ||| kWriteEvent } := by
  have hsome : (kReadEvent ||| kWriteEvent != kNoneEvent) = true := by decide
  simp [enableWriting, update, Poller.Call.events, h, hslot, hsome]

/-- It has written all, and only reads again. -/
theorem disableWriting_write (hslot : c.slot = some true) (h : c.events = kReadEvent ||| kWriteEvent) :
    c.disableWriting = { c with events := kReadEvent } := by
  have hread : (kReadEvent ||| kWriteEvent) &&& ~~~kWriteEvent = kReadEvent := by decide
  have hsome : (kReadEvent != kNoneEvent) = true := by decide
  simp [disableWriting, update, Poller.Call.events, h, hslot, hread, hsome]

end

/-! ## The notices in the queue -/

section
variable {f : LoopFunctor} {fs : List LoopFunctor} {q : TaskQueue LoopFunctor}

theorem count_highWater (h : ∀ f ∈ fs, ∃ len, f = .highWaterMarkCallback len) :
    fs.count .writeCompleteCallback = 0 := by
  refine List.count_eq_zero.2 fun hmem => ?_
  obtain ⟨len, hlen⟩ := h _ hmem
  cases hlen

theorem notice_cases (h : f.Notice) (hne : f ≠ .writeCompleteCallback) :
    ∃ len, f = .highWaterMarkCallback len := by
  cases f with
  | writeCompleteCallback => exact absurd rfl hne
  | highWaterMarkCallback len => exact ⟨len, rfl⟩
  | _ => cases h

theorem notice_highWater (h : ∀ f ∈ fs, ∃ len, f = .highWaterMarkCallback len) :
    ∀ f ∈ fs, f.Notice := by
  intro f hf
  obtain ⟨len, rfl⟩ := h f hf
  trivial

/-- New notices join the others. -/
theorem notices_append (hq : ∀ f ∈ q.all, f.Notice)
    (hfs : ∀ f ∈ fs, f.Notice) : ∀ f ∈ (q.pushAll fs).all, f.Notice := by
  intro f hf
  rw [TaskQueue.all_pushAll] at hf
  rcases List.mem_append.1 hf with hf | hf
  · exact hq f hf
  · exact hfs f hf

theorem pushAll_nil (q : TaskQueue LoopFunctor) : q.pushAll [] = q := by simp [TaskQueue.pushAll]

end

/-! ## The callbacks -/

section
variable {p : Program} {s s' : Session} {r : WriteResult} {g_file : Option (List UInt8)}

/-- `send` of an open connection, in the loop's thread. -/
theorem Session.send_sent (hwf : s.conn.outputBuffer.WF) (hstate : s.conn.state = .kConnected) (m : List UInt8) (r : WriteResult) :
    ∃ c' fs accepted ran, s.send m r = some { s with world := { s.world with
        conn := c', queue := s.world.queue.pushAll fs, accepted := accepted, ran := ran } } ∧ Sent s.conn m r c' fs := by
  obtain ⟨c', fs, hc', hsent⟩ := sendInLoop_sent hwf m r
  refine ⟨c', fs, s.world.accepted ++ [(s.world.threadId, m)], s.world.ran ++ [(s.world.threadId, m)], ?_, hsent⟩
  have hc' : s.world.conn.sendInLoop m r = some (c', fs) := hc'
  have hstate : s.world.conn.state = .kConnected := hstate
  simp [Session.send, World.send, hstate, World.sendInLoop, hc', World.finish]

theorem Session.shutdown_eq (hstate : s.conn.state = .kConnected) : s.shutdown = { s with world := { s.world with
    conn := ({ s.conn with state := .kDisconnecting } : TcpConnection).shutdownInLoop } } := by
  have hstate : s.world.conn.state = .kConnected := hstate
  simp only [Session.shutdown, World.shutdown, hstate, if_true]

theorem sendNext_file {atEnd : Session → Session} (hctx : s.context = .file) :
    sendNext atEnd s r = if 0 < s.chunk.length then s.readChunk.send s.chunk r else some (atEnd s.readChunk) := by
  simp only [sendNext, hctx]

/-- The two chunked programs differ in what they do with the file at its end. -/
theorem onWriteComplete_eq (hp : p.writeComplete = true) (s : Session) (r : WriteResult) :
    ∃ (context : Session → Context) (file : Session → File),
      p.onWriteComplete s r = sendNext (fun s => (⟨s.world, context s, file s⟩ : Session).shutdown) s r := by
  cases p with
  | download => cases hp
  | download2 => exact ⟨fun _ => .null, fun s => s.file.fclose, rfl⟩
  | download3 => exact ⟨Session.context, Session.file, rfl⟩

/-- `onConnection` of a connection that goes down leaves it alone. -/
theorem onConnection_down (hdown : s.conn.state ≠ .kConnected) (hs' : p.onConnection g_file s r = some s') :
    s'.world = s.world := by
  cases p with
  | download =>
    simp only [Program.onConnection, Download.onConnection, if_neg hdown] at hs'
    cases hs'
    rfl
  | download2 =>
    simp only [Program.onConnection, Download2.onConnection, if_neg hdown] at hs'
    split at hs' <;> cases hs' <;> rfl
  | download3 =>
    simp only [Program.onConnection, Download3.onConnection, if_neg hdown] at hs'
    cases hs'
    rfl

/-! ## The events -/

theorem step_write {n : Int} {todo : List Callback} {c' : TcpConnection} {fs : List LoopFunctor}
    (htodo : s.world.todo = .write :: todo) (hc' : s.conn.handleWrite r = some (c', fs)) :
    s.step p g_file (.callback n r) = some { s with world := { s.world with
      todo := todo, conn := c', queue := s.world.queue.pushAll fs } } := by
  have hc' : s.world.conn.handleWrite r = some (c', fs) := hc'
  simp [Session.step, Event.inWorld, World.step, htodo, World.callback, hc', World.finish, Session.calledBack]

/-- **What a callback of the channel comes to**: a `handleClose`, a `handleWrite`, or nothing. The program is not called. -/
theorem callback_cases {n : Int} (hne : s.world.todo ≠ []) (hs' : s.step p g_file (.callback n r) = some s') :
    ∃ todo,
      (∃ w', ({ s.world with todo := todo } : World).handleClose = some w' ∧ s' = { s with world := w' }) ∨
      (∃ c' fs, s.conn.handleWrite r = some (c', fs) ∧ s' = { s with world := { s.world with
        todo := todo, conn := c', queue := s.world.queue.pushAll fs } }) ∨
      s' = { s with world := { s.world with todo := todo } } := by
  obtain ⟨k, todo, htodo⟩ := List.exists_cons_of_ne_nil hne
  obtain ⟨w', hw', hs'⟩ := Option.bind_eq_some_iff.1 hs'
  cases hs'
  refine ⟨todo, ?_⟩
  simp only [Event.inWorld, World.step, htodo] at hw'
  cases k with
  | close => exact .inl ⟨w', hw', rfl⟩
  | error =>
    cases hw'
    exact .inr (.inr rfl)
  | read =>
    simp only [World.callback, World.handleRead] at hw'
    split at hw'
    · exact .inl ⟨w', hw', rfl⟩
    · cases hw'
      exact .inr (.inr rfl)
  | write =>
    obtain ⟨⟨c', fs⟩, hc', hw'⟩ := Option.map_eq_some_iff.1 hw'
    subst hw'
    exact .inr (.inl ⟨c', fs, hc', rfl⟩)

/-- The session when the first functor of the batch has been taken off. -/
def Session.popped (s : Session) (batch : List LoopFunctor) : Session :=
  { s with world := { s.world with queue := { s.world.queue with batch := batch } } }

theorem popped_all {f : LoopFunctor} {batch : List LoopFunctor} (hb : s.world.queue.batch = f :: batch) :
    s.world.queue.all = f :: (s.popped batch).world.queue.all := TaskQueue.all_of_batch hb

/-- A high water mark is only logged. -/
theorem step_highWater {len : Nat} {batch : List LoopFunctor} (hb : s.world.queue.batch = .highWaterMarkCallback len :: batch) :
    s.step p g_file (.functor r) = some (s.popped batch) := by
  simp [Session.step, Event.inWorld, World.step, hb, World.call, Session.calledBack, Program.called, Session.popped]

theorem step_writeComplete {batch : List LoopFunctor} (hb : s.world.queue.batch = .writeCompleteCallback :: batch) :
    s.step p g_file (.functor r) = p.onWriteComplete (s.popped batch) r := by
  simp [Session.step, Event.inWorld, World.step, hb, World.call, Session.calledBack, Program.called, Session.popped]

/-- A round of the loop with nothing to do. -/
theorem step_swap_idle (hq : s.world.queue = ⟨[], []⟩) : s.step p g_file .swap = some s := by
  have hswap : s.world.queue.swap = s.world.queue := by rw [hq]; rfl
  simp [Session.step, Event.inWorld, World.step, hswap, Session.calledBack]

/-! ## The start -/

/-- The connection when `onConnection` is called. -/
def newWorld (p : Program) (threadId : Nat) : World :=
  { conn := ⟨.kConnected, kReadEvent, some true, .new, p.writeComplete, false, 64 * 1024 * 1024, [], 0⟩
    queue := ⟨[], []⟩, threadId := threadId, half := fun _ => none, todo := [], sameLoop := true
    inMap := true, removals := 0, accepted := [], ran := [], closeCalls := 0, destroyed := 0 }

theorem connect_eq (threadId : Nat) :
    connect p g_file threadId r = p.onConnection g_file ⟨newWorld p threadId, .empty, ⟨[], []⟩⟩ r := by
  have hread : kNoneEvent ||| kReadEvent = kReadEvent := by decide
  simp [connect, World.newConnection, World.connectEstablished, enableReading, update, Poller.Call.events, hread, newWorld]

end

end FileServer
end ChatReactor
