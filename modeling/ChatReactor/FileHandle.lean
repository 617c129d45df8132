import ChatReactor.FileServerProofs
import ChatReactor.Lib.Runs

/-!
# The `FILE*` of `download2.cc`

Two callbacks close the file: `onWriteComplete` at its end, which then sets the context to null, and `onConnection` when the
connection goes down, which leaves the pointer in the context. So nothing may come after `onConnection`. But `handleClose` does
not change the state of the connection: a chunk sent between `handleClose` and `connectDestroyed` is still
accepted, may be written at once, and its notice then stands in the queue behind `connectDestroyed`.

`Owned` is the invariant of the runs in which no notice stands there when `connectDestroyed` runs; `Doomed` is the
state of the others, in which `onWriteComplete` reads the closed file as soon as the loop comes to it.
-/

namespace ChatReactor
namespace FileServer
open TcpConnection

/-! ## Calls on a file -/

/-- Closed once at most, and not read after that. -/
def File.Sound (f : File) : Prop :=
  f.calls.count .fclose ≤ 1 ∧ ∀ before after, f.calls = before ++ .fclose :: after → .fread ∉ after

/-- It has been read, and is open. -/
def File.IsOpen (f : File) : Prop := ∀ c ∈ f.calls, c = .fread

/-- It has been read, and then closed. -/
def File.Closed (f : File) : Prop := ∃ reads, f.calls = reads ++ [.fclose] ∧ ∀ c ∈ reads, c = .fread

section
variable {f : File}

theorem File.IsOpen.count (h : f.IsOpen) : f.calls.count .fclose = 0 :=
  List.count_eq_zero.2 fun hmem => FileCall.noConfusion (h _ hmem)

theorem File.IsOpen.sound (h : f.IsOpen) : f.Sound := by
  refine ⟨by rw [h.count]; exact Nat.zero_le _, fun before after heq => ?_⟩
  have hmem : .fclose ∈ f.calls := by simp [heq]
  exact FileCall.noConfusion (h _ hmem)

theorem File.IsOpen.fread (h : f.IsOpen) (size : Nat) : (f.fread size).2.IsOpen := by
  intro c hc
  rcases List.mem_append.1 hc with hc | hc
  · exact h c hc
  · exact List.mem_singleton.1 hc

theorem File.IsOpen.fclose (h : f.IsOpen) : f.fclose.Closed := ⟨f.calls, rfl, h⟩

theorem File.Closed.count (h : f.Closed) : f.calls.count .fclose = 1 := by
  obtain ⟨reads, heq, hreads⟩ := h
  have hzero : reads.count .fclose = 0 := List.count_eq_zero.2 fun hmem => FileCall.noConfusion (hreads _ hmem)
  rw [heq, List.count_append, hzero]
  rfl

theorem File.Closed.sound (h : f.Closed) : f.Sound := by
  refine ⟨Nat.le_of_eq h.count, fun before after heq => ?_⟩
  obtain ⟨reads, hcalls, hreads⟩ := h
  rcases List.eq_nil_or_concat after with rfl | ⟨init, c, rfl⟩
  · exact List.not_mem_nil
  · -- then the `fclose` in front of `after` is among the reads
    have hsplit : reads ++ [.fclose] = (before ++ .fclose :: init) ++ [c] := by
      rw [← hcalls, heq]
      simp
    have hreads' : reads = before ++ .fclose :: init := (List.append_inj' hsplit rfl).1
    exact FileCall.noConfusion (hreads .fclose (by simp [hreads']))

/-- Reading it again is not. -/
theorem File.Closed.not_sound (h : f.Closed) {f' : File} {more : List FileCall} (heq : f'.calls = f.calls ++ .fread :: more) :
    ¬ f'.Sound := by
  obtain ⟨reads, hcalls, -⟩ := h
  intro hsound
  refine hsound.2 reads (.fread :: more) ?_ List.mem_cons_self
  simp [heq, hcalls]

end

/-! ## Who comes next -/

/-- The notices of a complete write that are queued, and the one that `handleWrite` will queue. -/
def triggers (s : Session) : Nat :=
  s.world.queue.all.count .writeCompleteCallback + if s.conn.isWriting then 1 else 0

theorem triggers_of_idle {s : Session} (h : s.conn.isWriting = false) :
    triggers s = s.world.queue.all.count .writeCompleteCallback := by simp [triggers, h]

theorem idle_of_triggers {s : Session} (h : triggers s = 0) : s.conn.isWriting = false := by
  cases hw : s.conn.isWriting with
  | false => rfl
  | true => simp [triggers, hw] at h

/-- What holds of the connection of any file session. -/
structure Base (s : Session) : Prop where
  wf : s.conn.outputBuffer.WF
  sameLoop : s.world.sameLoop = true
  queue : ∀ f ∈ s.world.queue.all, f.Notice ∨ f = .connectDestroyed
  once : s.world.queue.all.count .connectDestroyed + (if s.world.inMap then 1 else 0) ≤ 1

/-- What an event changes that calls neither `onConnection` nor `onWriteComplete`. -/
structure Silent (s s' : Session) : Prop where
  base : Base s'
  context : s'.context = s.context
  file : s'.file = s.file
  state : s'.conn.state = s.conn.state
  destroyed : s'.world.destroyed = s.world.destroyed
  triggers : triggers s' ≤ triggers s

section
variable {s s' : Session} {e : Event} {r : WriteResult} {g_file : Option (List UInt8)} {p : Program}

variable {fs : List LoopFunctor}

theorem count_notices (h : ∀ f ∈ fs, f.Notice) : fs.count .connectDestroyed = 0 :=
  List.count_eq_zero.2 fun hmem => (h _ hmem).elim

theorem Base.pushAll (h : Base s) (hfs : ∀ f ∈ fs, f.Notice) :
    (∀ f ∈ (s.world.queue.pushAll fs).all, f.Notice ∨ f = .connectDestroyed) ∧
    (s.world.queue.pushAll fs).all.count .connectDestroyed + (if s.world.inMap then 1 else 0) ≤ 1 := by
  rw [TaskQueue.all_pushAll, List.count_append, count_notices hfs, Nat.add_zero]
  refine ⟨fun f hf => ?_, h.once⟩
  rcases List.mem_append.1 hf with hf | hf
  · exact h.queue f hf
  · exact .inl (hfs f hf)

variable {c' : TcpConnection}

/-- A write makes of one trigger another, at most. -/
theorem Wrote.triggers {c : TcpConnection} (h : Wrote c r c' fs) :
    fs.count .writeCompleteCallback + (if c'.isWriting then 1 else 0) ≤ if c.isWriting then 1 else 0 := by
  cases h with
  | none _ => simp
  | part n b hw _ _ _ _ => exact Nat.le_of_eq (by simp [isWriting])
  | all b hw _ _ _ =>
    rw [(emptied_fields _).2.2, if_pos hw, if_neg Bool.false_ne_true]
    split <;> simp

theorem Silent.handleWrite (h : Base s) {todo : List Callback} (hw : Wrote s.conn r c' fs) :
    Silent s { s with world := { s.world with
      todo := todo, conn := c', queue := s.world.queue.pushAll fs } } := by
  obtain ⟨hqueue, honce⟩ := h.pushAll hw.notices
  refine ⟨⟨hw.wf h.wf, h.sameLoop, hqueue, honce⟩, rfl, rfl, hw.keeps.state, rfl, ?_⟩
  have hle := Wrote.triggers hw
  simp only [FileServer.triggers, Session.conn, TaskQueue.all_pushAll, List.count_append] at hle ⊢
  omega

/-- `handleClose` takes the connection off the map and queues `connectDestroyed`. -/
theorem Silent.handleClose (h : Base s) {todo : List Callback} {w' : World}
    (hw' : ({ s.world with todo := todo } : World).handleClose = some w') : Silent s { s with world := w' } := by
  have hquiet : s.conn.disableAll.isWriting = false := disableAll_isWriting s.conn
  obtain ⟨-, ⟨-, hmap, rfl⟩ | ⟨hloop, -⟩⟩ := World.handleClose_eq hw'
  · have honce := h.once
    have hmap : s.world.inMap = true := hmap
    rw [hmap, if_pos rfl] at honce
    refine ⟨⟨h.wf, h.sameLoop, fun f hf => ?_, ?_⟩, rfl, rfl, rfl, rfl, ?_⟩
    · rw [TaskQueue.all_push] at hf
      rcases List.mem_append.1 hf with hf | hf
      · exact h.queue f hf
      · exact .inr (List.mem_singleton.1 hf)
    · simp only [TaskQueue.all_push, List.count_append]
      simp
      omega
    · rw [triggers_of_idle (by exact hquiet)]
      simp [FileServer.triggers]
  · exact absurd (h.sameLoop.symm.trans hloop) Bool.noConfusion

theorem Silent.todo (h : Base s) (todo : List Callback) : Silent s { s with world := { s.world with todo := todo } } :=
  ⟨{ h with }, rfl, rfl, rfl, rfl, Nat.le_refl _⟩

variable {f : LoopFunctor} {batch : List LoopFunctor}

/-- Taking a functor off the queue. -/
theorem Base.popped (h : Base s) (hb : s.world.queue.batch = f :: batch) : Base (s.popped batch) := by
  have hall := popped_all hb
  refine ⟨h.wf, h.sameLoop, fun f hf => h.queue f (hall ▸ List.mem_cons_of_mem _ hf), ?_⟩
  have honce := h.once
  rw [hall, List.count_cons] at honce
  have hmap : (s.popped batch).world.inMap = s.world.inMap := rfl
  rw [hmap]
  omega

theorem triggers_popped_le (hb : s.world.queue.batch = f :: batch) : triggers (s.popped batch) ≤ triggers s := by
  have hconn : (s.popped batch).conn = s.conn := rfl
  rw [triggers, triggers, hconn, popped_all hb]
  exact Nat.add_le_add_right List.count_le_count_cons _

theorem triggers_writeComplete (hb : s.world.queue.batch = .writeCompleteCallback :: batch) :
    triggers s = triggers (s.popped batch) + 1 := by
  have hconn : (s.popped batch).conn = s.conn := rfl
  rw [triggers, popped_all hb, List.count_cons_self, triggers, hconn]
  omega

theorem Silent.popped (h : Base s) (hb : s.world.queue.batch = f :: batch) : Silent s (s.popped batch) :=
  ⟨h.popped hb, rfl, rfl, rfl, rfl, triggers_popped_le hb⟩

theorem Silent.callback (h : Base s) {n : Int} (hl : (Event.callback n r).Legal s)
    (hs' : s.step p g_file (.callback n r) = some s') : Silent s s' := by
  obtain ⟨todo, ⟨w', hw', rfl⟩ | ⟨c', fs, hc', rfl⟩ | rfl⟩ := callback_cases hl.1 hs'
  · exact .handleClose h hw'
  · obtain ⟨c₁, fs₁, hc₁, hwrote⟩ := handleWrite_wrote h.wf hl.2
    cases hc'.symm.trans hc₁
    exact .handleWrite h hwrote
  · exact .todo h todo

theorem Silent.swap (h : Base s) (hl : Event.swap.Legal s) :
    Silent s { s with world := { s.world with queue := s.world.queue.swap } } := by
  have hall := TaskQueue.all_swap hl.2
  refine ⟨⟨h.wf, h.sameLoop, fun f hf => h.queue f (hall ▸ hf), ?_⟩, rfl, rfl, rfl, rfl, ?_⟩
  · rw [hall]
    exact h.once
  · simp only [FileServer.triggers, Session.conn, hall]
    exact Nat.le_refl _

/-- **What an event does**: nothing to the file, or it is one of the two functors that call the program. -/
theorem Base.step_cases (h : Base s) (hl : e.Legal s) (hs' : s.step p g_file e = some s') :
    Silent s s' ∨
    (∃ r batch, e = .functor r ∧ s.world.queue.batch = .writeCompleteCallback :: batch) ∨
    (∃ r batch, e = .functor r ∧ s.world.queue.batch = .connectDestroyed :: batch) := by
  cases e with
  | poll revents =>
    cases hs'
    exact .inl (.todo h _)
  | callback n r => exact .inl (.callback h hl hs')
  | swap =>
    cases hs'
    exact .inl (.swap h hl)
  | functor r =>
    obtain ⟨f, batch, hb⟩ := List.exists_cons_of_ne_nil hl.2.1
    rcases h.queue f (by simp [popped_all hb]) with hf | rfl
    · by_cases hne : f = .writeCompleteCallback
      · exact .inr (.inl ⟨r, batch, rfl, hne ▸ hb⟩)
      · obtain ⟨len, rfl⟩ := notice_cases hf hne
        rw [step_highWater hb] at hs'
        cases hs'
        exact .inl (.popped h hb)
    · exact .inr (.inr ⟨r, batch, rfl, hb⟩)

/-! ## The owner of the file -/

/-- No notice of a complete write stands behind `connectDestroyed` when it runs. -/
def Event.Careful (s : Session) : Event → Prop
  | .functor _ => s.world.queue.batch.head? = some .connectDestroyed → .writeCompleteCallback ∉ s.world.queue.all
  | _ => True

instance (s : Session) : ∀ e : Event, Decidable (e.Careful s)
  | .functor _ => inferInstanceAs (Decidable
      (s.world.queue.batch.head? = some .connectDestroyed → .writeCompleteCallback ∉ s.world.queue.all))
  | .poll _ | .callback .. | .swap => .isTrue trivial

/-- The file could not be opened; or it is open, and at most one `onWriteComplete` is to come; or it is closed, none
is to come, and `onConnection` has no pointer to close it or has run. -/
inductive Owned (g_file : Option (List UInt8)) (s : Session) : Prop
  | missing : g_file = none → s.context = .empty → s.file.calls = [] → triggers s = 0 → Owned g_file s
  | reading : s.context = .file → s.file.IsOpen → triggers s ≤ 1 → s.conn.state = .kConnected →
      s.world.destroyed = 0 → Owned g_file s
  | closed : s.context = .null ∨ s.conn.state = .kDisconnected → s.file.Closed → triggers s = 0 → Owned g_file s

theorem Owned.silent (h : Owned g_file s) (hs : Silent s s') : Owned g_file s' := by
  cases h with
  | missing hfile hctx hcalls hzero =>
    exact .missing hfile (hs.context.trans hctx) (by rw [hs.file, hcalls]) (Nat.le_zero.1 (hzero ▸ hs.triggers))
  | reading hctx hopen hle hstate hd =>
    exact .reading (hs.context.trans hctx) (hs.file ▸ hopen) (Nat.le_trans hs.triggers hle) (hs.state.trans hstate)
      (hs.destroyed.trans hd)
  | closed hctx hclosed hzero =>
    exact .closed (by rw [hs.context, hs.state]; exact hctx) (hs.file ▸ hclosed) (Nat.le_zero.1 (hzero ▸ hs.triggers))

/-- A message sent by an idle connection leaves one trigger. -/
theorem Sent.triggers {c : TcpConnection} {m : List UInt8} (h : Sent c m r c' fs) (hw : c.isWriting = false) :
    fs.count .writeCompleteCallback + (if c'.isWriting then 1 else 0) ≤ 1 := by
  cases h with
  | down _ => simp [hw]
  | direct _ _ =>
    have hone : (c.directComplete m.length r).count .writeCompleteCallback ≤ 1 := by
      unfold directComplete
      split <;> simp
    have hw' : ({ c with wire := c.wire ++ m.take (c.directWrite r).1 } : TcpConnection).isWriting = false := hw
    rw [hw', if_neg Bool.false_ne_true]
    exact hone
  | rest b _ _ _ _ _ _ hfs =>
    rw [count_highWater hfs, Nat.zero_add]
    split <;> simp

/-- A session with a file sends a chunk of it. -/
theorem Owned.send (hbase : Base s) (hctx : s.context = .file) (hopen : s.file.IsOpen) (hzero : FileServer.triggers s = 0)
    (hstate : s.conn.state = .kConnected) (hd : s.world.destroyed = 0) {m : List UInt8} (hs' : s.send m r = some s') :
    Base s' ∧ Owned g_file s' := by
  obtain ⟨c', fs, accepted, ran, hsend, hsent⟩ := Session.send_sent hbase.wf hstate m r
  cases hsend.symm.trans hs'
  have hidle := idle_of_triggers hzero
  obtain ⟨hqueue, honce⟩ := hbase.pushAll hsent.notices
  refine ⟨⟨hsent.wf hbase.wf, hbase.sameLoop, hqueue, honce⟩, .reading hctx hopen ?_ (hsent.keeps.state.trans hstate) hd⟩
  have hle := Sent.triggers hsent hidle
  rw [triggers_of_idle hidle] at hzero
  simp only [FileServer.triggers, Session.conn, TaskQueue.all_pushAll, List.count_append, hzero] at hle ⊢
  omega

/-- `onWriteComplete` finds the file open: it reads on, or closes it and gives up the pointer. -/
theorem Owned.writeComplete (hbase : Base s) (h : Owned g_file s)
    (hb : s.world.queue.batch = .writeCompleteCallback :: batch)
    (hs' : s.step .download2 g_file (.functor r) = some s') : Base s' ∧ Owned g_file s' := by
  have hcount := triggers_writeComplete hb
  cases h with
  | missing _ _ _ hzero => omega
  | closed _ _ hzero => omega
  | reading hctx hopen hle hstate hd =>
    have hzero : FileServer.triggers (s.popped batch).readChunk = 0 := by
      have hsame : FileServer.triggers (s.popped batch).readChunk = FileServer.triggers (s.popped batch) := rfl
      omega
    have hbase' := hbase.popped hb
    have hnext : s.step .download2 g_file (.functor r) = Download2.onWriteComplete (s.popped batch) r := step_writeComplete hb
    rw [hnext, Download2.onWriteComplete, sendNext_file (by exact hctx)] at hs'
    split at hs'
    · exact Owned.send (s := (s.popped batch).readChunk) { hbase' with } hctx (hopen.fread kBufSize) hzero hstate hd hs'
    · cases hs'
      rw [Session.shutdown_eq (by exact hstate), shutdownInLoop_idle (by exact idle_of_triggers hzero)]
      exact ⟨{ hbase' with }, .closed (.inl rfl) (hopen.fread kBufSize).fclose hzero⟩

/-- The connection goes down: what `connectDestroyed` leaves, and what `onConnection` is called on. -/
theorem connectDestroyed_down (hbase : Base s) (hb : s.world.queue.batch = .connectDestroyed :: batch)
    (hs' : s.step p g_file (.functor r) = some s') :
    s.conn.isOpen ∧ ∃ w, p.onConnection g_file { s with world := w } r = some s' ∧ Base { s with world := w } ∧
      w.conn.state = .kDisconnected ∧ w.conn.isWriting = false ∧ w.queue = (s.popped batch).world.queue ∧
      w.todo = s.world.todo := by
  obtain ⟨w, hw, hs'⟩ := Option.bind_eq_some_iff.1 hs'
  simp only [Event.inWorld, World.step, hb] at hw
  simp only [Session.calledBack, hb] at hs'
  obtain ⟨hopen, conn, hconn, rfl⟩ := World.connectDestroyed_eq hw
  obtain rfl := removeChannel_eq hconn
  have hbase' := hbase.popped hb
  exact ⟨hopen, _, hs', { hbase' with }, rfl, disableAll_isWriting { s.conn with state := .kDisconnected }, rfl, rfl⟩

/-- `onConnection` of a connection that goes down closes the file that the context points to. -/
theorem Download2.onConnection_down (hdown : s.conn.state = .kDisconnected)
    (hs' : Program.download2.onConnection g_file s r = some s') :
    (s.context = .file → s' = { s with file := s.file.fclose }) ∧ (s.context ≠ .file → s' = s) := by
  have hne : s.conn.state ≠ .kConnected := by
    rw [hdown]
    decide
  simp only [Program.onConnection, Download2.onConnection, if_neg hne] at hs'
  cases hctx : s.context with
  | file =>
    simp only [hctx] at hs'
    exact ⟨fun _ => by simpa [hctx] using hs'.symm, fun hno => absurd rfl hno⟩
  | null =>
    simp only [hctx] at hs'
    exact ⟨Context.noConfusion, fun _ => (Option.some.inj hs').symm⟩
  | empty =>
    simp only [hctx] at hs'
    exact ⟨Context.noConfusion, fun _ => (Option.some.inj hs').symm⟩

/-- `connectDestroyed` with no notice behind it closes the file if it is open, and nothing reads it after that. -/
theorem Owned.connectDestroyed (hbase : Base s) (h : Owned g_file s)
    (hb : s.world.queue.batch = .connectDestroyed :: batch) (hc : .writeCompleteCallback ∉ s.world.queue.all)
    (hs' : s.step .download2 g_file (.functor r) = some s') : Base s' ∧ Owned g_file s' := by
  obtain ⟨hopen, w, hs', hbase', hdown, hquiet, hqueue, -⟩ := connectDestroyed_down hbase hb hs'
  obtain ⟨hclose, hleave⟩ := Download2.onConnection_down hdown hs'
  have hzero : FileServer.triggers { s with world := w } = 0 := by
    rw [triggers_of_idle (by exact hquiet), hqueue]
    refine List.count_eq_zero.2 fun hmem => hc ?_
    rw [popped_all hb]
    exact List.mem_cons_of_mem _ hmem
  cases h with
  | missing hfile hctx hcalls _ =>
    obtain rfl := hleave (by rw [hctx]; decide)
    exact ⟨hbase', .missing hfile hctx hcalls hzero⟩
  | reading hctx hfile _ _ _ =>
    obtain rfl := hclose hctx
    exact ⟨{ hbase' with }, .closed (.inr hdown) hfile.fclose hzero⟩
  | closed hctx hclosed _ =>
    rcases hctx with hctx | hgone
    · obtain rfl := hleave (by rw [hctx]; decide)
      exact ⟨hbase', .closed (.inl hctx) hclosed hzero⟩
    · rw [isOpen, hgone] at hopen
      rcases hopen with hopen | hopen <;> cases hopen

/-- **One careful event.** -/
theorem Owned.step (hbase : Base s) (h : Owned g_file s) (hl : e.Legal s) (hc : e.Careful s)
    (hs' : s.step .download2 g_file e = some s') : Base s' ∧ Owned g_file s' := by
  rcases hbase.step_cases hl hs' with hsilent | ⟨r, batch, rfl, hb⟩ | ⟨r, batch, rfl, hb⟩
  · exact ⟨hsilent.base, h.silent hsilent⟩
  · exact h.writeComplete hbase hb hs'
  · exact h.connectDestroyed hbase hb (hc (by rw [hb]; rfl)) hs'

theorem Owned.connect {threadId : Nat} (h : FileServer.connect .download2 g_file threadId r = some s) :
    Base s ∧ Owned g_file s := by
  rw [connect_eq] at h
  have hbase (context : Context) (file : File) :
      Base ((⟨newWorld .download2 threadId, context, file⟩ : Session).setHighWaterMarkCallback (kBufSize + 1)) :=
    ⟨Buffer.new_layout.wf, rfl, fun _ hf => absurd hf List.not_mem_nil, Nat.le_refl _⟩
  cases g_file with
  | none =>
    cases h
    rw [Session.shutdown_eq (by rfl), shutdownInLoop_idle (isWriting_read rfl)]
    exact ⟨{ hbase .empty ⟨[], []⟩ with }, .missing rfl rfl rfl (triggers_of_idle (isWriting_read rfl))⟩
  | some content =>
    have hopen : (⟨content, []⟩ : File).IsOpen := fun _ hc => absurd hc List.not_mem_nil
    exact Owned.send (hbase .file _) rfl (hopen.fread kBufSize) (triggers_of_idle (isWriting_read rfl)) rfl rfl h

/-! ## The notice behind `connectDestroyed` -/

/-- The file is closed, the pointer is still in the context, and `onWriteComplete` is queued. -/
structure Doomed (s : Session) : Prop where
  context : s.context = .file
  closed : s.file.Closed
  state : s.conn.state = .kDisconnected
  todo : s.world.todo = []
  notices : ∀ f ∈ s.world.queue.all, f.Notice
  queued : .writeCompleteCallback ∈ s.world.queue.all

theorem Session.send_down (hstate : s.conn.state = .kDisconnected) (m : List UInt8) : s.send m r = some s := by
  have hstate : s.world.conn.state = .kDisconnected := hstate
  simp [Session.send, World.send, hstate]

/-- `onWriteComplete` reads the closed file. -/
theorem Doomed.writeComplete (h : Doomed s) (hb : s.world.queue.batch = .writeCompleteCallback :: batch) :
    ∃ s', s.step .download2 g_file (.functor r) = some s' ∧ ¬ s'.file.Sound := by
  have hnext : s.step .download2 g_file (.functor r) = Download2.onWriteComplete (s.popped batch) r := step_writeComplete hb
  rw [hnext, Download2.onWriteComplete, sendNext_file (by exact h.context)]
  split
  · exact ⟨_, Session.send_down (s := (s.popped batch).readChunk) h.state _, h.closed.not_sound rfl⟩
  · have hcalls : ((s.popped batch).readChunk.file.fclose).calls = s.file.calls ++ [.fread, .fclose] := List.append_assoc _ _ _
    exact ⟨_, rfl, h.closed.not_sound hcalls⟩

theorem Doomed.swap (h : Doomed s) (hbatch : s.world.queue.batch = []) :
    Doomed { s with world := { s.world with queue := s.world.queue.swap } } := by
  have hall := TaskQueue.all_swap hbatch
  exact { h with notices := fun f hf => h.notices f (hall ▸ hf), queued := hall ▸ h.queued }

/-- The next functor of a batch. -/
theorem Doomed.functor (h : Doomed s) (hb : s.world.queue.batch = f :: batch)
    (hrest : Doomed (s.popped batch) → ∃ es s', Run (Session.step .download2 g_file) (fun s e => e.Legal s) (s.popped batch) es s' ∧
      ¬ s'.file.Sound) :
    ∃ es s', Run (Session.step .download2 g_file) (fun s e => e.Legal s) s es s' ∧ ¬ s'.file.Sound := by
  have hall := popped_all hb
  have hlegal : (Event.functor .wouldBlock).Legal s := ⟨h.todo, by simp [hb], fun _ _ => trivial⟩
  by_cases hf : f = .writeCompleteCallback
  · subst hf
    obtain ⟨s', hs', hunsound⟩ := h.writeComplete (r := .wouldBlock) hb
    exact ⟨_, s', .cons hlegal hs' (.nil s'), hunsound⟩
  · obtain ⟨len, rfl⟩ := notice_cases (h.notices f (by simp [hall])) hf
    have hdoomed : Doomed (s.popped batch) := by
      refine { h with notices := fun f hf => h.notices f (hall ▸ List.mem_cons_of_mem _ hf), queued := ?_ }
      have hmem := h.queued
      rw [hall] at hmem
      exact (List.mem_cons.1 hmem).resolve_left LoopFunctor.noConfusion
    obtain ⟨es, s', hrun, hunsound⟩ := hrest hdoomed
    exact ⟨_, s', .cons hlegal (step_highWater hb) hrun, hunsound⟩

/-- The loop comes to it: the induction is on the functors in front. -/
theorem Doomed.run {n : Nat} (h : Doomed s) (hn : s.world.queue.all.length = n) :
    ∃ es s', Run (Session.step .download2 g_file) (fun s e => e.Legal s) s es s' ∧ ¬ s'.file.Sound := by
  induction n generalizing s with
  | zero =>
    have hmem := h.queued
    rw [List.length_eq_zero_iff.1 hn] at hmem
    cases hmem
  | succ n ih =>
    have hfront {s : Session} {f : LoopFunctor} {batch : List LoopFunctor} (hn : s.world.queue.all.length = n + 1)
        (hb : s.world.queue.batch = f :: batch) : (s.popped batch).world.queue.all.length = n := by
      rw [popped_all hb] at hn
      exact Nat.succ.inj hn
    cases hbatch : s.world.queue.batch with
    | cons f batch => exact h.functor hbatch fun hdoomed => ih hdoomed (hfront hn hbatch)
    | nil =>
      have hall := TaskQueue.all_swap hbatch
      have hlegal : Event.swap.Legal s := ⟨h.todo, hbatch⟩
      obtain ⟨f, batch, hb⟩ : ∃ f batch, s.world.queue.pending = f :: batch := by
        refine List.exists_cons_of_ne_nil fun hnil => ?_
        rw [TaskQueue.all, hbatch, hnil] at hn
        cases hn
      obtain ⟨es, s', hrun, hunsound⟩ := (h.swap hbatch).functor hb fun hdoomed => ih hdoomed (hfront (hall ▸ hn) hb)
      exact ⟨_, s', .cons hlegal rfl hrun, hunsound⟩

theorem not_careful (hc : ¬ e.Careful s) : ∃ r batch, e = .functor r ∧ s.world.queue.batch = .connectDestroyed :: batch ∧
    .writeCompleteCallback ∈ s.world.queue.all := by
  cases e with
  | functor r =>
    obtain ⟨hhead, hmem⟩ := Classical.not_imp.1 hc
    obtain ⟨batch, hb⟩ := List.head?_eq_some_iff.1 hhead
    exact ⟨r, batch, rfl, hb, Classical.not_not.1 hmem⟩
  | _ => exact absurd trivial hc

/-- `connectDestroyed` with the notice behind it. -/
theorem Owned.careless (hbase : Base s) (h : Owned g_file s) (hl : e.Legal s) (hc : ¬ e.Careful s)
    (hs' : s.step .download2 g_file e = some s') : Doomed s' := by
  obtain ⟨r, batch, rfl, hb, hmem⟩ := not_careful hc
  have hall := popped_all hb
  obtain ⟨-, w, hs', hbase', hdown, -, hqueue, htodo⟩ := connectDestroyed_down hbase hb hs'
  obtain ⟨hclose, -⟩ := Download2.onConnection_down hdown hs'
  have hpos : 0 < FileServer.triggers s := Nat.lt_of_lt_of_le (List.count_pos_iff.2 hmem) (Nat.le_add_right _ _)
  cases h with
  | missing _ _ _ hzero => exact absurd hzero (Nat.ne_of_gt hpos)
  | closed _ _ hzero => exact absurd hzero (Nat.ne_of_gt hpos)
  | reading hctx hopen _ _ _ =>
    obtain rfl := hclose hctx
    refine ⟨hctx, hopen.fclose, hdown, htodo.trans hl.1, fun f hf => ?_, ?_⟩
    · refine (hbase'.queue f hf).resolve_right ?_
      rintro rfl
      -- it was queued once, and has been taken off
      have honce := hbase.once
      rw [hall, List.count_cons_self] at honce
      rw [hqueue] at hf
      have := List.count_pos_iff.2 hf
      omega
    · rw [hall] at hmem
      rw [hqueue]
      exact (List.mem_cons.1 hmem).resolve_left LoopFunctor.noConfusion

/-! ## Runs -/

theorem Owned.sound (h : Owned g_file s) : s.file.Sound := by
  cases h with
  | missing _ _ hcalls _ =>
    have hopen : s.file.IsOpen := by
      intro c hc
      rw [hcalls] at hc
      cases hc
    exact hopen.sound
  | reading _ hopen _ _ _ => exact hopen.sound
  | closed _ hclosed _ => exact hclosed.sound

theorem Owned.fclose_count (h : Owned g_file s) (hfile : g_file ≠ none) (hd : s.world.destroyed ≠ 0) :
    s.file.calls.count .fclose = 1 := by
  cases h with
  | missing hnone _ _ _ => exact absurd hnone hfile
  | reading _ _ _ _ hzero => exact absurd hzero hd
  | closed _ hclosed _ => exact hclosed.count

theorem Owned.run {s0 : Session} {threadId : Nat} {es : List Event} (h0 : FileServer.connect .download2 g_file threadId r = some s0)
    (hrun : Run (Session.step .download2 g_file) (fun s e => e.Legal s ∧ e.Careful s) s0 es s) : Base s ∧ Owned g_file s :=
  hrun.invariant (fun s => Base s ∧ Owned g_file s) (fun h hok hs' => h.2.step h.1 hok.1 hok.2 hs') (Owned.connect h0)

/-- **The `FILE*` of `download2.cc`.** As long as `connectDestroyed` runs with no notice of a complete write queued behind it, the
file is closed once at most and not read after that, and it is closed once the connection is destroyed. The first time that it
runs with such a notice behind it, the loop has only to go on, and the closed file is read. -/
theorem file_closed_once {g_file : Option (List UInt8)} {threadId : Nat} {r : WriteResult} {s0 : Session}
    (h0 : connect .download2 g_file threadId r = some s0) :
    (∀ es s, Run (Session.step .download2 g_file) (fun s e => e.Legal s ∧ e.Careful s) s0 es s →
      s.file.Sound ∧ (g_file ≠ none → s.world.destroyed ≠ 0 → s.file.calls.count .fclose = 1)) ∧
    (∀ es s e s', Run (Session.step .download2 g_file) (fun s e => e.Legal s ∧ e.Careful s) s0 es s → e.Legal s → ¬ e.Careful s →
      s.step .download2 g_file e = some s' →
      ∃ es' s'', Run (Session.step .download2 g_file) (fun s e => e.Legal s) s' es' s'' ∧ ¬ s''.file.Sound) := by
  refine ⟨fun es s hrun => ?_, fun es s e s' hrun hl hc hs' => ?_⟩
  · obtain ⟨-, howned⟩ := Owned.run h0 hrun
    exact ⟨howned.sound, howned.fclose_count⟩
  · obtain ⟨hbase, howned⟩ := Owned.run h0 hrun
    exact (howned.careless hbase hl hc hs').run rfl

/-- Three bytes are sent and the file closed at its end, then the peer closes. -/
theorem file_closed_once_three : ∃ s0 s, connect .download2 (some [1, 2, 3]) 0 (.wrote 3) = some s0 ∧
    Run (Session.step .download2 (some [1, 2, 3])) (fun s e => e.Legal s ∧ e.Careful s) s0
      [.swap, .functor .error, .poll 1, .callback 0 .error, .swap, .functor .error] s ∧
    s.world.destroyed = 1 ∧ s.file.Sound ∧ s.file.calls.count .fclose = 1 :=
  have hs0 := (Option.some_get (by decide +kernel)).symm
  have hrun := Run.of_exec _ _ (by decide +kernel)
  have hsafe := (file_closed_once hs0).1 _ _ hrun
  ⟨_, _, hs0, hrun, by decide +kernel, hsafe.1, hsafe.2 (by decide) (by decide +kernel)⟩

/-- A chunk that the kernel takes at once. -/
theorem Session.send_all {m : List UInt8} (hstate : s.conn.state = .kConnected) (hw : s.conn.isWriting = false)
    (hempty : s.conn.outputBuffer.readableBytes = 0) (hcallback : s.conn.hasWriteCompleteCallback = true) :
    s.send m (.wrote m.length) = some { s with world := { s.world with
      conn := { s.conn with wire := s.conn.wire ++ m }
      queue := s.world.queue.pushAll [.writeCompleteCallback]
      accepted := s.world.accepted ++ [(s.world.threadId, m)]
      ran := s.world.ran ++ [(s.world.threadId, m)] } } := by
  have hstate : s.world.conn.state = .kConnected := hstate
  have hw : s.world.conn.isWriting = false := hw
  have hempty : s.world.conn.outputBuffer.readableBytes = 0 := hempty
  have hcallback : s.world.conn.hasWriteCompleteCallback = true := hcallback
  simp [Session.send, World.send, hstate, World.sendInLoop, TcpConnection.sendInLoop, directWrite, hw, hempty, directComplete,
    hcallback, World.finish]

theorem step_sendAll (hb : s.world.queue.batch = .writeCompleteCallback :: batch) (hctx : s.context = .file)
    (hstate : s.conn.state = .kConnected) (hw : s.conn.isWriting = false)
    (hempty : s.conn.outputBuffer.readableBytes = 0) (hcallback : s.conn.hasWriteCompleteCallback = true) {n : Nat}
    (hn : s.chunk.length = n) (hpos : 0 < n) :
    s.step .download2 g_file (.functor (.wrote n)) = some { (s.popped batch).readChunk with
      world := { (s.popped batch).world with
        conn := { s.conn with wire := s.conn.wire ++ s.chunk }
        queue := (s.popped batch).world.queue.pushAll [.writeCompleteCallback]
        accepted := s.world.accepted ++ [(s.world.threadId, s.chunk)]
        ran := s.world.ran ++ [(s.world.threadId, s.chunk)] } } := by
  have hnext : s.step .download2 g_file (.functor (.wrote n)) = Download2.onWriteComplete (s.popped batch) (.wrote n) :=
    step_writeComplete hb
  have hsend := Session.send_all (s := (s.popped batch).readChunk) (m := s.chunk) hstate hw hempty hcallback
  have hpos : 0 < (s.popped batch).chunk.length := Nat.lt_of_lt_of_eq hpos hn.symm
  rw [hn] at hsend
  rw [hnext, Download2.onWriteComplete, sendNext_file (by exact hctx), if_pos hpos]
  exact hsend

theorem step_atEnd (hb : s.world.queue.batch = .writeCompleteCallback :: batch) (hctx : s.context = .file)
    (hnil : s.chunk = []) :
    s.step .download2 g_file (.functor r) = some ({ (s.popped batch).readChunk with
      file := (s.popped batch).readChunk.file.fclose, context := .null } : Session).shutdown := by
  have hnext : s.step .download2 g_file (.functor r) = Download2.onWriteComplete (s.popped batch) r := step_writeComplete hb
  have hzero : ¬ 0 < (s.popped batch).chunk.length := Nat.not_lt_of_le (Nat.le_of_eq (congrArg List.length hnil))
  rw [hnext, Download2.onWriteComplete, sendNext_file (by exact hctx), if_neg hzero]

theorem step_destroyed {polled : Bool} (hb : s.world.queue.batch = .connectDestroyed :: batch)
    (hctx : s.context = .file) (hopen : s.conn.isOpen) (hslot : s.conn.slot = some polled) :
    s.step .download2 g_file (.functor r) = some { s with
      world := { (s.popped batch).world with
        conn := { s.conn with state := .kDisconnected, events := kNoneEvent, slot := none }, destroyed := s.world.destroyed + 1 }
      file := s.file.fclose } := by
  have hopen : s.world.conn.isOpen := hopen
  have hslot : s.world.conn.slot = some polled := hslot
  simp [Session.step, Event.inWorld, World.step, hb, World.call, World.connectDestroyed, hopen, disableAll, update,
    Poller.Call.events, removeChannel, hslot, Session.calledBack, Program.called, Program.onConnection, Download2.onConnection,
    hctx, Session.popped]

/-- A connection that has sent its first chunk at once. -/
def sentFirst (content : List UInt8) : Session :=
  { world := { newWorld .download2 0 with
      conn := ⟨.kConnected, kReadEvent, some true, .new, true, true, kBufSize + 1, content.take kBufSize, 0⟩
      queue := ⟨[], [.writeCompleteCallback]⟩
      accepted := [(0, content.take kBufSize)]
      ran := [(0, content.take kBufSize)] }
    context := .file
    file := ⟨content.drop kBufSize, [.fread]⟩ }

theorem connect_sentFirst {content : List UInt8} (hlen : kBufSize ≤ content.length) :
    connect .download2 (some content) 0 (.wrote kBufSize) = some (sentFirst content) := by
  have hsend := Session.send_all (s := ({ world := newWorld .download2 0, context := .file, file := ⟨content, []⟩ } :
      Session).setHighWaterMarkCallback (kBufSize + 1) |>.readChunk) (m := content.take kBufSize) rfl (isWriting_read rfl) rfl rfl
  rw [List.length_take, Nat.min_eq_left hlen] at hsend
  exact (connect_eq 0).trans hsend

/-- A file of one byte more than two chunks, which the kernel takes at once. The end of file from the peer is handled in the
round in which the notice of the second chunk is queued: the third chunk is sent in that round, in front of
`connectDestroyed`, and its notice stands behind it. -/
theorem file_read_after_close : ∃ (content : List UInt8) (s0 s : Session), content.length = 2 * kBufSize + 1 ∧
    connect .download2 (some content) 0 (.wrote kBufSize) = some s0 ∧
    Run (Session.step .download2 (some content)) (fun s e => e.Legal s) s0
      [.swap, .functor (.wrote kBufSize),
        .poll 1, .callback 0 .error, .swap, .functor (.wrote 1), .functor .error,
        .swap, .functor .error] s ∧
    s.file.calls = [.fread, .fread, .fread, .fclose, .fread, .fclose] := by
  obtain ⟨content, hlen⟩ : ∃ content : List UInt8, content.length = 2 * kBufSize + 1 :=
    ⟨List.replicate _ 0, List.length_replicate⟩
  have hpos := kBufSize_pos
  have hsecond : ((content.drop kBufSize).take kBufSize).length = kBufSize := by
    rw [List.length_take, List.length_drop, hlen]
    omega
  have hthird : (((content.drop kBufSize).drop kBufSize).take kBufSize).length = 1 := by
    rw [List.length_take, List.length_drop, List.length_drop, hlen]
    omega
  have hend : (((content.drop kBufSize).drop kBufSize).drop kBufSize).take kBufSize = [] := by
    rw [List.drop_drop, List.drop_drop, List.drop_eq_nil_of_le (by omega), List.take_nil]
  have hread : handleEvent 1 ≠ [] := by decide
  refine ⟨content, sentFirst content, _, hlen, connect_sentFirst (by omega),
    .cons ⟨rfl, rfl⟩ rfl <|
      .cons ⟨rfl, List.cons_ne_nil _ _, fun f hf => Option.some.inj hf ▸ Nat.le_of_eq hsecond.symm⟩
        (step_sendAll rfl rfl rfl (isWriting_read rfl) rfl rfl hsecond hpos) <|
      .cons ⟨rfl, rfl, rfl⟩ rfl <| .cons ⟨hread, trivial⟩ rfl <| .cons ⟨rfl, rfl⟩ rfl <|
      .cons ⟨rfl, List.cons_ne_nil _ _, fun f hf => Option.some.inj hf ▸ Nat.le_of_eq hthird.symm⟩
        (step_sendAll rfl rfl rfl (disableAll_isWriting _) rfl rfl hthird Nat.one_pos) <|
      .cons ⟨rfl, List.cons_ne_nil _ _, fun _ _ => trivial⟩ (step_destroyed rfl rfl (.inl rfl) rfl) <| .cons ⟨rfl, rfl⟩ rfl <|
      .cons ⟨rfl, List.cons_ne_nil _ _, fun _ _ => trivial⟩ (step_atEnd rfl rfl hend) (.nil _), rfl⟩

end

end FileServer
end ChatReactor
