import ChatReactor.BufferProofs
import ChatReactor.PollerProofs
import ChatReactor.TcpConnection

/-!
# What the members of a `TcpConnection` do

One specification for each member that works on the output: it succeeds, it leaves the state and the
channel's registration alone (`Keeps`), it queues only notices to the user, and it moves bytes from the sender
to the buffer and on to the kernel (`Bytes`). Then the same for one event of the world: `step_calm` says what all events have
in common that do not open, close or destroy the connection, and `Alive` holds until `handleClose` runs.
-/

namespace ChatReactor

/-! ## The channel -/

theorem isWriting_enableWriting (e : BitVec 32) : (e ||| kWriteEvent) &&& kWriteEvent ≠ 0 := by
  have h : (e ||| kWriteEvent) &&& kWriteEvent = kWriteEvent := by
    ext i hi
    simp only [BitVec.getElem_and, BitVec.getElem_or]
    cases kWriteEvent[i] <;> simp
  rw [h]
  decide

theorem isWriting_disableWriting (e : BitVec 32) : (e &&& ~~~kWriteEvent) &&& kWriteEvent = 0 := by
  ext i hi
  simp only [BitVec.getElem_and, BitVec.getElem_not]
  cases kWriteEvent[i] <;> simp

theorem isWriting_enableReading (e : BitVec 32) : (e ||| kReadEvent) &&& kWriteEvent = e &&& kWriteEvent := by
  have h : kReadEvent &&& kWriteEvent = 0 := by decide
  ext i hi
  have hi' : (kReadEvent &&& kWriteEvent)[i] = false := by rw [h]; simp
  simp only [BitVec.getElem_and, BitVec.getElem_or] at hi' ⊢
  revert hi'
  cases kReadEvent[i] <;> cases kWriteEvent[i] <;> simp

/-- The functors that only tell the user something. -/
def LoopFunctor.Notice : LoopFunctor → Prop
  | .writeCompleteCallback | .highWaterMarkCallback _ => True
  | _ => False

variable {c' : TcpConnection}

namespace TcpConnection

@[simp] theorem enableWriting_isWriting (c : TcpConnection) : c.enableWriting.isWriting = true := by
  simpa [isWriting, enableWriting, update, Poller.Call.events] using isWriting_enableWriting c.events

@[simp] theorem disableWriting_isWriting (c : TcpConnection) : c.disableWriting.isWriting = false := by
  simpa [isWriting, disableWriting, update, Poller.Call.events] using isWriting_disableWriting c.events

@[simp] theorem enableReading_isWriting (c : TcpConnection) : c.enableReading.isWriting = c.isWriting := by
  simp only [isWriting, enableReading, update, Poller.Call.events, isWriting_enableReading]

@[simp] theorem disableAll_isWriting (c : TcpConnection) : c.disableAll.isWriting = false := by
  simp [isWriting, disableAll, update, Poller.Call.events, kNoneEvent]

/-! ## The channel's entry in the poller -/

/-- The poller `p` holds channel `ch` as `slot` and `events` say. -/
def Shows (c : TcpConnection) (p : Poller) (ch : Nat) : Prop :=
  c.events = (p.chan ch).events ∧ match c.slot with
  | none => (p.chan ch).index < 0
  | some polled => p.Registered ch ∧ ∃ (i : Nat) (pfd : PollFd), (p.chan ch).index = i ∧ p.pollfds[i]? = some pfd ∧
      pfd.fd = (if polled then ((p.chan ch).fd : Int) else -(p.chan ch).fd - 1) ∧ pfd.events.signExtend 32 = c.events

variable {c : TcpConnection}

/-- `update` is what `Poller::updateChannel` does to that entry. -/
theorem Shows.update {p : Poller} {ch : Nat} (h : p.Inv) (hs : c.Shows p ch) {e : BitVec 32}
    (he : e ∈ Poller.interests) : ∃ p', p.request false (.update ch e) = some p' ∧ (c.update e).Shows p' ch := by
  let q := p.setEvents ch e
  have hq : q.Inv := h.setEvents ch e
  have hqc : q.chan ch = { p.chan ch with events := e } := p.setEvents_self ch e
  obtain ⟨hev, hslot⟩ := hs
  cases hc : c.slot with
  | none =>
    rw [hc] at hslot
    have hnew : (q.chan ch).index < 0 := by rw [hqc]; exact hslot
    refine ⟨_, Poller.updateChannel_new hq false hnew, ?_⟩
    simp only [Shows, TcpConnection.update, hc, Function.update_self, Poller.Registered, hqc]
    exact ⟨trivial, by simp, q.pollfds.length, _, rfl, List.getElem?_concat_length, rfl, Poller.signExtend_setWidth he⟩
  | some polled =>
    rw [hc] at hslot
    obtain ⟨hreg, i, pfd, hi, hpfd, hfd, _⟩ := hslot
    have hreg' : q.Registered ch := (p.registered_setEvents ch e ch).2 hreg
    have hi' : (q.chan ch).index = i := by rw [hqc]; exact hi
    have hlt : i < q.pollfds.length := (List.getElem?_eq_some_iff.1 hpfd).1
    refine ⟨_, Poller.updateChannel_old hq false hreg' hi' hpfd, ?_⟩
    simp only [Shows, TcpConnection.update, hc]
    refine ⟨by rw [hqc], hreg', i, _, hi', List.getElem?_set_self hlt, ?_, ?_⟩
    · by_cases hnone : e = kNoneEvent
      · simp [hqc, Channel.isNoneEvent, hnone]
      · simp [hqc, Channel.isNoneEvent, hnone, hfd]
    · rw [hqc]
      exact Poller.signExtend_setWidth he

/-- Where `removeChannel` passes its asserts, so does `Poller::removeChannel`. -/
theorem Shows.remove {p : Poller} {ch : Nat} (h : p.Inv) (hs : c.Shows p ch) (hc' : c.removeChannel = some c') :
    ∃ p', p.removeChannel false ch = some p' := by
  obtain ⟨_, hnone, hc'⟩ := Option.bind_eq_some_iff.1 hc'
  obtain ⟨_, hslot, _⟩ := Option.bind_eq_some_iff.1 hc'
  have hnone := check_eq_some.1 hnone
  have hslot := check_eq_some.1 hslot
  obtain ⟨hev, hs⟩ := hs
  rw [hslot] at hs
  obtain ⟨hreg, i, pfd, hi, hpfd, hfd, hpev⟩ := hs
  refine h.remove_total hreg hi hpfd ?_
  simp [Poller.interestAsserts, Channel.isNoneEvent, ← hev, hnone, hfd, hpev]

theorem removeChannel_eq (h : c.removeChannel = some c') : c' = { c with slot := none } := by
  obtain ⟨_, _, h⟩ := Option.bind_eq_some_iff.1 h
  obtain ⟨_, _, h⟩ := Option.bind_eq_some_iff.1 h
  exact (Option.some.inj h).symm

/-! ## The bytes -/

/-- What a member that works on the output leaves alone: the state, and whether the channel is
registered; it never makes the poller poll the channel again. -/
structure Keeps (c c' : TcpConnection) : Prop where
  state : c'.state = c.state
  slot : ∀ b, c.slot = some b → ∃ b', c'.slot = some b' ∧ (b' = true → b = true)

/-- The bytes of the stream so far: those the kernel has, and those that wait in the buffer. -/
def output (c : TcpConnection) : List UInt8 := c.wire ++ c.outputBuffer.content

/-- The kernel's bytes and the buffer are the messages sent so far, and the channel waits to write
exactly while the buffer holds something. -/
structure Bytes (c : TcpConnection) (sent : List (List UInt8)) : Prop where
  wf : c.outputBuffer.WF
  bytes : c.wire ++ c.outputBuffer.content = sent.flatten
  writing : c.isWriting = true ↔ c.outputBuffer.content ≠ []

section
variable {c c' : TcpConnection} {sent : List (List UInt8)}

theorem Keeps.refl (c : TcpConnection) : Keeps c c := ⟨rfl, fun b hb => ⟨b, hb, id⟩⟩

theorem Keeps.of_eq (hstate : c'.state = c.state) (hslot : c'.slot = c.slot) : Keeps c c' :=
  ⟨hstate, fun b hb => ⟨b, hslot.trans hb, id⟩⟩

theorem Keeps.trans {c'' : TcpConnection} (h : Keeps c c') (h' : Keeps c' c'') : Keeps c c'' := by
  refine ⟨h'.state.trans h.state, fun b hb => ?_⟩
  obtain ⟨b', hb', hle⟩ := h.slot b hb
  obtain ⟨b'', hb'', hle'⟩ := h'.slot b' hb'
  exact ⟨b'', hb'', hle ∘ hle'⟩

theorem Keeps.update (c : TcpConnection) (e : BitVec 32) : Keeps c (c.update e) := by
  refine ⟨rfl, fun b hb => ⟨b && e != kNoneEvent, by simp [TcpConnection.update, hb], ?_⟩⟩
  simp only [Bool.and_eq_true]
  exact And.left

theorem readableBytes_eq_zero (h : c.outputBuffer.WF) : c.outputBuffer.readableBytes = 0 ↔ c.outputBuffer.content = [] := by
  rw [← Buffer.content_length h, List.length_eq_zero_iff]

/-- What the second half of `sendInLoop` makes of the connection, with `b` the new output buffer. -/
def buffered (c : TcpConnection) (b : Buffer) : TcpConnection :=
  if c.isWriting then { c with outputBuffer := b } else ({ c with outputBuffer := b } : TcpConnection).enableWriting

@[simp] theorem buffered_outputBuffer (c : TcpConnection) (b : Buffer) : (c.buffered b).outputBuffer = b := by
  unfold buffered
  split <;> rfl

@[simp] theorem buffered_wire (c : TcpConnection) (b : Buffer) : (c.buffered b).wire = c.wire := by
  unfold buffered
  split <;> rfl

@[simp] theorem buffered_isWriting (c : TcpConnection) (b : Buffer) : (c.buffered b).isWriting = true := by
  unfold buffered
  split
  · rename_i hw
    exact hw
  · exact enableWriting_isWriting _

theorem Keeps.buffered (c : TcpConnection) (b : Buffer) : Keeps c (c.buffered b) := by
  have hkeeps : Keeps c { c with outputBuffer := b } := .of_eq rfl rfl
  unfold TcpConnection.buffered
  split
  · exact hkeeps
  · exact hkeeps.trans (Keeps.update _ _)

theorem bufferRest_eq (h : c.outputBuffer.WF) (rest : List UInt8) :
    ∃ b fs, c.bufferRest rest = some (c.buffered b, fs) ∧ b.WF ∧ b.content = c.outputBuffer.content ++ rest ∧
      ∀ f ∈ fs, ∃ len, f = .highWaterMarkCallback len := by
  obtain ⟨b, pre, spare, hb, hlay, _⟩ := Buffer.append_layout h.layout rest
  by_cases hmark : c.highWaterMark ≤ c.outputBuffer.readableBytes + rest.length ∧
      c.outputBuffer.readableBytes < c.highWaterMark ∧ c.hasHighWaterMarkCallback = true
  · refine ⟨b, [.highWaterMarkCallback (c.outputBuffer.readableBytes + rest.length)], ?_, hlay.wf, hlay.content_eq,
      fun f hf => ⟨_, List.mem_singleton.1 hf⟩⟩
    simp only [bufferRest, hb, Option.bind_eq_bind, Option.bind_some, if_pos hmark]
    rfl
  · refine ⟨b, [], ?_, hlay.wf, hlay.content_eq, by simp⟩
    simp only [bufferRest, hb, Option.bind_eq_bind, Option.bind_some, if_neg hmark]
    rfl

theorem directComplete_notice (len : Nat) (r : WriteResult) : ∀ f ∈ c.directComplete len r, f.Notice := by
  intro f hf
  unfold directComplete at hf
  split at hf
  · rw [List.mem_singleton.1 hf]; trivial
  · cases hf

variable {r : WriteResult}

/-- A direct write happens only in front of an empty buffer. -/
theorem directWrite_spec (h : c.outputBuffer.WF) {message : List UInt8} (hr : r ≠ .fault)
    (hlegal : r.Legal message.length) : ∃ n, c.directWrite r = (n, false) ∧ n ≤ message.length ∧
      (n = 0 ∨ c.outputBuffer.content = []) := by
  unfold directWrite
  split
  · rename_i hempty
    have hcontent := (readableBytes_eq_zero h).1 hempty.2
    cases r with
    | wrote n => exact ⟨n, rfl, hlegal, Or.inr hcontent⟩
    | wouldBlock => exact ⟨0, rfl, Nat.zero_le _, Or.inl rfl⟩
    | error => exact ⟨0, rfl, Nat.zero_le _, Or.inl rfl⟩
    | fault => exact absurd rfl hr
  · exact ⟨0, rfl, Nat.zero_le _, Or.inl rfl⟩

/-- What `sendInLoop` can do: nothing, write all it can and queue nothing else, or buffer what is left. -/
inductive Sent (c : TcpConnection) (message : List UInt8) (r : WriteResult) : TcpConnection → List LoopFunctor → Prop
  | down : c.state = .kDisconnected → Sent c message r c []
  | direct : c.state ≠ .kDisconnected → ((c.directWrite r).2 = false → message.length ≤ (c.directWrite r).1) →
      Sent c message r { c with wire := c.wire ++ message.take (c.directWrite r).1 } (c.directComplete message.length r)
  | rest (b : Buffer) (fs : List LoopFunctor) : c.state ≠ .kDisconnected → (c.directWrite r).2 = false →
      (c.directWrite r).1 < message.length → b.WF →
      b.content = c.outputBuffer.content ++ message.drop (c.directWrite r).1 →
      (∀ f ∈ fs, ∃ len, f = .highWaterMarkCallback len) →
      Sent c message r (({ c with wire := c.wire ++ message.take (c.directWrite r).1 } : TcpConnection).buffered b) fs

/-- A write that left something over is not complete. -/
theorem directComplete_eq_nil {len : Nat} (h : (c.directWrite r).1 < len) : c.directComplete len r = [] := by
  unfold directComplete
  split
  · rename_i hall
    obtain ⟨hw, hempty, rfl, -⟩ := hall
    simp [directWrite, hw, hempty] at h
  · rfl

theorem sendInLoop_sent (h : c.outputBuffer.WF) (message : List UInt8) (r : WriteResult) :
    ∃ c' fs, c.sendInLoop message r = some (c', fs) ∧ Sent c message r c' fs := by
  by_cases hdown : c.state = .kDisconnected
  · exact ⟨c, [], by simp [TcpConnection.sendInLoop, hdown], .down hdown⟩
  by_cases hrest : (c.directWrite r).2 = false ∧ 0 < message.length - (c.directWrite r).1
  · have hlt : (c.directWrite r).1 < message.length := by omega
    obtain ⟨b, fs, hb, hwf, hcontent, hfs⟩ :=
      bufferRest_eq (c := { c with wire := c.wire ++ message.take (c.directWrite r).1 }) h (message.drop (c.directWrite r).1)
    refine ⟨_, fs, ?_, .rest b fs hdown hrest.1 hlt hwf hcontent hfs⟩
    simp [TcpConnection.sendInLoop, hdown, hrest, hb, directComplete_eq_nil hlt]
  · refine ⟨_, _, ?_, .direct hdown fun hf => by simp only [hf, true_and] at hrest; omega⟩
    simp only [TcpConnection.sendInLoop, if_neg hdown, check_of (Nat.sub_le _ _), Option.bind_eq_bind,
      Option.bind_some, if_neg hrest]
    rfl

section
variable {message : List UInt8} {r : WriteResult} {fs : List LoopFunctor}

theorem Sent.keeps (h : Sent c message r c' fs) : Keeps c c' := by
  cases h with
  | down _ => exact Keeps.refl c
  | direct _ _ => exact .of_eq rfl rfl
  | rest b _ _ _ _ _ _ _ =>
    have hwrote : Keeps c { c with wire := c.wire ++ message.take (c.directWrite r).1 } := .of_eq rfl rfl
    exact hwrote.trans (Keeps.buffered _ b)

theorem Sent.notices (h : Sent c message r c' fs) : ∀ f ∈ fs, f.Notice := by
  cases h with
  | down _ => simp
  | direct _ _ => exact directComplete_notice _ _
  | rest _ _ _ _ _ _ _ hfs =>
    intro f hf
    obtain ⟨len, rfl⟩ := hfs f hf
    trivial

theorem Sent.wf (h : Sent c message r c' fs) (hwf : c.outputBuffer.WF) : c'.outputBuffer.WF := by
  cases h with
  | down _ => exact hwf
  | direct _ _ => exact hwf
  | rest b _ _ _ _ hb _ _ => simpa using hb

end

/-- `sendInLoop` on a connection that is not down: without a fault the message goes to the end of
the stream. -/
theorem sendInLoop_spec (h : c.outputBuffer.WF) (message : List UInt8) (r : WriteResult) :
    ∃ c' fs, c.sendInLoop message r = some (c', fs) ∧ Keeps c c' ∧ (∀ f ∈ fs, f.Notice) ∧ c'.outputBuffer.WF ∧
      (c.state ≠ .kDisconnected → r ≠ .fault → r.Legal message.length →
        c'.output = c.output ++ message ∧ ((c.isWriting = true ↔ c.outputBuffer.content ≠ []) →
          (c'.isWriting = true ↔ c'.outputBuffer.content ≠ []))) := by
  obtain ⟨c', fs, hc', hsent⟩ := sendInLoop_sent h message r
  refine ⟨c', fs, hc', hsent.keeps, hsent.notices, hsent.wf h, fun hup hr hlegal => ?_⟩
  obtain ⟨n, hn, -, hor⟩ := directWrite_spec h hr hlegal
  cases hsent with
  | down hdown => exact absurd hdown hup
  | direct _ hle =>
    rw [hn] at hle ⊢
    refine ⟨?_, id⟩
    have hall : message.take n = message := List.take_of_length_le (hle rfl)
    rcases hor with rfl | hempty
    · have hnil : message = [] := by simpa using hall.symm
      simp [output, hnil]
    · simp [output, hall, hempty]
  | rest b _ _ _ hlt _ hcontent _ =>
    rw [hn] at hlt hcontent ⊢
    have hne : message.drop n ≠ [] := fun he => Nat.not_le_of_lt hlt (List.drop_eq_nil_iff.1 he)
    refine ⟨?_, fun _ => by simp [hcontent, hne]⟩
    simp only [output, buffered_wire, buffered_outputBuffer, hcontent]
    rcases hor with rfl | hempty
    · simp
    · simp [hempty]

/-- The new message is behind those sent so far. -/
theorem Bytes.send (h : Bytes c sent) {message : List UInt8} (hwf : c'.outputBuffer.WF)
    (hout : c'.output = c.output ++ message) (hw : c'.isWriting = true ↔ c'.outputBuffer.content ≠ []) :
    Bytes c' (sent ++ [message]) := by
  refine ⟨hwf, hout.trans ?_, hw⟩
  rw [output, h.bytes, List.flatten_append, List.flatten_singleton]

theorem shutdownInLoop_keeps (c : TcpConnection) :
    Keeps c c.shutdownInLoop ∧ c.shutdownInLoop.outputBuffer = c.outputBuffer ∧ c.shutdownInLoop.wire = c.wire := by
  unfold TcpConnection.shutdownInLoop
  split
  · exact ⟨Keeps.refl c, rfl, rfl⟩
  · exact ⟨.of_eq rfl rfl, rfl, rfl⟩

theorem shutdownInLoop_output (c : TcpConnection) : c.shutdownInLoop.output = c.output := by
  obtain ⟨-, hbuf, hwire⟩ := shutdownInLoop_keeps c
  rw [output, hbuf, hwire, output]

theorem Bytes.shutdownInLoop (h : Bytes c sent) : Bytes c.shutdownInLoop sent := by
  unfold TcpConnection.shutdownInLoop
  split
  · exact h
  · exact ⟨h.wf, h.bytes, h.writing⟩

/-- The end of `handleWrite` when the buffer is empty: a connection that is shutting down issues `shutdownWrite`. -/
def emptied (c : TcpConnection) : TcpConnection :=
  if c.state = .kDisconnecting then { c.disableWriting with shutdownWrites := c.shutdownWrites + 1 } else c.disableWriting

theorem emptied_eq (c : TcpConnection) :
    (if c.disableWriting.state = .kDisconnecting then c.disableWriting.shutdownInLoop else c.disableWriting) = c.emptied := by
  have hquiet : c.disableWriting.isWriting = false := disableWriting_isWriting c
  simp only [shutdownInLoop, hquiet]
  rfl

theorem Keeps.emptied (c : TcpConnection) : Keeps c c.emptied := by
  have hkeeps : Keeps c c.disableWriting := .update c _
  unfold TcpConnection.emptied
  split
  · exact hkeeps.trans (.of_eq rfl rfl)
  · exact hkeeps

theorem emptied_fields (c : TcpConnection) :
    c.emptied.outputBuffer = c.outputBuffer ∧ c.emptied.wire = c.wire ∧ c.emptied.isWriting = false := by
  have hquiet : c.disableWriting.isWriting = false := disableWriting_isWriting c
  unfold emptied
  split
  · exact ⟨rfl, rfl, hquiet⟩
  · exact ⟨rfl, rfl, hquiet⟩

/-- What `handleWrite` can do: nothing, write a part of the buffer, or all of it. -/
inductive Wrote (c : TcpConnection) (r : WriteResult) : TcpConnection → List LoopFunctor → Prop
  | none : (c.isWriting = true → ∀ n, r ≠ .wrote (n + 1)) → Wrote c r c []
  | part (n : Nat) (b : Buffer) : c.isWriting = true → r = .wrote (n + 1) → b.WF →
      b.content = c.outputBuffer.content.drop (n + 1) → b.content ≠ [] →
      Wrote c r { c with wire := c.wire ++ c.outputBuffer.content.take (n + 1), outputBuffer := b } []
  | all (b : Buffer) : c.isWriting = true → r = .wrote c.outputBuffer.readableBytes → b.WF → b.content = [] →
      Wrote c r ({ c with wire := c.wire ++ c.outputBuffer.content, outputBuffer := b } : TcpConnection).emptied
        (if c.hasWriteCompleteCallback then [.writeCompleteCallback] else [])

theorem handleWrite_wrote (h : c.outputBuffer.WF) (hlegal : r.Legal c.outputBuffer.readableBytes) :
    ∃ c' fs, c.handleWrite r = some (c', fs) ∧ Wrote c r c' fs := by
  unfold TcpConnection.handleWrite
  split
  · rename_i hw
    split
    · rename_i n
      have hlen : n + 1 ≤ c.outputBuffer.content.length := by
        rw [Buffer.content_length h]
        exact hlegal
      obtain ⟨b, hb, hlay⟩ := Buffer.retrieve_layout h.layout (n + 1) hlen
      simp only [hb, Option.bind_eq_bind, Option.bind_some]
      split
      · rename_i hzero
        have hempty : b.content = [] := (readableBytes_eq_zero (c := { c with outputBuffer := b }) hlay.wf).1 hzero
        have hall : n + 1 = c.outputBuffer.content.length := by
          refine Nat.le_antisymm hlen (List.drop_eq_nil_iff.1 ?_)
          rw [← hlay.content_eq, hempty]
        have htake : c.outputBuffer.content.take (n + 1) = c.outputBuffer.content := List.take_of_length_le (by omega)
        refine ⟨_, _, ?_, .all b hw (congrArg WriteResult.wrote (hall.trans (Buffer.content_length h))) hlay.wf hempty⟩
        rw [htake, ← emptied_eq]
        rfl
      · rename_i hpos
        have hne : b.content ≠ [] := fun he =>
          hpos ((readableBytes_eq_zero (c := { c with outputBuffer := b }) hlay.wf).2 he)
        exact ⟨_, _, rfl, .part n b hw rfl hlay.wf hlay.content_eq hne⟩
    · rename_i hno
      exact ⟨c, [], rfl, .none fun _ n hr => hno n hr⟩
  · rename_i hw
    exact ⟨c, [], rfl, .none fun hw' => absurd hw' hw⟩

section
variable {r : WriteResult} {fs : List LoopFunctor}

theorem Wrote.keeps (h : Wrote c r c' fs) : Keeps c c' := by
  cases h with
  | none _ => exact Keeps.refl c
  | part _ _ _ _ _ _ _ => exact .of_eq rfl rfl
  | all b _ _ _ _ =>
    have hkeeps : Keeps c { c with wire := c.wire ++ c.outputBuffer.content, outputBuffer := b } := .of_eq rfl rfl
    exact hkeeps.trans (.emptied _)

theorem Wrote.notices (h : Wrote c r c' fs) : ∀ f ∈ fs, f.Notice := by
  cases h with
  | none _ => simp
  | part _ _ _ _ _ _ _ => simp
  | all _ _ _ _ _ =>
    intro f hf
    split at hf
    · rw [List.mem_singleton.1 hf]
      trivial
    · cases hf

theorem Wrote.wf (h : Wrote c r c' fs) (hwf : c.outputBuffer.WF) : c'.outputBuffer.WF := by
  cases h with
  | none _ => exact hwf
  | part _ b _ _ hb _ _ => exact hb
  | all b _ _ hb _ =>
    rw [(emptied_fields _).1]
    exact hb

theorem Wrote.output (h : Wrote c r c' fs) : c'.output = c.output := by
  cases h with
  | none _ => rfl
  | part n b _ _ _ hcontent _ => simp [TcpConnection.output, hcontent]
  | all b _ _ _ hempty =>
    obtain ⟨hbuf, hwire, -⟩ := emptied_fields { c with wire := c.wire ++ c.outputBuffer.content, outputBuffer := b }
    rw [TcpConnection.output, hbuf, hwire, hempty, List.append_nil]
    rfl

/-- The channel goes on to write exactly if something is left. -/
theorem Wrote.writing (h : Wrote c r c' fs) (hw : c.isWriting = true ↔ c.outputBuffer.content ≠ []) :
    c'.isWriting = true ↔ c'.outputBuffer.content ≠ [] := by
  cases h with
  | none _ => exact hw
  | part _ b hw' _ _ _ hne => exact ⟨fun _ => hne, fun _ => hw'⟩
  | all b _ _ _ hempty =>
    obtain ⟨hbuf, -, hquiet⟩ := emptied_fields { c with wire := c.wire ++ c.outputBuffer.content, outputBuffer := b }
    rw [hbuf, hquiet, hempty]
    simp

end

/-- `handleWrite` moves bytes from the buffer to the kernel. -/
theorem handleWrite_spec (h : c.outputBuffer.WF) (hlegal : r.Legal c.outputBuffer.readableBytes) :
    ∃ c' fs, c.handleWrite r = some (c', fs) ∧ Keeps c c' ∧ (∀ f ∈ fs, f.Notice) ∧ c'.outputBuffer.WF ∧
      c'.output = c.output ∧ ∀ {sent}, Bytes c sent → Bytes c' sent := by
  obtain ⟨c', fs, hc', hwrote⟩ := handleWrite_wrote h hlegal
  refine ⟨c', fs, hc', hwrote.keeps, hwrote.notices, hwrote.wf h, hwrote.output, fun hb => ?_⟩
  exact ⟨hwrote.wf h, hwrote.output.trans hb.bytes, hwrote.writing hb.writing⟩

end

end TcpConnection

namespace World
open TcpConnection

/-! ## What the members of the world do -/

section
variable {w w' : World} {r : WriteResult} {thread : Nat}

/-- `handleClose` runs `closeCallback_`: the server removes the connection at once, or its loop is told to. -/
theorem handleClose_eq (h : w.handleClose = some w') : w.conn.isOpen ∧
    (w.sameLoop = true ∧ w.inMap = true ∧ w' = { w with
        conn := w.conn.disableAll, closeCalls := w.closeCalls + 1, inMap := false, queue := w.queue.push .connectDestroyed } ∨
      w.sameLoop = false ∧ w' = { w with
        conn := w.conn.disableAll, closeCalls := w.closeCalls + 1, removals := w.removals + 1 }) := by
  obtain ⟨_, hopen, h⟩ := Option.bind_eq_some_iff.1 h
  refine ⟨check_eq_some.1 hopen, ?_⟩
  cases hs : w.sameLoop with
  | true =>
    simp only [hs, if_true, removeConnectionInLoop] at h
    obtain ⟨_, hmap, h⟩ := Option.bind_eq_some_iff.1 h
    cases h
    exact Or.inl ⟨rfl, check_eq_some.1 hmap, rfl⟩
  | false =>
    simp only [hs] at h
    cases h
    exact Or.inr ⟨rfl, rfl⟩

theorem removeConnectionInLoop_eq (h : w.removeConnectionInLoop = some w') :
    w.inMap = true ∧ w' = { w with inMap := false, queue := w.queue.push .connectDestroyed } := by
  obtain ⟨_, hmap, h⟩ := Option.bind_eq_some_iff.1 h
  cases h
  exact ⟨check_eq_some.1 hmap, rfl⟩

theorem connectEstablished_eq (h : w.connectEstablished = some w') : w.conn.state = .kConnecting ∧
    w' = { w with conn := ({ w.conn with state := .kConnected } : TcpConnection).enableReading } := by
  obtain ⟨_, hstate, h⟩ := Option.bind_eq_some_iff.1 h
  cases h
  exact ⟨check_eq_some.1 hstate, rfl⟩

theorem connectDestroyed_eq (h : w.connectDestroyed = some w') : w.conn.isOpen ∧
    ∃ conn, ({ w.conn with state := .kDisconnected } : TcpConnection).disableAll.removeChannel = some conn ∧
      w' = { w with conn := conn, destroyed := w.destroyed + 1 } := by
  obtain ⟨_, hopen, h⟩ := Option.bind_eq_some_iff.1 h
  obtain ⟨conn, hconn, h⟩ := Option.bind_eq_some_iff.1 h
  cases h
  exact ⟨check_eq_some.1 hopen, conn, hconn, rfl⟩

end

/-! ## Events that neither open, close nor destroy -/

/-- The functors the life of a connection depends on. -/
def special : LoopFunctor → Bool
  | .connectEstablished | .connectDestroyed | .forceCloseInLoop => true
  | _ => false

def specials (q : TaskQueue LoopFunctor) : List LoopFunctor := q.all.filter special

/-- The event is none of: an effective `forceClose` or its push, a close callback or an end of file, a
special functor, the removal in the server. -/
def Calm (w : World) : Event → Prop
  | .forceClose _ => ¬ w.conn.isOpen
  | .push thread => ∀ f, w.half thread = some f → special f = false
  | .callback n _ => ∀ k todo, w.todo = k :: todo → k ≠ .close ∧ (k = .read → n ≠ 0)
  | .functor _ => ∀ f batch, w.queue.batch = f :: batch → special f = false
  | .remove => False
  | _ => True

/-- The direct writes of the event do not fail with `EPIPE` or `ECONNRESET`. -/
def Event.NoFault : Event → Prop
  | .send _ _ r | .functor r => r ≠ .fault
  | _ => True

instance : ∀ e : Event, Decidable e.NoFault
  | .send _ _ r | .functor r => inferInstanceAs (Decidable (r ≠ .fault))
  | .shutdown _ | .forceClose _ | .push _ | .poll _ | .callback _ _ | .swap | .remove => .isTrue trivial

/-- What a calm event leaves alone. -/
structure Quiet (w w' : World) : Prop where
  specials : specials w'.queue = specials w.queue
  half : ∀ t f, special f = true → (w'.half t = some f ↔ w.half t = some f)
  state : w'.conn.state = w.conn.state ∨ (w.conn.isOpen ∧ w'.conn.isOpen)
  slot : ∀ b, w.conn.slot = some b → ∃ b', w'.conn.slot = some b' ∧ (b' = true → b = true)
  wf : w'.conn.outputBuffer.WF
  inMap : w'.inMap = w.inMap
  removals : w'.removals = w.removals
  sameLoop : w'.sameLoop = w.sameLoop
  closeCalls : w'.closeCalls = w.closeCalls
  destroyed : w'.destroyed = w.destroyed

variable {f : LoopFunctor} {batch : List LoopFunctor}

section
variable {w w' : World} {r : WriteResult} {e : Event}

theorem special_notice (h : f.Notice) : special f = false := by
  cases f <;> first | rfl | cases h

theorem specials_push (w : World) (f : LoopFunctor) :
    specials (w.queue.push f) = specials w.queue ++ if special f then [f] else [] := by
  simp only [specials, TaskQueue.all_push, List.filter_append]
  cases hf : special f <;> simp [hf]

theorem specials_swap (hb : w.queue.batch = []) : specials (w.queue.swap) = specials w.queue := by
  simp only [specials, TaskQueue.all_swap hb]

/-- Running a functor takes it off the front. -/
theorem specials_batch (hb : w.queue.batch = f :: batch) :
    specials w.queue = (if special f then [f] else []) ++
      specials { w.queue with batch := batch } := by
  simp only [specials, TaskQueue.all_of_batch hb]
  cases hf : special f <;> simp [hf]

/-- A member of the connection that works on the output has run. -/
theorem quiet_finish {fs : List LoopFunctor} (hk : Keeps w.conn c') (hfs : ∀ f ∈ fs, f.Notice)
    (hwf : c'.outputBuffer.WF) : Quiet w (w.finish (c', fs)) := by
  have hnil : fs.filter special = [] := List.filter_eq_nil_iff.2 fun f hf => by simp [special_notice (hfs f hf)]
  refine ⟨?_, fun _ _ _ => Iff.rfl, Or.inl hk.state, hk.slot, hwf, rfl, rfl, rfl, rfl, rfl⟩
  simp [specials, finish, hnil]

theorem Quiet.refl (hwf : w.conn.outputBuffer.WF) : Quiet w w :=
  ⟨rfl, fun _ _ _ => Iff.rfl, Or.inl rfl, fun b hb => ⟨b, hb, id⟩, hwf, rfl, rfl, rfl, rfl, rfl⟩

theorem quiet_sendInLoop (hwf : w.conn.outputBuffer.WF) (sender : Nat) (m : List UInt8) (r : WriteResult) :
    ∃ w', w.sendInLoop sender m r = some w' ∧ Quiet w w' ∧
      (Bytes w.conn (w.ran.map Prod.snd) → w.conn.state ≠ .kDisconnected → r ≠ .fault → r.Legal m.length →
        Bytes w'.conn (w'.ran.map Prod.snd)) := by
  obtain ⟨c', fs, hc', hk, hfs, hwf', hsent⟩ := sendInLoop_spec hwf m r
  refine ⟨{ w.finish (c', fs) with ran := w.ran ++ [(sender, m)] }, ?_, { quiet_finish hk hfs hwf' with }, ?_⟩
  · simp [World.sendInLoop, hc']
  · intro hb hup hr hlegal
    obtain ⟨hout, hw⟩ := hsent hup hr hlegal
    rw [List.map_append]
    exact hb.send hwf' hout (hw hb.writing)

theorem quiet_shutdownInLoop (hwf : w.conn.outputBuffer.WF) : Quiet w { w with conn := w.conn.shutdownInLoop } := by
  obtain ⟨hk, hbuf, -⟩ := shutdownInLoop_keeps w.conn
  exact ⟨rfl, fun _ _ _ => Iff.rfl, Or.inl hk.state, hk.slot, hbuf ▸ hwf, rfl, rfl, rfl, rfl, rfl⟩

theorem quiet_runInLoop (hwf : w.conn.outputBuffer.WF) {t : Nat} (ht : w.half t = none) (hf : special f = false) :
    Quiet w (w.runInLoop t f) := by
  refine ⟨rfl, fun t' f' hf' => ?_, Or.inl rfl, fun b hb => ⟨b, hb, id⟩, hwf, rfl, rfl, rfl, rfl, rfl⟩
  by_cases htt : t' = t
  · subst htt
    simp only [runInLoop, Function.update_self, ht, Option.some.injEq, reduceCtorEq, iff_false]
    rintro rfl
    rw [hf] at hf'
    cases hf'
  · simp [runInLoop, htt]

/-- What a calm event comes to: a quiet change, which keeps the byte stream if no write fails. -/
structure CalmTo (w w' : World) (noFault : Prop) : Prop where
  quiet : Quiet w w'
  bytes : Bytes w.conn (w.ran.map Prod.snd) → w.conn.state ≠ .kDisconnected → noFault →
    Bytes w'.conn (w'.ran.map Prod.snd)

/-- Nothing that matters has changed. -/
theorem CalmTo.of_quiet {noFault : Prop} (hq : Quiet w w') (hconn : w'.conn = w.conn) (hran : w'.ran = w.ran) :
    CalmTo w w' noFault := by
  refine ⟨hq, fun hb _ _ => ?_⟩
  rw [hconn, hran]
  exact hb

section
variable (hwf : w.conn.outputBuffer.WF)
include hwf

theorem send_calm {t : Nat} {m : List UInt8} (hl : (Event.send t m r).Legal w) :
    ∃ w', w.send t m r = some w' ∧ CalmTo w w' (r ≠ .fault) := by
  simp only [World.send]
  split
  · split
    · obtain ⟨w', hw', hq, hbytes⟩ :=
        quiet_sendInLoop (w := { w with accepted := w.accepted ++ [(t, m)] }) hwf t m r
      exact ⟨w', hw', { hq with }, fun hb hup hr => hbytes hb hup hr hl.2⟩
    · have hq := quiet_runInLoop (w := { w with accepted := w.accepted ++ [(t, m)] }) (f := .sendInLoop t m) hwf hl.1 rfl
      exact ⟨_, rfl, .of_quiet { hq with } rfl rfl⟩
  · exact ⟨w, rfl, .of_quiet (Quiet.refl hwf) rfl rfl⟩

theorem shutdown_calm {t : Nat} (hl : (Event.shutdown t).Legal w) : CalmTo w (w.shutdown t) True := by
  simp only [World.shutdown]
  split
  · rename_i hconn
    have hopen : w.conn.isOpen := Or.inl hconn
    split
    · have hq := quiet_shutdownInLoop (w := { w with conn := { w.conn with state := .kDisconnecting } }) hwf
      refine ⟨{ hq with state := Or.inr ⟨hopen, ?_⟩ }, fun hb _ _ => ?_⟩
      · exact Or.inr (shutdownInLoop_keeps _).1.state
      · exact Bytes.shutdownInLoop ⟨hb.wf, hb.bytes, hb.writing⟩
    · have hq := quiet_runInLoop (w := { w with conn := { w.conn with state := .kDisconnecting } }) (f := .shutdownInLoop) hwf hl rfl
      exact ⟨{ hq with state := Or.inr ⟨hopen, Or.inr rfl⟩ }, fun hb _ _ => ⟨hb.wf, hb.bytes, hb.writing⟩⟩
  · exact .of_quiet (Quiet.refl hwf) rfl rfl

theorem quiet_push {t : Nat} (hf : w.half t = some f) (hsp : special f = false) :
    Quiet w { w with half := Function.update w.half t none, queue := w.queue.push f } := by
  refine ⟨?_, fun t' f' hf' => ?_, Or.inl rfl, fun b hb => ⟨b, hb, id⟩, hwf, rfl, rfl, rfl, rfl, rfl⟩
  · have heq : specials (w.queue.push f) = specials w.queue := by
      rw [specials_push, hsp]
      simp
    exact heq
  · by_cases htt : t' = t
    · subst htt
      simp only [Function.update_self, hf, Option.some.injEq, reduceCtorEq, false_iff]
      rintro rfl
      rw [hsp] at hf'
      cases hf'
    · simp [htt]

theorem callback_calm {n : Int} {k : Callback} (hlegal : r.Legal w.conn.outputBuffer.readableBytes) (hclose : k ≠ .close)
    (hread : k = .read → n ≠ 0) : ∃ w', w.callback n r k = some w' ∧ CalmTo w w' True := by
  cases k with
  | close => exact absurd rfl hclose
  | error => exact ⟨w, rfl, .of_quiet (Quiet.refl hwf) rfl rfl⟩
  | read =>
    simp only [World.callback, handleRead, if_neg (hread rfl)]
    exact ⟨w, rfl, .of_quiet (Quiet.refl hwf) rfl rfl⟩
  | write =>
    obtain ⟨c', fs, hc', hk, hfs, hwf', -, hbytes⟩ := handleWrite_spec hwf hlegal
    refine ⟨w.finish (c', fs), ?_, quiet_finish hk hfs hwf', fun hb _ _ => hbytes hb⟩
    simp [World.callback, hc']

theorem call_calm (hsp : special f = false) (hlegal : r.Legal f.message.length) :
    ∃ w', w.call r f = some w' ∧ CalmTo w w' (r ≠ .fault) := by
  cases f with
  | connectEstablished => cases hsp
  | connectDestroyed => cases hsp
  | forceCloseInLoop => cases hsp
  | shutdownInLoop => exact ⟨_, rfl, quiet_shutdownInLoop hwf, fun hb _ _ => hb.shutdownInLoop⟩
  | sendInLoop s m =>
    obtain ⟨w', hw', hq, hbytes⟩ := quiet_sendInLoop hwf s m r
    exact ⟨w', hw', hq, fun hb hup hr => hbytes hb hup hr hlegal⟩
  | writeCompleteCallback => exact ⟨w, rfl, .of_quiet (Quiet.refl hwf) rfl rfl⟩
  | highWaterMarkCallback len => exact ⟨w, rfl, .of_quiet (Quiet.refl hwf) rfl rfl⟩

/-- **A calm event** passes its asserts, keeps what `Quiet` says, and keeps the byte stream. -/
theorem step_calm (hl : e.Legal w) (hc : w.Calm e) : ∃ w', w.step e = some w' ∧ CalmTo w w' e.NoFault := by
  cases e with
  | send t m r => exact send_calm hwf hl
  | shutdown t => exact ⟨_, rfl, shutdown_calm hwf hl⟩
  | forceClose t =>
    simp only [step, World.forceClose, if_neg hc]
    exact ⟨w, rfl, .of_quiet (Quiet.refl hwf) rfl rfl⟩
  | push t =>
    obtain ⟨f, hf⟩ := Option.ne_none_iff_exists'.1 hl
    simp only [step, hf]
    exact ⟨_, rfl, .of_quiet (quiet_push hwf hf (hc f hf)) rfl rfl⟩
  | poll revents => exact ⟨_, rfl, .of_quiet { Quiet.refl hwf with } rfl rfl⟩
  | callback n r =>
    obtain ⟨k, todo, htodo⟩ := List.exists_cons_of_ne_nil hl.1
    obtain ⟨hclose, hread⟩ := hc k todo htodo
    obtain ⟨w', hw', hcalm⟩ := callback_calm (w := { w with todo := todo }) hwf hl.2 hclose hread
    simp only [step, htodo]
    exact ⟨w', hw', { hcalm.quiet with }, hcalm.bytes⟩
  | swap => exact ⟨_, rfl, .of_quiet { Quiet.refl hwf with specials := specials_swap hl.2 } rfl rfl⟩
  | functor r =>
    obtain ⟨_, hne, hlegal⟩ := hl
    obtain ⟨f, batch, hb⟩ := List.exists_cons_of_ne_nil hne
    have hsp := hc f batch hb
    have hpop := specials_batch hb
    rw [hsp] at hpop
    obtain ⟨w', hw', hcalm⟩ := call_calm (w := { w with queue := { w.queue with batch := batch } }) hwf hsp
      (hlegal f (by simp [hb]))
    simp only [step, hb]
    exact ⟨w', hw', { hcalm.quiet with specials := hcalm.quiet.specials.trans (by simpa using hpop.symm) }, hcalm.bytes⟩
  | remove => exact absurd hc id

end

/-! ### The other events -/

theorem not_calm_push {t : Nat} (hl : (Event.push t).Legal w) (hc : ¬ w.Calm (.push t)) :
    ∃ f, w.half t = some f ∧ special f = true := by
  obtain ⟨f, hf⟩ := Option.ne_none_iff_exists'.1 hl
  refine ⟨f, hf, ?_⟩
  by_contra hne
  refine hc fun f' hf' => ?_
  rw [hf] at hf'
  cases hf'
  exact eq_false_of_ne_true hne

theorem not_calm_functor (hl : (Event.functor r).Legal w) (hc : ¬ w.Calm (.functor r)) :
    ∃ f batch, w.queue.batch = f :: batch ∧ special f = true := by
  obtain ⟨f, batch, hb⟩ := List.exists_cons_of_ne_nil hl.2.1
  refine ⟨f, batch, hb, ?_⟩
  by_contra hne
  refine hc fun f' batch' hb' => ?_
  rw [hb] at hb'
  cases hb'
  exact eq_false_of_ne_true hne

/-- A callback that is not calm is a close, or a read at the end of file. -/
theorem not_calm_callback {n : Int} (hl : (Event.callback n r).Legal w) (hc : ¬ w.Calm (.callback n r)) :
    ∃ k todo, w.todo = k :: todo ∧ (k = .close ∨ k = .read ∧ n = 0) ∧
      w.step (.callback n r) = ({ w with todo := todo } : World).handleClose := by
  obtain ⟨k, todo, htodo⟩ := List.exists_cons_of_ne_nil hl.1
  have hcloses : k = .close ∨ k = .read ∧ n = 0 := by
    by_contra hne
    refine hc fun k' todo' h' => ?_
    rw [htodo] at h'
    cases h'
    exact ⟨fun hk => hne (Or.inl hk), fun hk hn => hne (Or.inr ⟨hk, hn⟩)⟩
  refine ⟨k, todo, htodo, hcloses, ?_⟩
  simp only [World.step, htodo]
  rcases hcloses with rfl | ⟨rfl, rfl⟩
  · rfl
  · rfl

/-- A functor of `forceClose` runs on an open connection. -/
theorem step_forceCloseInLoop (hb : w.queue.batch = .forceCloseInLoop :: batch) (hopen : w.conn.isOpen) :
    w.step (.functor r) = ({ w with queue := { w.queue with batch := batch } } : World).handleClose := by
  simp only [World.step, hb, World.call, World.forceCloseInLoop, if_pos hopen]

section
variable {half : Nat → Option LoopFunctor} {t t' : Nat} {f g : LoopFunctor}

theorem half_pushed (h : Function.update half t none t' = some f) : t' ≠ t ∧ half t' = some f := by
  by_cases htt : t' = t
  · subst htt
    rw [Function.update_self] at h
    cases h
  · rw [Function.update_of_ne htt] at h
    exact ⟨htt, h⟩

theorem half_begun (h : Function.update half t (some g) t' = some f) : f = g ∨ half t' = some f := by
  by_cases htt : t' = t
  · subst htt
    rw [Function.update_self] at h
    exact Or.inl (Option.some.inj h).symm
  · rw [Function.update_of_ne htt] at h
    exact Or.inr h

end

end

/-! ## Until `handleClose` runs -/

/-- `connectEstablished` is still to come: nothing can happen before it. -/
structure Connecting (w : World) : Prop where
  state : w.conn.state = .kConnecting
  all : w.queue.all = [.connectEstablished]
  half : ∀ t, w.half t = none
  slot : w.conn.slot = none
  todo : w.todo = []

/-- The connection is up, and at most closing functors of its user are queued. -/
structure Up (w : World) : Prop where
  isOpen : w.conn.isOpen
  slot : ∃ b, w.conn.slot = some b
  specials : ∀ f ∈ specials w.queue, f = .forceCloseInLoop

structure Alive (w : World) : Prop where
  wf : w.conn.outputBuffer.WF
  closeCalls : w.closeCalls = 0
  destroyed : w.destroyed = 0
  inMap : w.inMap = true
  removals : w.removals = 0
  half : ∀ t f, w.half t = some f → special f = true → f = .forceCloseInLoop
  phase : Connecting w ∨ Up w

section
variable {w w' : World} {r : WriteResult} {e : Event}

theorem Quiet.isOpen (h : Quiet w w') (ho : w.conn.isOpen) : w'.conn.isOpen := by
  rcases h.state with heq | ⟨_, ho'⟩
  · rw [TcpConnection.isOpen, heq]; exact ho
  · exact ho'

theorem Up.quiet (h : Up w) (hq : Quiet w w') : Up w' := by
  obtain ⟨b, hb⟩ := h.slot
  obtain ⟨b', hb', _⟩ := hq.slot b hb
  exact ⟨hq.isOpen h.isOpen, ⟨b', hb'⟩, hq.specials ▸ h.specials⟩

theorem Up.specials_push (h : Up w) : ∀ f ∈ World.specials (w.queue.push .forceCloseInLoop), f = .forceCloseInLoop := by
  intro f hf
  rw [World.specials_push] at hf
  rcases List.mem_append.1 hf with hf | hf
  · exact h.specials f hf
  · exact List.mem_singleton.1 hf

/-- The only special functor that can run is that of `forceClose`. -/
theorem Up.functor_eq (h : Up w) (hb : w.queue.batch = f :: batch) (hsp : special f = true) : f = .forceCloseInLoop := by
  refine h.specials f ?_
  rw [specials_batch hb, hsp]
  exact List.mem_append_left _ List.mem_cons_self

/-- Before `connectEstablished` an event changes nothing but where the functor stands in the queue, or is that functor. -/
theorem Connecting.step (h : Connecting w) (hl : e.Legal w) :
    (∃ w', w.step e = some w' ∧ (w' = w ∨ w' = { w with queue := w.queue.swap }) ∧ Connecting w') ∨ e = .remove ∨
      ∃ r batch, e = .functor r ∧ w.queue.batch = .connectEstablished :: batch := by
  have hopen : ¬ w.conn.isOpen := by simp [TcpConnection.isOpen, h.state]
  cases e with
  | send t m r => exact Or.inl ⟨w, by simp [World.step, World.send, h.state], Or.inl rfl, h⟩
  | shutdown t => exact Or.inl ⟨w, by simp [World.step, World.shutdown, h.state], Or.inl rfl, h⟩
  | forceClose t => exact Or.inl ⟨w, by simp [World.step, World.forceClose, hopen], Or.inl rfl, h⟩
  | push t => exact absurd (h.half t) hl
  | poll revents =>
    have := hl.2.2
    rw [h.slot] at this
    cases this
  | callback n r => exact absurd h.todo hl.1
  | swap => exact Or.inl ⟨_, rfl, Or.inr rfl, { h with all := (TaskQueue.all_swap hl.2).trans h.all }⟩
  | functor r =>
    obtain ⟨f, batch, hb⟩ := List.exists_cons_of_ne_nil hl.2.1
    have hall := h.all
    rw [TaskQueue.all_of_batch hb] at hall
    rw [(List.cons.inj hall).1] at hb
    exact Or.inr (Or.inr ⟨r, batch, rfl, hb⟩)
  | remove => exact Or.inr (Or.inl rfl)

theorem Connecting.established (h : Connecting w) (hb : w.queue.batch = .connectEstablished :: batch) :
    ∃ w', ({ w with queue := { w.queue with batch := batch } } : World).connectEstablished = some w' ∧ Up w' ∧
      specials w'.queue = [] ∧ w' = { w with
        queue := { w.queue with batch := batch },
        conn := ({ w.conn with state := .kConnected } : TcpConnection).enableReading } := by
  have hall := h.all
  rw [TaskQueue.all_of_batch hb] at hall
  have hrest := (List.cons.inj hall).2
  refine ⟨_, by simp [connectEstablished, h.state], ⟨Or.inl rfl, ⟨true, ?_⟩, ?_⟩, ?_, rfl⟩
  · simp [TcpConnection.enableReading, TcpConnection.update, h.slot]
  · intro f hf
    rw [specials, hrest] at hf
    cases hf
  · rw [specials, hrest]
    rfl

theorem Alive.quiet (h : Alive w) (hq : Quiet w w') (hphase : Connecting w' ∨ Up w') : Alive w' where
  wf := hq.wf
  closeCalls := hq.closeCalls.trans h.closeCalls
  destroyed := hq.destroyed.trans h.destroyed
  inMap := hq.inMap.trans h.inMap
  removals := hq.removals.trans h.removals
  half t f hf hs := h.half t f ((hq.half t f hs).1 hf) hs
  phase := hphase

/-- An effective `forceClose`: one closing functor more, queued or about to be. -/
theorem Alive.forceClose (h : Alive w) (hup : Up w) (t : Nat) : Alive (w.forceClose t) ∧ Up (w.forceClose t) ∧
    (w.forceClose t).ran = w.ran ∧ ((Bytes w.conn (w.ran.map Prod.snd)) → Bytes (w.forceClose t).conn (w.ran.map Prod.snd)) := by
  simp only [World.forceClose, if_pos hup.isOpen]
  split
  · have hup' : Up { w with conn := { w.conn with state := .kDisconnecting }, queue := w.queue.push .forceCloseInLoop } :=
      ⟨Or.inr rfl, hup.slot, hup.specials_push⟩
    exact ⟨{ h with phase := Or.inr hup' }, hup', rfl, fun hb => ⟨hb.wf, hb.bytes, hb.writing⟩⟩
  · have hup' : Up (({ w with conn := { w.conn with state := .kDisconnecting } } : World).runInLoop t .forceCloseInLoop) :=
      ⟨Or.inr rfl, hup.slot, hup.specials⟩
    refine ⟨{ h with phase := Or.inr hup', half := fun t' f hf hs => ?_ }, hup', rfl, fun hb => ⟨hb.wf, hb.bytes, hb.writing⟩⟩
    rcases half_begun hf with heq | hf
    · exact heq
    · exact h.half t' f hf hs

/-- The push of a closing functor. -/
theorem Alive.push (h : Alive w) (hup : Up w) (t : Nat) :
    Alive { w with half := Function.update w.half t none, queue := w.queue.push .forceCloseInLoop } := by
  exact { h with
    half := fun t' f hf' hs => h.half t' f (half_pushed hf').2 hs
    phase := Or.inr ⟨hup.isOpen, hup.slot, hup.specials_push⟩ }

theorem handleClose_total (ho : w.conn.isOpen) (hm : w.inMap = true) : ∃ w', w.handleClose = some w' := by
  cases hs : w.sameLoop with
  | true => exact ⟨_, by simp [handleClose, ho, hs, removeConnectionInLoop, hm]; rfl⟩
  | false => exact ⟨_, by simp [handleClose, ho, hs]; rfl⟩

/-- Until `handleClose` has run, no event fails an assert. -/
theorem Alive.total (h : Alive w) (hl : e.Legal w) : ∃ w', w.step e = some w' := by
  rcases h.phase with hcon | hup
  · rcases hcon.step hl with ⟨w', hw', _⟩ | rfl | ⟨r, batch, rfl, hb⟩
    · exact ⟨w', hw'⟩
    · exact absurd hl (by simp [Event.Legal, h.removals])
    · obtain ⟨w', hw', _⟩ := hcon.established hb
      exact ⟨w', by simpa only [World.step, hb, World.call] using hw'⟩
  by_cases hc : w.Calm e
  · obtain ⟨w', hw', _⟩ := step_calm h.wf hl hc
    exact ⟨w', hw'⟩
  cases e with
  | forceClose t => exact ⟨_, rfl⟩
  | push t =>
    obtain ⟨f, hf⟩ := Option.ne_none_iff_exists'.1 hl
    simp only [World.step, hf]
    exact ⟨_, rfl⟩
  | callback n r =>
    obtain ⟨k, todo, -, -, hstep⟩ := not_calm_callback hl hc
    rw [hstep]
    exact handleClose_total (w := { w with todo := todo }) hup.isOpen h.inMap
  | functor r =>
    obtain ⟨f, batch, hb, hsp⟩ := not_calm_functor hl hc
    obtain rfl := hup.functor_eq hb hsp
    rw [step_forceCloseInLoop hb hup.isOpen]
    exact handleClose_total (w := { w with queue := { w.queue with batch := batch } }) hup.isOpen h.inMap
  | remove => exact absurd hl (by simp [Event.Legal, h.removals])
  | _ => exact absurd trivial hc

theorem Alive.new {sameLoop writeComplete highWater : Bool} {threadId mark : Nat}
    (h : newConnection sameLoop threadId writeComplete highWater mark = some w) :
    Alive w ∧ w.accepted = [] ∧ w.ran = [] ∧ w.queue.batch = [] ∧ (∀ t, w.half t = none) ∧ Bytes w.conn [] := by
  have hwf := Buffer.new_layout.wf
  have hcontent := Buffer.new_layout.content_eq
  cases sameLoop with
  | true =>
    cases h
    refine ⟨⟨hwf, rfl, rfl, rfl, rfl, by simp, Or.inr ⟨Or.inl rfl, ⟨true, rfl⟩, by simp [specials, TaskQueue.all]⟩⟩,
      rfl, rfl, rfl, fun _ => rfl, ⟨hwf, ?_, ?_⟩⟩
    · exact hcontent
    · rw [enableReading_isWriting]
      exact ⟨fun hw => absurd hw (by simp [TcpConnection.isWriting, kNoneEvent]), fun hne => absurd hcontent hne⟩
  | false =>
    cases h
    refine ⟨⟨hwf, rfl, rfl, rfl, rfl, by simp, Or.inl ⟨rfl, rfl, fun _ => rfl, rfl, rfl⟩⟩, rfl, rfl, rfl, fun _ => rfl, ⟨hwf, ?_, ?_⟩⟩
    · exact hcontent
    · exact ⟨fun hw => absurd hw (by simp [TcpConnection.isWriting, kNoneEvent]), fun hne => absurd hcontent hne⟩

end

end World
end ChatReactor
