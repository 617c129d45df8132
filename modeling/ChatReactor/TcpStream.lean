import ChatReactor.TcpConnectionProofs

/-!
# The output stream of a `TcpConnection`

Three paths feed the stream: the direct write of `sendInLoop`, its buffered rest, and the functors other
threads queue. `Bytes` is what the loop's thread keeps about the bytes, `Ordered` what the queue keeps
about the senders; neither looks at the other's part of the state.
-/

namespace ChatReactor
namespace World
open TcpConnection

/-! ## The senders -/

/-- The message a queued functor will send. -/
def sends : LoopFunctor → List (Nat × List UInt8)
  | .sendInLoop sender message => [(sender, message)]
  | _ => []

/-- The messages of one thread. -/
def own (thread : Nat) (l : List (Nat × List UInt8)) : List (Nat × List UInt8) := l.filter (·.1 = thread)

theorem own_append (thread : Nat) (l l' : List (Nat × List UInt8)) : own thread (l ++ l') = own thread l ++ own thread l' :=
  List.filter_append _ _

theorem sends_notice {f : LoopFunctor} (h : f.Notice) : sends f = [] := by
  cases f <;> first | rfl | cases h

/-- What a thread sent has run, is queued, or is about to be queued, in this order; the loop's own
thread queues nothing. -/
structure Ordered (accepted ran : List (Nat × List UInt8)) (all : List LoopFunctor) (half : Nat → Option LoopFunctor)
    (threadId : Nat) : Prop where
  order : ∀ t, own t accepted = own t ran ++ own t (all.flatMap sends) ++ (half t).toList.flatMap sends
  half_own : ∀ {t f}, half t = some f → ∀ x ∈ sends f, x.1 = t
  loop : ∀ x ∈ all.flatMap sends, x.1 ≠ threadId
  half_loop : half threadId = none

section
variable {acc ran : List (Nat × List UInt8)} {all fs : List LoopFunctor} {half : Nat → Option LoopFunctor} {loop t : Nat}
  {f : LoopFunctor}

theorem own_ne {t' : Nat} {l : List (Nat × List UInt8)} (h : ∀ x ∈ l, x.1 = t') (ht : t ≠ t') : own t l = [] :=
  List.filter_eq_nil_iff.2 fun x hx => by simpa [h x hx] using Ne.symm ht

theorem own_self {l : List (Nat × List UInt8)} (h : ∀ x ∈ l, x.1 = t) : own t l = l :=
  List.filter_eq_self.2 fun x hx => by simpa using h x hx

/-- Functors that send nothing are queued. -/
theorem Ordered.append (h : Ordered acc ran all half loop) (hfs : ∀ f ∈ fs, sends f = []) :
    Ordered acc ran (all ++ fs) half loop := by
  have heq : (all ++ fs).flatMap sends = all.flatMap sends := by
    rw [List.flatMap_append, List.flatMap_eq_nil_iff.2 hfs, List.append_nil]
  exact ⟨by rw [heq]; exact h.order, h.half_own, by rw [heq]; exact h.loop, h.half_loop⟩

/-- The loop runs the first functor. -/
theorem Ordered.run (h : Ordered acc ran (f :: all) half loop) : Ordered acc (ran ++ sends f) all half loop := by
  refine ⟨fun t => ?_, h.half_own, fun x hx => h.loop x ?_, h.half_loop⟩
  · simp only [h.order t, List.flatMap_cons, own_append, List.append_assoc]
  · rw [List.flatMap_cons]
    exact List.mem_append_right _ hx

/-- The loop's thread sends. -/
theorem Ordered.send (h : Ordered acc ran all half loop) (m : List UInt8) :
    Ordered (acc ++ [(loop, m)]) (ran ++ [(loop, m)]) all half loop := by
  refine ⟨fun t => ?_, h.half_own, h.loop, h.half_loop⟩
  rw [own_append, own_append, h.order t]
  by_cases ht : t = loop
  · have hqueued : own t (all.flatMap sends) = [] :=
      List.filter_eq_nil_iff.2 fun x hx => by simpa [ht] using h.loop x hx
    rw [hqueued, ht, h.half_loop]
    simp
  · rw [own_ne (l := [(loop, m)]) (by simp) ht]
    simp

/-- Another thread begins to queue a functor. -/
theorem Ordered.begin (h : Ordered acc ran all half loop) (hfree : half t = none) (ht : t ≠ loop)
    (hf : ∀ x ∈ sends f, x.1 = t) :
    Ordered (acc ++ sends f) ran all (Function.update half t (some f)) loop := by
  refine ⟨fun t' => ?_, fun {t' f'} hf' => ?_, h.loop, ?_⟩
  · rw [own_append, h.order t']
    by_cases htt : t' = t
    · subst htt
      rw [own_self hf, hfree, Function.update_self]
      simp
    · rw [own_ne hf htt, Function.update_of_ne htt, List.append_nil]
  · by_cases htt : t' = t
    · subst htt
      rw [Function.update_self] at hf'
      cases hf'
      exact hf
    · rw [Function.update_of_ne htt] at hf'
      exact h.half_own hf'
  · rw [Function.update_of_ne (Ne.symm ht)]
    exact h.half_loop

/-- It gets the lock and pushes it. -/
theorem Ordered.push (h : Ordered acc ran all half loop) (hf : half t = some f) :
    Ordered acc ran (all ++ [f]) (Function.update half t none) loop := by
  have hown := h.half_own hf
  have ht : t ≠ loop := by
    rintro rfl
    rw [h.half_loop] at hf
    cases hf
  refine ⟨fun t' => ?_, fun {t' f'} hf' => ?_, fun x hx => ?_, ?_⟩
  · rw [h.order t', List.flatMap_append, List.flatMap_singleton, own_append]
    by_cases htt : t' = t
    · subst htt
      rw [own_self hown, hf, Function.update_self]
      simp
    · rw [own_ne hown htt, Function.update_of_ne htt, List.append_nil]
  · by_cases htt : t' = t
    · subst htt
      rw [Function.update_self] at hf'
      cases hf'
    · rw [Function.update_of_ne htt] at hf'
      exact h.half_own hf'
  · rw [List.flatMap_append, List.flatMap_singleton] at hx
    rcases List.mem_append.1 hx with hx | hx
    · exact h.loop x hx
    · rw [hown x hx]
      exact ht
  · rw [Function.update_of_ne (Ne.symm ht)]
    exact h.half_loop

end

/-! ## What an event does to the queue -/

/-- A functor that neither sends nor shuts down. -/
def Mute (f : LoopFunctor) : Prop := sends f = [] ∧ f ≠ .shutdownInLoop

theorem mute_notice {f : LoopFunctor} (h : f.Notice) : Mute f := by
  refine ⟨sends_notice h, ?_⟩
  rintro rfl
  exact h

theorem sends_mute {fs : List LoopFunctor} (hfs : ∀ f ∈ fs, Mute f) : fs.flatMap sends = [] :=
  List.flatMap_eq_nil_iff.2 fun f hf => (hfs f hf).1

theorem not_mem_mute {fs : List LoopFunctor} (hfs : ∀ f ∈ fs, Mute f) : .shutdownInLoop ∉ fs := fun hin => (hfs _ hin).2 rfl

/-- What an event does to the functors that are queued or about to be, and to the records of what was sent. -/
inductive Flow (w w' : World) : Prop
  | keep (fs : List LoopFunctor) : (∀ f ∈ fs, Mute f) → w'.queue.all = w.queue.all ++ fs → w'.accepted = w.accepted →
      w'.ran = w.ran → w'.half = w.half → Flow w w'
  | send (m : List UInt8) (fs : List LoopFunctor) : (∀ f ∈ fs, Mute f) → w'.queue.all = w.queue.all ++ fs →
      w'.accepted = w.accepted ++ [(w.threadId, m)] → w'.ran = w.ran ++ [(w.threadId, m)] → w'.half = w.half → Flow w w'
  | begin (t : Nat) (f : LoopFunctor) : w.half t = none → t ≠ w.threadId → (∀ x ∈ sends f, x.1 = t) →
      (f = .shutdownInLoop → w'.conn.state = .kDisconnecting) → w'.queue.all = w.queue.all →
      w'.accepted = w.accepted ++ sends f → w'.ran = w.ran → w'.half = Function.update w.half t (some f) → Flow w w'
  | push (t : Nat) (f : LoopFunctor) : w.half t = some f → w'.queue.all = w.queue.all ++ [f] →
      w'.accepted = w.accepted → w'.ran = w.ran → w'.half = Function.update w.half t none → Flow w w'
  | run (f : LoopFunctor) (rest fs : List LoopFunctor) : (∀ f ∈ fs, Mute f) → w.queue.all = f :: rest →
      w'.queue.all = rest ++ fs → w'.accepted = w.accepted → w'.ran = w.ran ++ sends f → w'.half = w.half → Flow w w'

/-- An event in full: what happens to the queue, and to the bytes if no write fails. -/
structure Moves (w w' : World) (noFault : Prop) : Prop where
  flow : Flow w w'
  threadId : w'.threadId = w.threadId
  /-- A connection that is shutting down goes on to do so, until it is down. -/
  state : w.conn.state = .kDisconnecting → w'.conn.state = .kDisconnecting ∨ w'.conn.state = .kDisconnected
  wf : w'.conn.outputBuffer.WF
  /-- The stream grows by the messages whose `sendInLoop` has run. -/
  output : noFault → w.conn.state ≠ .kDisconnected →
    ∃ new, w'.ran = w.ran ++ new ∧ w'.conn.output = w.conn.output ++ (new.map Prod.snd).flatten
  /-- `closeCallback_` is only counted up. -/
  closeCalls : w.closeCalls ≤ w'.closeCalls

section
variable {w w' : World} {r : WriteResult} {e : Event} {noFault : Prop}

theorem Flow.same (hq : w'.queue.all = w.queue.all) (hacc : w'.accepted = w.accepted) (hran : w'.ran = w.ran)
    (hhalf : w'.half = w.half) : Flow w w' :=
  .keep [] (by simp) (by rw [hq, List.append_nil]) hacc hran hhalf

/-- Nothing is added to the stream. -/
theorem output_same (hran : w'.ran = w.ran) (hout : w'.conn.output = w.conn.output) :
    ∃ new, w'.ran = w.ran ++ new ∧ w'.conn.output = w.conn.output ++ (new.map Prod.snd).flatten :=
  ⟨[], by rw [hran, List.append_nil], by simpa using hout⟩

theorem Moves.refl (hwf : w.conn.outputBuffer.WF) : Moves w w noFault :=
  ⟨.same rfl rfl rfl rfl, rfl, .inl, hwf, fun _ _ => output_same rfl rfl, Nat.le_refl _⟩

theorem sendInLoop_eq (hwf : w.conn.outputBuffer.WF) {sender : Nat} {m : List UInt8}
    (h : w.sendInLoop sender m r = some w') : ∃ c' fs, Keeps w.conn c' ∧ (∀ f ∈ fs, Mute f) ∧ c'.outputBuffer.WF ∧
      (w.conn.state ≠ .kDisconnected → r ≠ .fault → r.Legal m.length → c'.output = w.conn.output ++ m) ∧
      w' = { w.finish (c', fs) with ran := w.ran ++ [(sender, m)] } := by
  obtain ⟨c', fs, hc', hk, hfs, hwf', hsent⟩ := sendInLoop_spec hwf m r
  simp only [World.sendInLoop, hc', Option.bind_eq_bind, Option.bind_some] at h
  cases h
  exact ⟨c', fs, hk, fun f hf => mute_notice (hfs f hf), hwf', fun hup hr hl => (hsent hup hr hl).1, rfl⟩

theorem moves_send (hwf : w.conn.outputBuffer.WF) {t : Nat} {m : List UInt8} (hl : (Event.send t m r).Legal w)
    (h : w.send t m r = some w') : Moves w w' (r ≠ .fault) := by
  simp only [World.send] at h
  split at h
  · split at h
    · rename_i hloop
      have ht : t = w.threadId := hloop
      subst ht
      obtain ⟨c', fs, hk, hfs, hwf', hsent, rfl⟩ :=
        sendInLoop_eq (w := { w with accepted := w.accepted ++ [(w.threadId, m)] }) hwf h
      refine ⟨.send m fs hfs (TaskQueue.all_pushAll _ _) rfl rfl rfl, rfl, fun hd => .inl (hk.state.trans hd), hwf', ?_,
        Nat.le_refl _⟩
      exact fun hr hup => ⟨[(w.threadId, m)], rfl, (hsent hup hr hl.2).trans (by simp)⟩
    · rename_i hother
      cases h
      exact ⟨.begin t (.sendInLoop t m) hl.1 hother (by simp [sends]) (by simp) rfl rfl rfl rfl, rfl, .inl, hwf,
        fun _ _ => output_same rfl rfl, Nat.le_refl _⟩
  · cases h
    exact .refl hwf

theorem moves_shutdown (hwf : w.conn.outputBuffer.WF) {t : Nat} (hl : (Event.shutdown t).Legal w) :
    Moves w (w.shutdown t) noFault := by
  simp only [World.shutdown]
  split
  · rename_i hconn
    have hup : w.conn.state ≠ .kDisconnecting := by
      rw [hconn]
      decide
    split
    · obtain ⟨-, hbuf, hwire⟩ := shutdownInLoop_keeps { w.conn with state := .kDisconnecting }
      refine ⟨.same rfl rfl rfl rfl, rfl, fun hd => absurd hd hup, ?_, fun _ _ => output_same rfl ?_, Nat.le_refl _⟩
      · rw [hbuf]
        exact hwf
      · rw [shutdownInLoop_output]
        rfl
    · rename_i hother
      refine ⟨.begin t .shutdownInLoop hl hother (by simp [sends]) (fun _ => rfl) rfl ?_ rfl rfl, rfl,
        fun hd => absurd hd hup, hwf, fun _ _ => output_same rfl rfl, Nat.le_refl _⟩
      exact (List.append_nil _).symm
  · exact .refl hwf

theorem moves_forceClose (hwf : w.conn.outputBuffer.WF) {t : Nat} (hl : (Event.forceClose t).Legal w) :
    Moves w (w.forceClose t) noFault := by
  simp only [World.forceClose]
  split
  · split
    · refine ⟨.keep [.forceCloseInLoop] ?_ (TaskQueue.all_push _ _) rfl rfl rfl, rfl, fun _ => .inl rfl, hwf,
        fun _ _ => output_same rfl rfl, Nat.le_refl _⟩
      intro f hf
      rw [List.mem_singleton.1 hf]
      exact ⟨rfl, by simp⟩
    · rename_i hother
      refine ⟨.begin t .forceCloseInLoop hl hother (by simp [sends]) (by simp) rfl ?_ rfl rfl, rfl, fun _ => .inl rfl, hwf,
        fun _ _ => output_same rfl rfl, Nat.le_refl _⟩
      exact (List.append_nil _).symm
  · exact .refl hwf

/-- What a callback of the channel does: it queues functors that neither send nor shut down, and sends nothing. -/
structure Queues (w w' : World) : Prop where
  queue : ∃ fs, (∀ f ∈ fs, Mute f) ∧ w'.queue = w.queue.pushAll fs
  accepted : w'.accepted = w.accepted
  ran : w'.ran = w.ran
  half : w'.half = w.half
  threadId : w'.threadId = w.threadId
  state : w'.conn.state = w.conn.state
  wf : w'.conn.outputBuffer.WF
  output : w'.conn.output = w.conn.output
  closeCalls : w.closeCalls ≤ w'.closeCalls

theorem Queues.refl (hwf : w.conn.outputBuffer.WF) : Queues w w :=
  ⟨⟨[], by simp, by simp [TaskQueue.pushAll]⟩, rfl, rfl, rfl, rfl, rfl, hwf, rfl, Nat.le_refl _⟩

/-- `handleClose` only queues the destruction. -/
theorem handleClose_queues (hwf : w.conn.outputBuffer.WF) (h : w.handleClose = some w') : Queues w w' := by
  obtain ⟨_, ⟨_, _, rfl⟩ | ⟨_, rfl⟩⟩ := handleClose_eq h
  · refine ⟨⟨[.connectDestroyed], fun f hf => ?_, rfl⟩, rfl, rfl, rfl, rfl, rfl, hwf, rfl, Nat.le_succ _⟩
    rw [List.mem_singleton.1 hf]
    exact ⟨rfl, by simp⟩
  · exact ⟨⟨[], by simp, by simp [TaskQueue.pushAll]⟩, rfl, rfl, rfl, rfl, rfl, hwf, rfl, Nat.le_succ _⟩

theorem callback_queues (hwf : w.conn.outputBuffer.WF) {n : Int} {k : Callback}
    (hlegal : r.Legal w.conn.outputBuffer.readableBytes) (h : w.callback n r k = some w') : Queues w w' := by
  cases k with
  | close => exact handleClose_queues hwf h
  | error =>
    cases h
    exact .refl hwf
  | read =>
    simp only [World.callback, handleRead] at h
    split at h
    · exact handleClose_queues hwf h
    · cases h
      exact .refl hwf
  | write =>
    obtain ⟨c', fs, hc', hk, hfs, hwf', hout, _⟩ := handleWrite_spec hwf hlegal
    simp only [World.callback, hc', Option.map_some] at h
    cases h
    exact ⟨⟨fs, fun f hf => mute_notice (hfs f hf), rfl⟩, rfl, rfl, rfl, rfl, hk.state, hwf', hout, Nat.le_refl _⟩

/-- `shutdownInLoop` leaves buffer and queue alone. -/
theorem shutdownInLoop_queues (hwf : w.conn.outputBuffer.WF) : Queues w { w with conn := w.conn.shutdownInLoop } := by
  obtain ⟨hk, hbuf, -⟩ := shutdownInLoop_keeps w.conn
  exact { Queues.refl hwf with
    state := hk.state
    wf := by rw [hbuf]; exact hwf
    output := shutdownInLoop_output w.conn }

theorem Queues.moves {todo : List Callback} (hq : Queues { w with todo := todo } w') : Moves w w' noFault := by
  obtain ⟨fs, hfs, hqueue⟩ := hq.queue
  exact ⟨.keep fs hfs (by rw [hqueue, TaskQueue.all_pushAll]) hq.accepted hq.ran hq.half, hq.threadId,
    fun hd => .inl (hq.state.trans hd), hq.wf, fun _ _ => output_same hq.ran hq.output, hq.closeCalls⟩

section
variable {f : LoopFunctor} {batch : List LoopFunctor}

/-- The functor that runs is off the queue; what it queues comes behind the rest. -/
theorem Flow.popped (hb : w.queue.batch = f :: batch) (fs : List LoopFunctor) (hfs : ∀ f ∈ fs, Mute f)
    (hq : w'.queue = ({ w.queue with batch := batch } : TaskQueue LoopFunctor).pushAll fs)
    (hacc : w'.accepted = w.accepted) (hran : w'.ran = w.ran ++ sends f) (hhalf : w'.half = w.half) : Flow w w' :=
  .run f _ fs hfs (TaskQueue.all_of_batch hb) (by rw [hq, TaskQueue.all_pushAll]) hacc hran hhalf

/-- A functor that sends nothing and queues nothing. -/
theorem Flow.popped_mute (hb : w.queue.batch = f :: batch) (hf : sends f = []) (hq : w'.queue = { w.queue with batch := batch })
    (hacc : w'.accepted = w.accepted) (hran : w'.ran = w.ran) (hhalf : w'.half = w.half) : Flow w w' := by
  refine .popped hb [] (by simp) ?_ hacc ?_ hhalf
  · rw [hq]
    simp [TaskQueue.pushAll]
  · rw [hran, hf, List.append_nil]

/-- A functor that sends nothing and otherwise does what a callback of the channel may do. -/
theorem Queues.moves_popped (hb : w.queue.batch = f :: batch) (hf : sends f = [])
    (hq : Queues { w with queue := { w.queue with batch := batch } } w') : Moves w w' noFault := by
  obtain ⟨fs, hfs, hqueue⟩ := hq.queue
  refine ⟨.popped hb fs hfs hqueue hq.accepted ?_ hq.half, hq.threadId, fun hd => .inl (hq.state.trans hd), hq.wf,
    fun _ _ => output_same hq.ran hq.output, hq.closeCalls⟩
  rw [hq.ran, hf, List.append_nil]

/-- A functor that has run is off the queue, and has sent its message if it has one. -/
theorem moves_functor (hwf : w.conn.outputBuffer.WF) (hb : w.queue.batch = f :: batch) (hlegal : r.Legal f.message.length)
    (h : ({ w with queue := { w.queue with batch := batch } } : World).call r f = some w') :
    Moves w w' (r ≠ .fault) := by
  cases f with
  | connectEstablished =>
    obtain ⟨hstate, rfl⟩ := connectEstablished_eq h
    exact ⟨.popped_mute hb rfl rfl rfl rfl rfl, rfl, fun hd => absurd (hstate.symm.trans hd) (by decide), hwf,
      fun _ _ => output_same rfl rfl, Nat.le_refl _⟩
  | connectDestroyed =>
    obtain ⟨_, conn, hconn, rfl⟩ := connectDestroyed_eq h
    obtain rfl := removeChannel_eq hconn
    exact ⟨.popped_mute hb rfl rfl rfl rfl rfl, rfl, fun _ => .inr rfl, hwf, fun _ _ => output_same rfl rfl, Nat.le_refl _⟩
  | forceCloseInLoop =>
    simp only [World.call, World.forceCloseInLoop] at h
    split at h
    · exact (handleClose_queues (by exact hwf) h).moves_popped hb rfl
    · cases h
      exact (Queues.refl (by exact hwf)).moves_popped hb rfl
  | sendInLoop s m =>
    obtain ⟨c', fs, hk, hfs, hwf', hsent, rfl⟩ :=
      sendInLoop_eq (w := { w with queue := { w.queue with batch := batch } }) hwf h
    refine ⟨.popped hb fs hfs rfl rfl rfl rfl, rfl, fun hd => .inl (hk.state.trans hd), hwf', fun hr hup => ?_, Nat.le_refl _⟩
    exact ⟨[(s, m)], rfl, (hsent hup hr hlegal).trans (by simp)⟩
  | shutdownInLoop =>
    cases h
    exact (shutdownInLoop_queues (by exact hwf)).moves_popped hb rfl
  | _ =>
    cases h
    exact (Queues.refl (by exact hwf)).moves_popped hb rfl

end

/-- **One event**, whatever it is. -/
theorem step_moves (hwf : w.conn.outputBuffer.WF) (hl : e.Legal w) (h : w.step e = some w') : Moves w w' e.NoFault := by
  cases e with
  | send t m r => exact moves_send hwf hl h
  | shutdown t =>
    cases h
    exact moves_shutdown hwf hl
  | forceClose t =>
    cases h
    exact moves_forceClose hwf hl
  | push t =>
    obtain ⟨f, hf⟩ := Option.ne_none_iff_exists'.1 hl
    simp only [step, hf] at h
    cases h
    exact ⟨.push t f hf (TaskQueue.all_push _ _) rfl rfl rfl, rfl, .inl, hwf, fun _ _ => output_same rfl rfl, Nat.le_refl _⟩
  | poll revents =>
    cases h
    exact ⟨.same rfl rfl rfl rfl, rfl, .inl, hwf, fun _ _ => output_same rfl rfl, Nat.le_refl _⟩
  | callback n r =>
    obtain ⟨k, todo, htodo⟩ := List.exists_cons_of_ne_nil hl.1
    simp only [step, htodo] at h
    exact (callback_queues (w := { w with todo := todo }) hwf hl.2 h).moves
  | swap =>
    cases h
    exact ⟨.same (TaskQueue.all_swap hl.2) rfl rfl rfl, rfl, .inl, hwf, fun _ _ => output_same rfl rfl, Nat.le_refl _⟩
  | functor r =>
    obtain ⟨f, batch, hb⟩ := List.exists_cons_of_ne_nil hl.2.1
    have hlegal : r.Legal f.message.length := hl.2.2 f (by rw [hb]; rfl)
    simp only [step, hb] at h
    exact moves_functor hwf hb hlegal h
  | remove =>
    obtain ⟨_, rfl⟩ := removeConnectionInLoop_eq h
    refine ⟨.keep [.connectDestroyed] (fun f hf => ?_) (TaskQueue.all_push _ _) rfl rfl rfl, rfl, .inl, hwf,
      fun _ _ => output_same rfl rfl, Nat.le_refl _⟩
    rw [List.mem_singleton.1 hf]
    exact ⟨rfl, by simp⟩

def Order (w : World) : Prop := Ordered w.accepted w.ran w.queue.all w.half w.threadId

/-- Every event keeps the senders in order. -/
theorem Order.moves (h : Order w) (hm : Moves w w' noFault) : Order w' := by
  unfold Order at h ⊢
  rw [hm.threadId]
  cases hm.flow with
  | keep fs hfs hq hacc hran hhalf =>
    rw [hq, hacc, hran, hhalf]
    exact h.append fun f hf => (hfs f hf).1
  | send m fs hfs hq hacc hran hhalf =>
    rw [hq, hacc, hran, hhalf]
    exact (h.send m).append fun f hf => (hfs f hf).1
  | begin t f hfree ht hown _ hq hacc hran hhalf =>
    rw [hq, hacc, hran, hhalf]
    exact h.begin hfree ht hown
  | push t f hf hq hacc hran hhalf =>
    rw [hq, hacc, hran, hhalf]
    exact h.push hf
  | run f rest fs hfs hall hq hacc hran hhalf =>
    rw [hall] at h
    rw [hq, hacc, hran, hhalf]
    exact h.run.append fun f hf => (hfs f hf).1

/-- Nothing that was accepted is forgotten. -/
theorem Flow.accepted (h : Flow w w') : ∃ sent, w'.accepted = w.accepted ++ sent := by
  cases h with
  | keep fs _ _ hacc _ _ => exact ⟨[], by rw [hacc, List.append_nil]⟩
  | send m fs _ _ hacc _ _ => exact ⟨_, hacc⟩
  | begin t f _ _ _ _ _ hacc _ _ => exact ⟨_, hacc⟩
  | push t f _ _ hacc _ _ => exact ⟨[], by rw [hacc, List.append_nil]⟩
  | run f rest fs _ _ _ hacc _ _ => exact ⟨[], by rw [hacc, List.append_nil]⟩

theorem send_accepted {t : Nat} {m : List UInt8} (hstate : w.conn.state = .kConnected)
    (h : w.send t m r = some w') : w'.accepted = w.accepted ++ [(t, m)] := by
  simp only [World.send, if_pos hstate] at h
  split at h
  · obtain ⟨res, _, h⟩ := Option.bind_eq_some_iff.1 h
    cases h
    rfl
  · cases h
    rfl

/-! ## Runs -/

/-- The invariant of the stream, as long as `handleClose` has not run. -/
structure Stream (w : World) : Prop where
  alive : Alive w
  order : Order w
  bytes : Bytes w.conn (w.ran.map Prod.snd)

theorem Alive.not_down (h : Alive w) : w.conn.state ≠ .kDisconnected := by
  rcases h.phase with hc | hu
  · rw [hc.state]; decide
  · rcases hu.isOpen with hs | hs <;> rw [hs] <;> decide

theorem handleClose_closeCalls (h : w.handleClose = some w') : w'.closeCalls = w.closeCalls + 1 := by
  obtain ⟨_, ⟨_, _, rfl⟩ | ⟨_, rfl⟩⟩ := handleClose_eq h <;> rfl

/-- Before `connectEstablished`, and that functor itself. -/
theorem Stream.connecting (h : Stream w) (hcon : Connecting w) (hl : e.Legal w) (hw' : w.step e = some w') : Stream w' := by
  have horder := h.order.moves (step_moves h.alive.wf hl hw')
  obtain ⟨halive, -, hbytes⟩ := h
  rcases hcon.step hl with ⟨w1, hw1, heq, hcon'⟩ | rfl | ⟨r, batch, rfl, hb⟩
  · cases hw'.symm.trans hw1
    rcases heq with rfl | rfl
    · exact ⟨halive, horder, hbytes⟩
    · exact ⟨{ halive with phase := Or.inl hcon' }, horder, hbytes⟩
  · exact absurd hl (by simp [Event.Legal, halive.removals])
  · obtain ⟨w1, hw1, hup', _, heq⟩ := hcon.established hb
    simp only [World.step, hb, World.call, hw1] at hw'
    cases hw'
    subst heq
    refine ⟨{ halive with phase := Or.inr hup' }, horder, hbytes.wf, hbytes.bytes, ?_⟩
    rw [enableReading_isWriting]
    exact hbytes.writing

/-- One event, after which `handleClose` still has not run. -/
theorem Stream.step (h : Stream w) (hl : e.Legal w) (hnf : e.NoFault) (hw' : w.step e = some w')
    (hopen : w'.closeCalls = 0) : Stream w' := by
  rcases h.alive.phase with hcon | hup
  · exact h.connecting hcon hl hw'
  have horder := h.order.moves (step_moves h.alive.wf hl hw')
  by_cases hc : w.Calm e
  · obtain ⟨w1, hw1, hq, hb⟩ := step_calm h.alive.wf hl hc
    cases hw'.symm.trans hw1
    exact ⟨h.alive.quiet hq (Or.inr (hup.quiet hq)), horder, hb h.bytes h.alive.not_down hnf⟩
  -- an event that is not calm runs handleClose, or leads to it later
  have hnot : ∀ w : World, w.handleClose ≠ some w' := by
    intro w hclose
    rw [handleClose_closeCalls hclose] at hopen
    cases hopen
  cases e with
  | forceClose t =>
    cases hw'
    obtain ⟨halive, _, hran, hb⟩ := h.alive.forceClose hup t
    exact ⟨halive, horder, hran ▸ hb h.bytes⟩
  | push t =>
    obtain ⟨f, hf, hsp⟩ := not_calm_push hl hc
    obtain rfl := h.alive.half t f hf hsp
    simp only [World.step, hf] at hw'
    cases hw'
    exact ⟨h.alive.push hup t, horder, h.bytes⟩
  | callback n r =>
    obtain ⟨k, todo, -, -, hstep⟩ := not_calm_callback hl hc
    exact absurd (hstep.symm.trans hw') (hnot _)
  | functor r =>
    obtain ⟨f, batch, hb, hsp⟩ := not_calm_functor hl hc
    obtain rfl := hup.functor_eq hb hsp
    exact absurd ((step_forceCloseInLoop hb hup.isOpen).symm.trans hw') (hnot _)
  | remove => exact absurd hl (by simp [Event.Legal, h.alive.removals])
  | _ => exact absurd trivial hc

theorem Stream.new {sameLoop writeComplete highWater : Bool} {threadId mark : Nat}
    (h : newConnection sameLoop threadId writeComplete highWater mark = some w) : Stream w := by
  obtain ⟨halive, hacc, hran, hbatch, hhalf, hbytes⟩ := Alive.new h
  have hqueued : w.queue.all.flatMap sends = [] := by
    rcases halive.phase with hcon | hup
    · rw [hcon.all]
      rfl
    · cases sameLoop with
      | true => cases h; rfl
      | false => cases h; rfl
  refine ⟨halive, ⟨fun t => ?_, fun {t f} hf => ?_, ?_, hhalf _⟩, by rw [hran]; exact hbytes⟩
  · rw [hacc, hran, hqueued, hhalf]
    rfl
  · rw [hhalf] at hf
    cases hf
  · rw [hqueued]
    simp

/-- The buffer and the queue are in order in every state of a connection. -/
theorem legal_run {es : List Event} (h : Run step (fun w e => e.Legal w) w es w')
    (hwf : w.conn.outputBuffer.WF) (hord : w.Order) : w'.conn.outputBuffer.WF ∧ w'.Order := by
  refine h.invariant (fun w => w.conn.outputBuffer.WF ∧ w.Order) ?_ ⟨hwf, hord⟩
  rintro w e w' ⟨hwf, hord⟩ hl hw'
  have hm := step_moves hwf hl hw'
  exact ⟨hm.wf, hord.moves hm⟩

/-- **The output stream.** Whatever threads send, in every state of a run before `handleClose` and without a fault of the
socket: the bytes the kernel got and the buffer are the messages whose `sendInLoop` has run, one after the
other; each thread's messages run in the order in which it sent them, the others being queued in
that order; the channel waits to write exactly while the buffer is not empty; and nothing that can
happen fails an assert. -/
theorem output_stream {sameLoop writeComplete highWater : Bool} {threadId mark : Nat} {w0 : World} {es : List Event}
    (hnew : newConnection sameLoop threadId writeComplete highWater mark = some w0)
    (hrun : Run step (fun w e => e.Legal w ∧ e.NoFault) w0 es w) (hopen : w.closeCalls = 0) :
    w.conn.wire ++ w.conn.outputBuffer.content = (w.ran.map Prod.snd).flatten ∧
    (∀ t, own t w.accepted = own t w.ran ++ own t (w.queue.all.flatMap sends) ++ (w.half t).toList.flatMap sends) ∧
    (w.conn.isWriting = true ↔ w.conn.outputBuffer.content ≠ []) ∧
    (∀ e : Event, e.Legal w → ∃ w', w.step e = some w') := by
  have hstart := Stream.new hnew
  have hstream : w.conn.outputBuffer.WF ∧ (w.closeCalls = 0 → Stream w) := by
    refine hrun.invariant (fun w => w.conn.outputBuffer.WF ∧ (w.closeCalls = 0 → Stream w)) ?_
      ⟨hstart.alive.wf, fun _ => hstart⟩
    rintro w e w' ⟨hwf, hw⟩ ⟨hl, hnf⟩ hstep
    have hm := step_moves hwf hl hstep
    refine ⟨hm.wf, fun hopen' => (hw ?_).step hl hnf hstep hopen'⟩
    exact Nat.le_zero.1 (hopen' ▸ hm.closeCalls)
  obtain ⟨halive, horder, hbytes⟩ := hstream.2 hopen
  exact ⟨hbytes.bytes, horder.order, hbytes.writing, fun e hl => halive.total hl⟩

/-- The loop's thread writes one byte of two, a functor of thread 1 is buffered behind the other, and
`handleWrite` gets rid of two more bytes. -/
theorem output_stream_two : ∃ w0 w, newConnection true 0 false false 0 = some w0 ∧
    Run step (fun w e => e.Legal w ∧ e.NoFault) w0
      [.send 1 [1, 2, 3] .error, .send 0 [7, 8] (.wrote 1), .push 1, .swap, .functor .wouldBlock, .poll 4,
        .callback 1 (.wrote 2)] w ∧
    w.ran = [(0, [7, 8]), (1, [1, 2, 3])] ∧ w.conn.wire = [7, 8, 1] ∧
    w.conn.wire ++ w.conn.outputBuffer.content = (w.ran.map Prod.snd).flatten := by
  have hrun : Run step (fun w e => e.Legal w ∧ e.NoFault) ((newConnection true 0 false false 0).get rfl)
      [.send 1 [1, 2, 3] .error, .send 0 [7, 8] (.wrote 1), .push 1, .swap, .functor .wouldBlock, .poll 4,
        .callback 1 (.wrote 2)] _ := Run.of_exec _ _ (by decide +kernel)
  have hnew : newConnection true 0 false false 0 = some ((newConnection true 0 false false 0).get rfl) := rfl
  exact ⟨_, _, hnew, hrun, by decide +kernel, by decide +kernel, (output_stream hnew hrun (by decide +kernel)).1⟩

end

end World
end ChatReactor
