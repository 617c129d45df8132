import ChatReactor.EventLoop

/-!
# No lost wakeup, no lost functor

`Awake` is the invariant of the wakeup protocol: wherever the loop will not swap `pendingFunctors_` before it polls
again, a functor that waits there has the eventfd readable or a thread about to write it. The window in which a
push needs no write, from the return of `poll` to the swap, is where `callingPendingFunctors_` may still be false.

The order of the functors needs less: a step appends to `ran ++ batch ++ pending` what it pushes.
-/

namespace ChatReactor
namespace EventLoop
variable {F : Type} {q q' : EventLoop F}

/-! ## Single steps -/

theorem write_pos (counter : Nat) : 0 < write counter := by
  unfold write
  split
  · exact Nat.succ_pos counter
  · have : 0 < eventfdMax := by decide
    omega

/-! ## The wakeup protocol -/

/-- The phases in which the loop's thread comes to `poll` before it comes to a swap. -/
def pollsNext : Phase → Bool
  | .outside | .polling | .running => true
  | .handling _ | .entering => false

/-- A thread is in `queueInLoop`, about to write the eventfd. -/
def WillWrite (q : EventLoop F) (t : Nat) : Prop :=
  q.thread t = .pushed ∧ (t ≠ q.threadId ∨ q.callingPendingFunctors = true)

def Covered (q : EventLoop F) : Prop := 0 < q.counter ∨ ∃ t, q.WillWrite t

structure Awake (q : EventLoop F) : Prop where
  covered : pollsNext q.phase = true → q.queue.pending ≠ [] → q.Covered
  /-- Outside of handlers and functors the loop's thread is not in `queueInLoop`. -/
  loopThread : q.phase = .outside ∨ q.phase = .polling ∨ q.phase = .entering → q.thread q.threadId ≠ .pushed
  calling : q.phase = .entering ∨ q.phase = .running → q.callingPendingFunctors = true

/-- `queueInLoop` is called in the loop's thread by handlers and functors only. -/
def Event.FromCallbacks (q : EventLoop F) : Event F → Prop
  | .queueInLoop t _ => t = q.threadId → q.phase ≠ .outside
  | _ => True

theorem awake_init (threadId : Nat) (calling : Bool) : (init threadId calling : EventLoop F).Awake where
  covered _ h := absurd rfl h
  loopThread _ h := nomatch h
  calling h := by rcases h with h | h <;> cases h

theorem WillWrite.setThread {t u : Nat} {a : At} (h : q.WillWrite u) (hne : u ≠ t) : (q.setThread t a).WillWrite u := by
  refine ⟨?_, h.2⟩
  change Function.update q.thread t a u = .pushed
  rw [Function.update_of_ne hne]
  exact h.1

/-- A call by a thread that is not in `queueInLoop` takes no writer away. -/
theorem Covered.setThread {t : Nat} {a : At} (h : q.Covered) (ht : q.thread t ≠ .pushed) : (q.setThread t a).Covered := by
  rcases h with h | ⟨u, hu⟩
  · exact .inl h
  · refine .inr ⟨u, hu.setThread ?_⟩
    rintro rfl
    exact ht hu.1

/-- Leaving `queueInLoop` or `quit`: the eventfd stays readable, and is so if it was to be written. -/
theorem leave_eq (q : EventLoop F) (t : Nat) : ∃ counter, q.leave t = { q.setThread t .idle with counter := counter } ∧
    (0 < q.counter ∨ q.WillWrite t → 0 < counter) := by
  have keep (hw : ¬q.WillWrite t) : 0 < q.counter ∨ q.WillWrite t → 0 < q.counter := fun h => h.resolve_right hw
  unfold leave WillWrite at *
  split
  · rename_i ht
    exact ⟨q.counter, rfl, keep fun hw => nomatch ht.symm.trans hw.1⟩
  · split
    · exact ⟨_, rfl, fun _ => write_pos _⟩
    · rename_i hw
      exact ⟨q.counter, rfl, keep fun h => hw h.2⟩
  · rename_i ht
    split
    · exact ⟨_, rfl, fun _ => write_pos _⟩
    · exact ⟨q.counter, rfl, keep fun hw => nomatch ht.symm.trans hw.1⟩

theorem ne_pushed_of_idle {a : At} (h : a = .idle) : a ≠ .pushed := by
  rw [h]
  nofun

theorem notPushed_update {t u : Nat} {a : At} {thread : Nat → At} (h : thread u ≠ .pushed) (ha : a ≠ .pushed) :
    Function.update thread t a u ≠ .pushed := by
  by_cases ht : u = t
  · rw [ht, Function.update_self]
    exact ha
  · rw [Function.update_of_ne ht]
    exact h

/-- The push itself: where it needs a writer, its own thread is one. -/
theorem Awake.push {t : Nat} {cb : F} (h : q.Awake) (huser : t = q.threadId → userCode q.phase = true)
    (hcb : t = q.threadId → q.phase ≠ .outside) : (q.queueInLoop t cb).Awake where
  covered hph _ := by
    refine .inr ⟨t, Function.update_self .., ?_⟩
    by_cases ht : t = q.threadId
    · right
      refine h.calling (.inr ?_)
      have hout := hcb ht
      have hin := huser ht
      change pollsNext q.phase = true at hph
      cases hp : q.phase <;> simp_all [userCode, pollsNext]
    · exact .inl ht
  loopThread hph := by
    have hne : q.threadId ≠ t := by
      intro ht
      have hout := hcb ht.symm
      have hin := huser ht.symm
      rcases hph with hp | hp | hp <;> replace hp : q.phase = _ := hp <;> simp_all [userCode]
    change Function.update q.thread t _ q.threadId ≠ _
    rw [Function.update_of_ne hne]
    exact h.loopThread hph
  calling := h.calling

/-- A thread enters `quit`. -/
theorem Awake.quit {t : Nat} (h : q.Awake) (ht : q.thread t = .idle) :
    (({ q with quit_ := true }).setThread t .quitting).Awake where
  covered hph hp := (h.covered hph hp).setThread (ne_pushed_of_idle ht)
  loopThread hph := notPushed_update (h.loopThread hph) nofun
  calling := h.calling

theorem Awake.leave (h : q.Awake) (t : Nat) : (q.leave t).Awake := by
  obtain ⟨counter, he, hpos⟩ := leave_eq q t
  rw [he]
  refine ⟨fun hph hp => ?_, fun hph => notPushed_update (h.loopThread hph) nofun, h.calling⟩
  rcases h.covered hph hp with hc | ⟨u, hu⟩
  · exact .inl (hpos (.inl hc))
  · by_cases hne : u = t
    · exact .inl (hpos (.inr (hne ▸ hu)))
    · exact .inr ⟨u, hu.setThread hne⟩

/-- The loop's thread goes on to a phase from which it comes to the swap first. -/
theorem Awake.toSwap (ph : Phase) (h : q'.phase = ph) (hph : pollsNext ph = false)
    (hloop : ph = .entering → q'.thread q'.threadId ≠ .pushed ∧ q'.callingPendingFunctors = true) : q'.Awake := by
  subst h
  refine ⟨fun hp => ?_, fun hp => ?_, fun hp => ?_⟩
  · rw [hph] at hp
    cases hp
  · rcases hp with hp | hp | hp
    · rw [hp] at hph
      cases hph
    · rw [hp] at hph
      cases hph
    · exact (hloop hp).1
  · rcases hp with hp | hp
    · exact (hloop hp).2
    · rw [hp] at hph
      cases hph

theorem Awake.finish (h : q.Awake) (hph : q.phase = .running) (ht : q.thread q.threadId = .idle) :
    Awake { q with
      callingPendingFunctors := false, phase := if q.quit_ = true then .outside else .polling } where
  covered _ hp := by
    rcases h.covered (by rw [hph]; rfl) hp with hc | ⟨t, hpushed, _⟩
    · exact .inl hc
    · refine .inr ⟨t, hpushed, .inl ?_⟩
      -- what is left of the batch's pushes is in other threads: the loop's own is idle
      rintro rfl
      exact ne_pushed_of_idle ht hpushed
  loopThread _ := ne_pushed_of_idle ht
  calling h := by
    change (if q.quit_ = true then Phase.outside else .polling) = _ ∨ (if q.quit_ = true then _ else _) = _ at h
    split at h <;> rcases h with h | h <;> cases h

theorem Awake.step {e : Event F} (h : q.Awake) (hok : e.Legal q ∧ e.FromCallbacks q) (hs : q.step e = some q') :
    q'.Awake := by
  obtain ⟨hlegal, hcb⟩ := hok
  cases e with
  | queueInLoop t cb =>
    obtain rfl := Option.some.inj hs
    exact h.push hlegal.2 hcb
  | runInLoop t cb =>
    obtain rfl := Option.some.inj hs
    unfold runInLoop
    split
    · exact h
    · rename_i ht
      exact h.push hlegal.2 fun h => absurd h ht
  | quit t =>
    obtain rfl := Option.some.inj hs
    exact h.quit hlegal.1
  | leave t =>
    obtain rfl := Option.some.inj hs
    exact h.leave t
  | loop =>
    obtain rfl := Option.some.inj hs
    obtain ⟨hph, ht⟩ := hlegal
    refine ⟨fun _ hp => h.covered (by rw [hph]; rfl) hp, fun _ => ne_pushed_of_idle ht, ?_⟩
    rintro (h | h) <;> cases h
  | poll active =>
    obtain rfl := Option.some.inj hs
    exact Awake.toSwap (.handling active) rfl rfl nofun
  | handleEvent =>
    obtain ⟨⟨c, active, hph⟩, _⟩ := hlegal
    simp only [EventLoop.step, hph] at hs
    obtain rfl := Option.some.inj hs
    cases c with
    | wakeup => exact Awake.toSwap (.handling active) rfl rfl nofun
    | other => exact Awake.toSwap (.handling active) rfl rfl nofun
  | doPendingFunctors =>
    obtain rfl := Option.some.inj hs
    exact Awake.toSwap .entering rfl rfl fun _ => ⟨ne_pushed_of_idle hlegal.2, rfl⟩
  | swap =>
    obtain rfl := Option.some.inj hs
    refine ⟨fun _ hp => absurd rfl hp, ?_, fun _ => h.calling (.inl hlegal)⟩
    rintro (h | h | h) <;> cases h
  | functor =>
    simp only [EventLoop.step] at hs
    split at hs
    · obtain rfl := Option.some.inj hs
      exact ⟨h.covered, h.loopThread, h.calling⟩
    · cases hs
  | finish =>
    obtain rfl := Option.some.inj hs
    exact h.finish hlegal.1 hlegal.2.2

/-- A loop that is blocked in `poll` while functors wait will be woken: the eventfd is readable, or another thread is
between its push and its write. -/
theorem no_lost_wakeup {threadId : Nat} {calling : Bool} {es : List (Event F)}
    (hrun : Run step (fun q e => e.Legal q ∧ e.FromCallbacks q) (init threadId calling) es q)
    (hpoll : q.phase = .polling) (hpending : q.queue.pending ≠ []) :
    0 < q.counter ∨ ∃ t, t ≠ q.threadId ∧ q.thread t = .pushed := by
  have h : q.Awake := hrun.invariant Awake Awake.step (awake_init threadId calling)
  rcases h.covered (by rw [hpoll]; rfl) hpending with hc | ⟨t, hpushed, _⟩
  · exact .inl hc
  · refine .inr ⟨t, ?_, hpushed⟩
    rintro rfl
    exact h.loopThread (.inr (.inl hpoll)) hpushed

/-- The loop's thread 1 polls, thread 2 has pushed and not written. -/
theorem no_lost_wakeup_two_threads :
    ∃ q : EventLoop Nat, Run step (fun q e => e.Legal q ∧ e.FromCallbacks q) (init 1 true) [.loop, .queueInLoop 2 7] q ∧
      q.phase = .polling ∧ q.queue.pending = [7] ∧ (0 < q.counter ∨ ∃ t, t ≠ q.threadId ∧ q.thread t = .pushed) := by
  have hrun : Run step (fun q e => e.Legal q ∧ e.FromCallbacks q) (init 1 true) [.loop, .queueInLoop 2 7] _ :=
    .cons ⟨⟨rfl, rfl⟩, trivial⟩ rfl (.cons ⟨⟨rfl, nofun⟩, nofun⟩ rfl (.nil _))
  exact ⟨_, hrun, rfl, rfl, no_lost_wakeup hrun rfl nofun⟩

/-! ## The order of the functors -/

theorem step_threadId {e : Event F} (h : q.step e = some q') : q'.threadId = q.threadId := by
  cases e with
  | leave t =>
    obtain rfl := Option.some.inj h
    obtain ⟨counter, he, _⟩ := leave_eq q t
    rw [he]
    rfl
  | runInLoop t cb =>
    obtain rfl := Option.some.inj h
    unfold runInLoop
    split <;> rfl
  | handleEvent =>
    simp only [step] at h
    split at h
    · rename_i c active hph
      obtain rfl := Option.some.inj h
      cases c <;> rfl
    · cases h
  | functor =>
    simp only [step] at h
    split at h
    · obtain rfl := Option.some.inj h
      rfl
    · cases h
  | _ =>
    obtain rfl := Option.some.inj h
    rfl

/-- What a step does to the queue and to the record of what ran. -/
inductive Moves (q q' : EventLoop F) : List F → Prop
  | stay : q'.queue = q.queue → q'.ran = q.ran → Moves q q' []
  | push (cb : F) : q'.queue = q.queue.push cb → q'.ran = q.ran → Moves q q' [cb]
  | swap : q.phase = .entering → q'.phase = .running → q'.queue = q.queue.swap → q'.ran = q.ran → Moves q q' []
  | run (f : F) (batch : List F) : q.queue.batch = f :: batch → q'.queue = { q.queue with batch := batch } →
      q'.ran = q.ran ++ [f] → Moves q q' []

theorem step_moves {e : Event F} (hlegal : e.Legal q) (h : q.step e = some q') : q.Moves q' (pushes q.threadId [e]) := by
  cases e with
  | queueInLoop t cb =>
    obtain rfl := Option.some.inj h
    exact .push cb rfl rfl
  | runInLoop t cb =>
    obtain rfl := Option.some.inj h
    unfold runInLoop pushes
    split
    · exact .stay rfl rfl
    · exact .push cb rfl rfl
  | leave t =>
    obtain rfl := Option.some.inj h
    obtain ⟨counter, he, _⟩ := leave_eq q t
    rw [he]
    exact .stay rfl rfl
  | handleEvent =>
    simp only [step] at h
    split at h
    · rename_i c active hph
      obtain rfl := Option.some.inj h
      cases c <;> exact .stay rfl rfl
    · cases h
  | swap =>
    obtain rfl := Option.some.inj h
    exact .swap hlegal rfl rfl rfl
  | functor =>
    simp only [step] at h
    split at h
    · rename_i f batch hb
      obtain rfl := Option.some.inj h
      exact .run f batch hb rfl rfl
    · cases h
  | _ =>
    obtain rfl := Option.some.inj h
    exact .stay rfl rfl

/-- A step appends what it pushes to the sequence of what ran and what will run. -/
theorem Moves.order {new : List F} (h : q.Moves q' new) (hb : q.phase = .entering → q.queue.batch = []) :
    q'.ran ++ q'.queue.all = q.ran ++ q.queue.all ++ new := by
  cases h with
  | stay hq hr => rw [hq, hr, List.append_nil]
  | push cb hq hr => rw [hq, hr, TaskQueue.all_push, List.append_assoc]
  | swap hph _ hq hr => rw [hq, hr, TaskQueue.all_swap (hb hph), List.append_nil]
  | run f batch hf hq hr => rw [hq, hr, TaskQueue.all_of_batch hf, List.append_nil, List.append_assoc, List.singleton_append]

/-- While a batch runs, what it will have run is fixed, and what is pushed waits. -/
theorem Moves.inBatch {new : List F} (h : q.Moves q' new) (hph : q.phase = .running) :
    q'.ran ++ q'.queue.batch = q.ran ++ q.queue.batch ∧ q'.queue.pending = q.queue.pending ++ new := by
  cases h with
  | stay hq hr => simp [hq, hr]
  | push cb hq hr => simp [hq, hr, TaskQueue.push]
  | swap hph' => cases hph.symm.trans hph'
  | run f batch hf hq hr => simp [hq, hr, hf]

/-- Only the end of `doPendingFunctors` ends a batch. -/
theorem step_running {e : Event F} (hph : q.phase = .running) (hlegal : e.Legal q) (h : q.step e = some q') :
    q'.phase = .running ∨ e = .finish ∧ q.queue.batch = [] := by
  cases e with
  | runInLoop t cb =>
    obtain rfl := Option.some.inj h
    left
    unfold runInLoop
    split <;> exact hph
  | leave t =>
    obtain rfl := Option.some.inj h
    obtain ⟨counter, he, _⟩ := leave_eq q t
    rw [he]
    exact .inl hph
  | loop => cases hph.symm.trans hlegal.1
  | poll active => cases hph.symm.trans hlegal.1
  | handleEvent =>
    obtain ⟨⟨c, active, hph'⟩, _⟩ := hlegal
    cases hph.symm.trans hph'
  | doPendingFunctors => cases hph.symm.trans hlegal.1
  | swap => cases hph.symm.trans hlegal
  | functor =>
    simp only [step] at h
    split at h
    · obtain rfl := Option.some.inj h
      exact .inl hph
    · cases h
  | finish => exact .inr ⟨rfl, hlegal.2.1⟩
  | _ =>
    obtain rfl := Option.some.inj h
    exact .inl hph

/-- Between two batches nothing is left of one. -/
def Drained (q : EventLoop F) : Prop := q.phase ≠ .running → q.queue.batch = []

theorem Drained.step {e : Event F} (h : q.Drained) (hlegal : e.Legal q) (hs : q.step e = some q') : q'.Drained := by
  intro hph
  -- nothing is taken from or put into the batch unless the phase is, or becomes, `running`
  have hbatch : q.queue.batch = [] := by
    by_cases hr : q.phase = .running
    · exact ((step_running hr hlegal hs).resolve_left hph).2
    · exact h hr
  have hmoves := step_moves hlegal hs
  generalize pushes q.threadId [e] = new at hmoves
  cases hmoves with
  | stay hq => rw [hq, hbatch]
  | push cb hq => rw [hq, TaskQueue.push, hbatch]
  | swap _ hr => exact absurd hr hph
  | run f batch hf => cases hbatch.symm.trans hf

theorem pushes_cons (threadId : Nat) (e : Event F) (es : List (Event F)) :
    pushes threadId (e :: es) = pushes threadId [e] ++ pushes threadId es := by
  cases e with
  | runInLoop t cb =>
    simp only [pushes]
    split <;> rfl
  | _ => rfl

theorem Steps.order {es : List (Event F)} (h : Steps q es q') (hd : q.Drained) :
    q'.ran ++ q'.queue.all = q.ran ++ q.queue.all ++ pushes q.threadId es := by
  induction h with
  | nil => simp [pushes]
  | cons hlegal hs _ ih =>
    have hmoves := (step_moves hlegal hs).order fun hph => hd (by rw [hph]; nofun)
    rw [ih (hd.step hlegal hs), step_threadId hs, hmoves, List.append_assoc, ← pushes_cons]

theorem Steps.inBatch {es : List (Event F)} (h : Steps q es q') (hph : q.phase = .running) (hes : .finish ∉ es) :
    q'.ran ++ q'.queue.batch = q.ran ++ q.queue.batch ∧
      q'.queue.pending = q.queue.pending ++ pushes q.threadId es := by
  induction h with
  | nil => simp [pushes]
  | cons hlegal hs _ ih =>
    have hmoves := (step_moves hlegal hs).inBatch hph
    have hph' := (step_running hph hlegal hs).resolve_right fun he => hes (by simp [he.1])
    obtain ⟨hran, hpending⟩ := ih hph' fun he => hes (.tail _ he)
    rw [hran, hpending, step_threadId hs, hmoves.1, hmoves.2, List.append_assoc, ← pushes_cons]
    exact ⟨rfl, rfl⟩

/-- Every functor runs once, in the order of the pushes: at any moment those that ran, the rest of the batch and
`pendingFunctors_` are together what was pushed. From any moment of a batch to any later one of the same batch, what the
batch runs in all stays the same, and whatever is pushed is in `pendingFunctors_`. -/
theorem functors_in_order {threadId : Nat} {calling : Bool} {es : List (Event F)}
    (hrun : Steps (init threadId calling) es q) :
    q.ran ++ q.queue.batch ++ q.queue.pending = pushes threadId es ∧
      ∀ es' q', Steps q es' q' → q.phase = .running → .finish ∉ es' →
        q'.ran ++ q'.queue.batch = q.ran ++ q.queue.batch ∧
        q'.queue.pending = q.queue.pending ++ pushes q.threadId es' := by
  refine ⟨?_, fun es' q' h hph hes => h.inBatch hph hes⟩
  have h := hrun.order fun _ => rfl
  rw [List.append_assoc]
  exact h

/-- A functor that is run pushes another one. -/
theorem functors_in_order_requeue :
    ∃ q q' : EventLoop Nat,
      Steps (init 1 false) [.queueInLoop 2 7, .leave 2, .loop, .poll [.wakeup], .handleEvent, .doPendingFunctors, .swap] q ∧
      Steps q [.functor, .queueInLoop 1 8] q' ∧ q'.ran = [7] ∧ q'.queue.batch = [] ∧ q'.queue.pending = [8] ∧
      q'.ran ++ q'.queue.batch = q.ran ++ q.queue.batch := by
  let thread : Nat → At := Function.update (Function.update (fun _ => .idle) 2 .pushed) 2 .idle
  have hrun : Steps (init 1 false)
      [.queueInLoop 2 7, .leave 2, .loop, .poll [.wakeup], .handleEvent, .doPendingFunctors, .swap]
      ⟨.running, false, true, ⟨[7], []⟩, 0, 1, thread, []⟩ :=
    .cons ⟨rfl, nofun⟩ rfl <| .cons nofun rfl <| .cons ⟨rfl, rfl⟩ rfl <| .cons ⟨rfl, by decide⟩ rfl <|
    .cons ⟨⟨_, _, rfl⟩, rfl⟩ rfl <| .cons ⟨rfl, rfl⟩ rfl <| .cons rfl rfl (.nil _)
  have hrun' : Steps ⟨.running, false, true, ⟨[7], []⟩, 0, 1, thread, []⟩ [.functor, .queueInLoop 1 8] _ :=
    .cons ⟨rfl, nofun, rfl⟩ rfl <| .cons ⟨rfl, fun _ => rfl⟩ rfl (.nil _)
  exact ⟨_, _, hrun, hrun', rfl, rfl, rfl, ((functors_in_order hrun).2 _ _ hrun' rfl (by simp)).1⟩

end EventLoop
end ChatReactor
