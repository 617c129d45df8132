import ChatReactor.EventLoopProofs

/-!
# `EventLoopThread` (`EventLoopThread.cc`) and the first lines of `EventLoop::loop`

| here | there |
| --- | --- |
| `Owner` | where the thread that owns the object stands in `startLoop` |
| `Func` | where the new thread stands in `threadFunc` and in `loop` |
| `loop` | the `EventLoop` on the new thread's stack |
| `Event.enter` | `looping_ = true` |
| `.loop` | `quit_ = false`, and the loop behind it |
| `.quit`, `.leave` | the two halves of `quit()`: `quit_ = true`, and the rest up to the return |
| `called`, `returned` | the calls of `quit()` that have begun and those that have returned: a record, not part of the program |

`~EventLoopThread` calls `loop_->quit()` and joins the thread: its `quit()` is one of those of other threads.
`startLoop` returns as soon as the loop has been published, and `threadFunc` goes on to `loop()` after that, so that
the two writes of `quit_` come in either order.
-/

namespace ChatReactor

inductive Owner
  | created
  /-- The thread has been started; waiting for `loop_`. -/
  | waiting
  /-- `startLoop` has returned the loop. -/
  | started
deriving DecidableEq, Repr

inductive Func
  | unstarted
  /-- Before the constructor of the loop has returned. -/
  | constructing
  | constructed
  /-- `loop_` has been set and the condition notified. -/
  | published
  /-- In `loop()`, `looping_` has been set. -/
  | entered
  /-- `quit_` has been set to `false`. -/
  | looping
  /-- `loop()` has returned. -/
  | finished
deriving DecidableEq, Repr

structure EventLoopThread (F : Type) where
  owner : Owner
  func : Func
  loop : EventLoop F
  called : Nat
  returned : Nat

namespace EventLoopThread
variable {F : Type}

/-- The constructor. The thread that `startLoop` will start is `threadId`; `callingPendingFunctors_` and `quit_` are not
initialised by the constructor of the loop. -/
def init (threadId : Nat) (callingPendingFunctors quit : Bool) : EventLoopThread F where
  owner := .created
  func := .unstarted
  loop := { EventLoop.init threadId callingPendingFunctors with quit_ := quit }
  called := 0
  returned := 0

inductive Event (F : Type)
  | startLoop
  | construct
  | publish
  /-- `cond_.wait()` returns and `loop_` is there. -/
  | wake
  | enter
  /-- A step of the loop, or of a call on it in any thread. -/
  | loop (e : EventLoop.Event F)
  /-- `looping_ = false`, and `threadFunc` returns. -/
  | exit

/-- The calls of `quit()` that an event begins, and those it ends. -/
def tally (w : EventLoopThread F) : EventLoop.Event F → Nat × Nat
  | .quit _ => (1, 0)
  | .leave t => (0, if w.loop.thread t = .quitting then 1 else 0)
  | _ => (0, 0)

/-- A step of the loop, or of a call on it. -/
def afterLoop (w : EventLoopThread F) (e : EventLoop.Event F) (q' : EventLoop F) : EventLoopThread F :=
  { w with
    loop := q'
    func := match e with
      | .loop => .looping
      | _ => w.func
    called := w.called + (w.tally e).1
    returned := w.returned + (w.tally e).2 }

def step (w : EventLoopThread F) : Event F → Option (EventLoopThread F)
  | .startLoop => some { w with owner := .waiting, func := .constructing }
  | .construct => some { w with func := .constructed }
  | .publish => some { w with func := .published }
  | .wake => some { w with owner := .started }
  | .enter => some { w with func := .entered }
  | .loop e => (w.loop.step e).map (w.afterLoop e)
  | .exit => some { w with func := .finished }

/-- Other threads call the loop when `startLoop` has returned it and as long as it is there; its own thread makes calls
from `loop()`. -/
def MayCall (w : EventLoopThread F) (t : Nat) : Prop :=
  if t = w.loop.threadId then w.func = .looping else w.owner = .started ∧ w.func ≠ .finished

def MayStep (w : EventLoopThread F) : EventLoop.Event F → Prop
  | .loop => w.func = .entered
  | .queueInLoop t _ | .runInLoop t _ | .quit t => w.MayCall t
  | .leave _ => w.func ≠ .finished
  | .poll _ | .handleEvent | .doPendingFunctors | .swap | .functor | .finish => w.func = .looping

def Event.Legal (w : EventLoopThread F) : Event F → Prop
  | .startLoop => w.owner = .created
  | .construct => w.func = .constructing
  | .publish => w.func = .constructed
  | .wake => w.owner = .waiting ∧ w.func ∈ [.published, .entered, .looping, .finished]
  | .enter => w.func = .published
  | .loop e => e.Legal w.loop ∧ w.MayStep e
  | .exit => w.func = .looping ∧ w.loop.phase = .outside

abbrev Steps : EventLoopThread F → List (Event F) → EventLoopThread F → Prop := Run step fun w e => e.Legal w

/-- `loop()` is running. -/
def Running (w : EventLoopThread F) : Prop := w.func = .entered ∨ w.func = .looping

/-- A `quit()` has returned, and the loop that is running does not know of it. -/
def Lost (w : EventLoopThread F) : Prop := 0 < w.returned ∧ w.Running ∧ w.loop.quit_ = false

/-! ## What a step of the loop does to a call of `quit()` -/

/-- `queueInLoop` is not called in the middle of a `quit()`. -/
theorem quitting_queueInLoop {q : EventLoop F} {t : Nat} (ht : q.thread t = .idle) (cb : F) (t' : Nat) :
    (q.queueInLoop t cb).thread t' = .quitting ↔ q.thread t' = .quitting := by
  by_cases heq : t' = t
  · simp [EventLoop.queueInLoop, EventLoop.setThread, heq, ht]
  · simp [EventLoop.queueInLoop, EventLoop.setThread, heq]

variable {q' : EventLoop F} {e : EventLoop.Event F}

/-- A thread begins a `quit()`, ends one, or does something that has nothing to do with it. -/
theorem thread_step {q : EventLoop F} (hl : e.Legal q) (hq' : q.step e = some q') :
    (∃ t, e = .quit t ∧ q'.thread = Function.update q.thread t .quitting ∧ q'.quit_ = true) ∨
    (∃ t, e = .leave t ∧ q'.thread = Function.update q.thread t .idle ∧ q'.quit_ = q.quit_) ∨
    ((∀ t, e ≠ .quit t) ∧ (∀ t, e ≠ .leave t) ∧ (∀ t, q'.thread t = .quitting ↔ q.thread t = .quitting) ∧
      (e ≠ .loop → q'.quit_ = q.quit_)) := by
  cases e with
  | quit t =>
    cases hq'
    exact .inl ⟨t, rfl, rfl, rfl⟩
  | leave t =>
    cases hq'
    obtain ⟨counter, heq, -⟩ := q.leave_eq t
    rw [heq]
    exact .inr (.inl ⟨t, rfl, rfl, rfl⟩)
  | queueInLoop t cb =>
    cases hq'
    exact .inr (.inr ⟨by simp, by simp, quitting_queueInLoop hl.1 cb, fun _ => rfl⟩)
  | runInLoop t cb =>
    cases hq'
    refine .inr (.inr ⟨by simp, by simp, fun t' => ?_, fun _ => ?_⟩)
    · unfold EventLoop.runInLoop
      split
      · rfl
      · exact quitting_queueInLoop hl.1 cb t'
    · unfold EventLoop.runInLoop
      split <;> rfl
  | handleEvent =>
    obtain ⟨⟨c, active, hphase⟩, -⟩ := hl
    simp only [EventLoop.step, hphase, Option.some.injEq] at hq'
    subst hq'
    cases c <;> exact .inr (.inr ⟨by simp, by simp, fun _ => Iff.rfl, fun _ => rfl⟩)
  | functor =>
    cases hbatch : q.queue.batch with
    | nil => exact absurd hbatch hl.2.1
    | cons f batch =>
      simp only [EventLoop.step, hbatch, Option.some.injEq] at hq'
      subst hq'
      exact .inr (.inr ⟨by simp, by simp, fun _ => Iff.rfl, fun _ => rfl⟩)
  | loop =>
    cases hq'
    exact .inr (.inr ⟨by simp, by simp, fun _ => Iff.rfl, fun h => absurd rfl h⟩)
  | poll _ | doPendingFunctors | swap | finish =>
    cases hq'
    exact .inr (.inr ⟨by simp, by simp, fun _ => Iff.rfl, fun _ => rfl⟩)

/-! ## Reachable states -/

/-- `threadFunc` has not come to `quit_ = false`. -/
def Before (w : EventLoopThread F) : Prop := w.func ≠ .looping ∧ w.func ≠ .finished

/-- The loop is called by other threads only when it has been published, and by its own only in `loop()`. -/
structure Inv (w : EventLoopThread F) : Prop where
  created : w.owner = .created → w.func = .unstarted
  early : w.func ∈ [.unstarted, .constructing, .constructed] → w.called = 0 ∧ w.owner ≠ .started
  before : w.Before → w.loop.phase = .outside ∧ w.loop.thread w.loop.threadId = .idle

/-- A call that has begun has returned or is on its way. -/
structure Calls (w : EventLoopThread F) : Prop where
  quitting : ∀ t, w.loop.thread t = .quitting → 0 < w.called
  returned : 0 < w.returned → 0 < w.called
  pending : 0 < w.called → 0 < w.returned ∨ ∃ t, w.loop.thread t = .quitting

theorem Inv.init (threadId : Nat) (calling quit : Bool) :
    Inv (EventLoopThread.init threadId calling quit : EventLoopThread F) where
  created _ := rfl
  early _ := ⟨rfl, Owner.noConfusion⟩
  before _ := ⟨rfl, rfl⟩

theorem Calls.init (threadId : Nat) (calling quit : Bool) :
    Calls (EventLoopThread.init threadId calling quit : EventLoopThread F) where
  quitting _ h := by cases h
  returned h := by cases h
  pending h := by cases h

section
variable {w w' : EventLoopThread F}

theorem MayCall.other (hbefore : w.Before) {t : Nat} (h : w.MayCall t) : w.loop.threadId ≠ t ∧ w.owner = .started := by
  unfold MayCall at h
  split at h
  · exact absurd h hbefore.1
  · rename_i ht
    exact ⟨Ne.symm ht, h.1⟩

/-- Before `quit_ = false` only other threads are at work on the loop. -/
theorem Inv.before_step (h : Inv w) (hbefore : w.Before) (hmay : w.MayStep e) (he : e ≠ .loop)
    (hq' : w.loop.step e = some q') : q'.phase = .outside ∧ q'.thread q'.threadId = .idle := by
  obtain ⟨hphase, hidle⟩ := h.before hbefore
  rw [EventLoop.step_threadId hq']
  cases e with
  | loop => exact absurd rfl he
  | quit t | queueInLoop t cb =>
    cases hq'
    exact ⟨hphase, (Function.update_of_ne (MayCall.other hbefore hmay).1 _ _).trans hidle⟩
  | runInLoop t cb =>
    obtain ⟨ht, -⟩ := MayCall.other hbefore hmay
    simp only [EventLoop.step, EventLoop.runInLoop, if_neg ht.symm, Option.some.injEq] at hq'
    subst hq'
    exact ⟨hphase, (Function.update_of_ne ht _ _).trans hidle⟩
  | leave t =>
    cases hq'
    obtain ⟨counter, heq, -⟩ := w.loop.leave_eq t
    rw [heq]
    refine ⟨hphase, ?_⟩
    by_cases ht : w.loop.threadId = t
    · subst ht
      exact Function.update_self _ _ _
    · exact (Function.update_of_ne ht _ _).trans hidle
  | poll _ | handleEvent | doPendingFunctors | swap | functor | finish => exact absurd hmay hbefore.1

theorem func_afterLoop (he : e ≠ .loop) (q' : EventLoop F) : (w.afterLoop e q').func = w.func := by
  cases e <;> first | rfl | exact absurd rfl he

theorem tally_other (hquit : ∀ t, e ≠ .quit t) (hleave : ∀ t, e ≠ .leave t) : w.tally e = (0, 0) := by
  cases e <;> first | rfl | exact absurd rfl (hquit _) | exact absurd rfl (hleave _)

theorem Inv.loop (h : Inv w) (hmay : w.MayStep e) (hq' : w.loop.step e = some q') : Inv (w.afterLoop e q') := by
  by_cases he : e = .loop
  · subst he
    refine ⟨fun hcreated => ?_, fun hearly => ?_, fun hbefore => absurd rfl hbefore.1⟩
    · cases (h.created hcreated).symm.trans hmay
    · simp [afterLoop] at hearly
  · have hfunc := func_afterLoop (w := w) he q'
    refine ⟨fun hcreated => hfunc.trans (h.created hcreated), fun hearly => ?_, fun hbefore => ?_⟩
    · rw [hfunc] at hearly
      obtain ⟨hcalled, howner⟩ := h.early hearly
      refine ⟨?_, howner⟩
      have hbefore : w.Before := by
        constructor
        · intro hf
          simp [hf] at hearly
        · intro hf
          simp [hf] at hearly
      cases e with
      | quit t => exact absurd (MayCall.other hbefore hmay).2 howner
      | _ => exact hcalled
    · rw [Before, hfunc] at hbefore
      exact h.before_step hbefore hmay he hq'

theorem Calls.loop (h : Calls w) (hl : e.Legal w.loop) (hq' : w.loop.step e = some q') : Calls (w.afterLoop e q') := by
  obtain ⟨t, rfl, hthread, -⟩ | ⟨t, rfl, hthread, -⟩ | ⟨hquit, hleave, hthread, -⟩ := thread_step hl hq'
  · refine ⟨fun _ _ => Nat.succ_pos _, fun _ => Nat.succ_pos _, fun _ => .inr ⟨t, ?_⟩⟩
    change q'.thread t = .quitting
    rw [hthread, Function.update_self]
  · have hcalled : (w.afterLoop (.leave t) q').called = w.called := rfl
    have hreturned : (w.afterLoop (.leave t) q').returned =
      w.returned + if w.loop.thread t = .quitting then 1 else 0 := rfl
    have hkeep : ∀ t', t' ≠ t → q'.thread t' = w.loop.thread t' := fun t' ht => by
      rw [hthread, Function.update_of_ne ht]
    refine ⟨fun t' ht' => ?_, fun hpos => ?_, fun hpos => ?_⟩
    · have hne : t' ≠ t := by
        rintro rfl
        change q'.thread t' = .quitting at ht'
        rw [hthread, Function.update_self] at ht'
        cases ht'
      exact h.quitting t' ((hkeep t' hne).symm.trans ht')
    · rw [hreturned] at hpos
      by_cases ht : w.loop.thread t = .quitting
      · exact h.quitting t ht
      · rw [if_neg ht] at hpos
        exact h.returned hpos
    · rw [hreturned]
      rcases h.pending hpos with hret | ⟨t₀, ht₀⟩
      · exact .inl (by omega)
      · by_cases hne : t₀ = t
        · rw [if_pos (hne ▸ ht₀)]
          exact .inl (Nat.succ_pos _)
        · exact .inr ⟨t₀, (hkeep t₀ hne).trans ht₀⟩
  · have htally := tally_other (w := w) hquit hleave
    have hcalled : (w.afterLoop e q').called = w.called := by simp only [afterLoop, htally, Nat.add_zero]
    have hreturned : (w.afterLoop e q').returned = w.returned := by simp only [afterLoop, htally, Nat.add_zero]
    refine ⟨fun t ht => ?_, fun hpos => ?_, fun hpos => ?_⟩
    · rw [hcalled]
      exact h.quitting t ((hthread t).1 ht)
    · rw [hreturned] at hpos
      rw [hcalled]
      exact h.returned hpos
    · rw [hcalled] at hpos
      rw [hreturned]
      rcases h.pending hpos with hret | ⟨t, ht⟩
      · exact .inl hret
      · exact .inr ⟨t, (hthread t).2 ht⟩

theorem Inv.step (h : Inv w) {e : Event F} (hl : e.Legal w) (hw' : w.step e = some w') : Inv w' := by
  cases e with
  | startLoop =>
    cases hw'
    have hfunc := h.created hl
    refine ⟨fun hc => (by cases hc), fun _ => ⟨(h.early (by simp [hfunc])).1, Owner.noConfusion⟩, fun _ => ?_⟩
    exact h.before (by simp [Before, hfunc])
  | construct =>
    cases hw'
    have hfunc : w.func = .constructing := hl
    refine ⟨fun hc => ?_, fun _ => h.early (by simp [hfunc]), fun _ => h.before (by simp [Before, hfunc])⟩
    cases (h.created hc).symm.trans hfunc
  | publish =>
    cases hw'
    have hfunc : w.func = .constructed := hl
    refine ⟨fun hc => ?_, fun hearly => by simp at hearly, fun _ => h.before (by simp [Before, hfunc])⟩
    cases (h.created hc).symm.trans hfunc
  | wake =>
    cases hw'
    obtain ⟨-, hfunc⟩ := hl
    refine ⟨fun hc => (by cases hc), fun hearly => ?_, h.before⟩
    exfalso
    simp only [List.mem_cons, List.not_mem_nil, or_false] at hfunc hearly
    rcases hfunc with hf | hf | hf | hf <;> simp [hf] at hearly
  | enter =>
    cases hw'
    have hfunc : w.func = .published := hl
    refine ⟨fun hc => ?_, fun hearly => by simp at hearly, fun _ => h.before (by simp [Before, hfunc])⟩
    cases (h.created hc).symm.trans hfunc
  | loop e =>
    obtain ⟨q', hq', rfl⟩ := Option.map_eq_some_iff.1 hw'
    exact h.loop hl.2 hq'
  | exit =>
    cases hw'
    have hfunc : w.func = .looping := hl.1
    refine ⟨fun hc => ?_, fun hearly => by simp at hearly, fun hbefore => absurd rfl hbefore.2⟩
    cases (h.created hc).symm.trans hfunc

theorem Calls.step (h : Calls w) {e : Event F} (hl : e.Legal w) (hw' : w.step e = some w') : Calls w' := by
  cases e with
  | loop e =>
    obtain ⟨q', hq', rfl⟩ := Option.map_eq_some_iff.1 hw'
    exact h.loop hl.1 hq'
  | startLoop | construct | publish | wake | enter | exit =>
    cases hw'
    exact ⟨h.quitting, h.returned, h.pending⟩

/-! ## When `quit()` is lost -/

/-- `quit()` is not called before `quit_ = false`. -/
def Event.Patient (w : EventLoopThread F) : Event F → Prop
  | .loop (.quit _) => ¬ w.Before
  | _ => True

abbrev PatientSteps : EventLoopThread F → List (Event F) → EventLoopThread F → Prop :=
  Run step fun w e => e.Legal w ∧ e.Patient w

/-- Every call of `quit()` came after `quit_ = false`, and shows. -/
structure Kept (w : EventLoopThread F) : Prop where
  before : w.Before → w.called = 0
  after : w.func = .looping → 0 < w.called → w.loop.quit_ = true

theorem Kept.loop (h : Kept w) (hl : (Event.loop e).Legal w) (hp : (Event.loop e).Patient w)
    (hq' : w.loop.step e = some q') : Kept (w.afterLoop e q') := by
  by_cases he : e = .loop
  · -- nobody has called it so far
    subst he
    have hfunc : w.func = .entered := hl.2
    have hnone := h.before (by simp [Before, hfunc])
    refine ⟨fun hbefore => absurd rfl hbefore.1, fun _ hcalled => ?_⟩
    change 0 < w.called + 0 at hcalled
    omega
  · have hfunc := func_afterLoop (w := w) he q'
    obtain ⟨t, rfl, -, hquit⟩ | ⟨t, rfl, -, hquit⟩ | ⟨hnoquit, hnoleave, -, hquit⟩ := thread_step hl.1 hq'
    · exact ⟨fun hbefore => absurd hbefore hp, fun _ _ => hquit⟩
    · exact ⟨h.before, fun hfunc hcalled => hquit.trans (h.after hfunc hcalled)⟩
    · have hcalled : (w.afterLoop e q').called = w.called := by
        simp only [afterLoop, tally_other hnoquit hnoleave, Nat.add_zero]
      constructor
      · rw [Before, hfunc, hcalled]
        exact h.before
      · rw [hfunc, hcalled]
        exact fun hlooping hpos => (hquit he).trans (h.after hlooping hpos)

theorem Kept.step (h : Kept w) (hinv : Inv w) {e : Event F} (hl : e.Legal w) (hp : e.Patient w)
    (hw' : w.step e = some w') : Kept w' := by
  cases e with
  | loop e =>
    obtain ⟨q', hq', rfl⟩ := Option.map_eq_some_iff.1 hw'
    exact h.loop hl hp hq'
  | startLoop =>
    cases hw'
    exact ⟨fun _ => (hinv.early (by simp [hinv.created hl])).1, fun hfunc => (by cases hfunc)⟩
  | wake =>
    cases hw'
    exact ⟨h.before, h.after⟩
  | exit =>
    cases hw'
    exact ⟨fun hbefore => absurd rfl hbefore.2, fun hfunc => (by cases hfunc)⟩
  | construct | publish | enter =>
    cases hw'
    have hfunc : w.func = _ := hl
    exact ⟨fun _ => h.before (by simp [Before, hfunc]), fun hfunc => (by cases hfunc)⟩

theorem Kept.not_lost (h : Kept w) (hcalls : Calls w) : ¬ w.Lost := by
  rintro ⟨hret, hrunning, hquit⟩
  have hcalled := hcalls.returned hret
  rcases hrunning with hfunc | hfunc
  · have hnone := h.before (by simp [Before, hfunc])
    omega
  · rw [h.after hfunc hcalled] at hquit
    cases hquit

theorem lost_of_entered (hinv : Inv w) (hcalls : Calls w) (hfunc : w.func = .entered) (hcalled : 0 < w.called) :
    ∃ es w', PatientSteps w es w' ∧ w'.Lost := by
  obtain ⟨hphase, hidle⟩ := hinv.before (by simp [Before, hfunc])
  have hloop : w.step (.loop .loop) = some (w.afterLoop .loop { w.loop with quit_ := false, phase := .polling }) := rfl
  rcases hcalls.pending hcalled with hret | ⟨t, ht⟩
  · exact ⟨[.loop .loop], _, .cons ⟨⟨⟨hphase, hidle⟩, hfunc⟩, trivial⟩ hloop (.nil _), hret, .inr rfl, rfl⟩
  · -- the call that is on its way returns behind `quit_ = false`
    refine ⟨[.loop .loop, .loop (.leave t)], _, .cons ⟨⟨⟨hphase, hidle⟩, hfunc⟩, trivial⟩ hloop
      (.cons ⟨⟨?_, ?_⟩, trivial⟩ rfl (.nil _)), ?_, .inr rfl, ?_⟩
    · intro hidle'
      cases ht.symm.trans hidle'
    · exact Func.noConfusion
    · change 0 < w.returned + 0 + if w.loop.thread t = .quitting then 1 else 0
      rw [if_pos ht]
      exact Nat.succ_pos _
    · obtain ⟨counter, heq, -⟩ := EventLoop.leave_eq { w.loop with quit_ := false, phase := .polling } t
      exact (congrArg EventLoop.quit_ heq).trans rfl

/-- A `quit()` from before `quit_ = false` will return to a loop that goes on. -/
theorem lost_of_called (hinv : Inv w) (hcalls : Calls w) (hbefore : w.Before) (hcalled : 0 < w.called) :
    ∃ es w', PatientSteps w es w' ∧ w'.Lost := by
  cases hfunc : w.func with
  | unstarted | constructing | constructed =>
    have hnone := (hinv.early (by simp [hfunc])).1
    omega
  | published =>
    have henter : w.step .enter = some { w with func := .entered } := rfl
    have hinv' : Inv { w with func := .entered } := hinv.step (e := .enter) hfunc henter
    have hcalls' : Calls { w with func := .entered } := hcalls.step (e := .enter) hfunc henter
    obtain ⟨es, w', hrun, hlost⟩ := lost_of_entered hinv' hcalls' rfl hcalled
    exact ⟨.enter :: es, w', .cons ⟨hfunc, trivial⟩ henter hrun, hlost⟩
  | entered => exact lost_of_entered hinv hcalls hfunc hcalled
  | looping => exact absurd hfunc hbefore.1
  | finished => exact absurd hfunc hbefore.2

/-- **Exactly when no `quit()` is lost.** In a reachable state before `quit_ = false`, `quit()` has not been called if and
only if no `quit()` is lost in any continuation in which the further calls wait for `quit_ = false`. -/
theorem quit_kept_iff {threadId : Nat} {calling quit : Bool} {es : List (Event F)}
    (h : Steps (init threadId calling quit) es w) (hbefore : w.Before) :
    w.called = 0 ↔ ∀ es' w', PatientSteps w es' w' → ¬ w'.Lost := by
  have hinv : Inv w := h.invariant Inv (fun h hl hw' => h.step hl hw') (Inv.init threadId calling quit)
  have hcalls : Calls w := h.invariant Calls (fun h hl hw' => h.step hl hw') (Calls.init threadId calling quit)
  constructor
  · intro hnone es' w' hrun
    have hkept : Kept w := ⟨fun _ => hnone, fun _ hcalled => by omega⟩
    obtain ⟨-, hcalls', hkept'⟩ := hrun.invariant (fun w => Inv w ∧ Calls w ∧ Kept w)
      (fun h hok hw' => ⟨h.1.step hok.1 hw', h.2.1.step hok.1 hw', h.2.2.step h.1 hok.1 hok.2 hw'⟩) ⟨hinv, hcalls, hkept⟩
    exact hkept'.not_lost hcalls'
  · intro hnever
    by_contra hcalled
    obtain ⟨es', w', hrun, hlost⟩ := lost_of_called hinv hcalls hbefore (Nat.pos_of_ne_zero hcalled)
    exact hnever es' w' hrun hlost

end

/-- From the constructor on: as long as the calls of `quit()` wait, none is lost. -/
theorem quit_kept_from_start : (init 1 false false : EventLoopThread Nat).called = 0 ∧
    ∀ es w', PatientSteps (init 1 false false : EventLoopThread Nat) es w' → ¬ w'.Lost :=
  ⟨rfl, (quit_kept_iff (.nil _) ⟨Func.noConfusion, Func.noConfusion⟩).1 rfl⟩

/-- `startLoop` has returned, and the destructor calls `quit()` before the new thread comes to `quit_ = false`. -/
theorem quit_lost : ∃ w : EventLoopThread Nat,
    Steps (init 1 false false) [.startLoop, .construct, .publish, .wake, .loop (.quit 0), .loop (.leave 0), .enter,
      .loop .loop] w ∧ w.Lost := by
  have hpublished : Func.published ∈ [Func.published, .entered, .looping, .finished] := by decide
  have hother : (0 = 1) → EventLoop.userCode .outside = true := fun _ => rfl
  refine ⟨_, .cons rfl rfl (.cons rfl rfl (.cons rfl rfl (.cons ⟨rfl, hpublished⟩ rfl
    (.cons ⟨⟨rfl, hother⟩, rfl, Func.noConfusion⟩ rfl (.cons ⟨At.noConfusion, Func.noConfusion⟩ rfl
      (.cons rfl rfl (.cons ⟨⟨rfl, rfl⟩, rfl⟩ rfl (.nil _)))))))), ?_⟩
  exact ⟨Nat.one_pos, .inr rfl, rfl⟩

end EventLoopThread
end ChatReactor
