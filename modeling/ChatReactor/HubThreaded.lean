import ChatReactor.Hub
import ChatReactor.Lib.SharedPtr

/-!
# The threaded hub (`excercises/hub/hub_threaded_efficient.cc`)

| here | there |
| --- | --- |
| `ThreadedHub.heap` | the `TopicList` objects, with the `use_count` of each |
| `ThreadedHub.topics` | `topics_` |
| `ThreadedHub.context` | the `ConnectionSubscription` in the context of each connection |
| `getTopic` | `PubSubServer::getTopic` (`:184-199`), the section under `mutex_`, at the start of a call |
| `Pending` | a call that has its `Topic&`: a reference into the list `getTopic` returned it from |
| `finish` | the operation on that reference, and the rest of the call (`:156-183`) |
| `ThreadedHub.subscribed` | the subscriptions whose `doSubscribe` has returned and that no `doUnsubscribe` has ended since |

`Topic` is the class of `hub.cc`. Nothing but `topics_` points to a list, so that the list is unique every time and
`getTopic` replaces it every time; the old one is destroyed, and the references into it dangle. What comes of an operation
on such a reference is undefined, so that it is part of the event (`Undefined`): any state at all, or a crash.
-/

namespace ChatReactor

namespace ThreadedHub
open Hub

abbrev Thread := Nat
abbrev Conn := Hub.Conn
abbrev Str := Hub.Str
/-- `std::map<std::string, Topic>` -/
abbrev TopicList := Str → Option Topic

inductive Call
  | doSubscribe (conn : Conn) (topic : Str)
  | doUnsubscribe (conn : Conn) (topic : Str)
  | doPublish (topic content : Str) (time : Int)
deriving DecidableEq, Repr

/-- The topic that the call looks up. -/
def Call.topic : Call → Str
  | .doSubscribe _ topic => topic
  | .doUnsubscribe _ topic => topic
  | .doPublish topic _ _ => topic

structure Pending where
  call : Call
  list : Nat
deriving DecidableEq, Repr

end ThreadedHub

structure ThreadedHub where
  heap : SharedHeap ThreadedHub.TopicList
  topics : Nat
  context : ThreadedHub.Conn → Hub.ConnectionSubscription
  pending : ThreadedHub.Thread → Option ThreadedHub.Pending
  sent : List (ThreadedHub.Conn × ThreadedHub.Str)
  subscribed : ThreadedHub.Conn → ThreadedHub.Str → Bool

namespace ThreadedHub
open Hub

/-- `topics_(new TopicList)` -/
def init : ThreadedHub := ⟨.single fun _ => none, 0, fun _ => .empty, fun _ => none, [], fun _ _ => false⟩

/-- The `TopicList` that `topics_` points to. -/
def current (s : ThreadedHub) : TopicList := s.heap.mem s.topics

/-- `if (topics_.unique()) topics_.reset(new TopicList(*topics_));` -/
def copyOnWrite (s : ThreadedHub) : ThreadedHub :=
  if s.heap.unique s.topics then { s with heap := s.heap.reset s.topics s.current, topics := s.heap.next } else s

/-- The topic object in a list, made if it is not there. -/
def TopicList.find (l : TopicList) (topic : Str) : Topic := (l topic).getD (.new topic)

def getTopic (s : ThreadedHub) (topic : Str) : Option ThreadedHub := do
  let s := s.copyOnWrite
  check (s.heap.unique s.topics)
  return { s with heap := s.heap.modify s.topics fun l => Function.update l topic (some (TopicList.find l topic)) }

/-- A call up to the return of `getTopic`. -/
def start (s : ThreadedHub) (thread : Thread) (call : Call) : Option ThreadedHub := do
  let s := match call with
    | .doSubscribe conn topic => { s with context := Function.update s.context conn ((s.context conn).insert topic) }
    | .doUnsubscribe _ _ | .doPublish _ _ _ => s
  let s ← s.getTopic call.topic
  return { s with pending := Function.update s.pending thread (some ⟨call, s.topics⟩) }

/-- An operation on the topic object in the list that `topics_` points to. -/
def onTopic (s : ThreadedHub) (topic : Str) (f : Topic → Topic × List (Conn × Str)) : ThreadedHub :=
  let (t, messages) := f (TopicList.find s.current topic)
  { s with
    heap := s.heap.modify s.topics fun l => Function.update l topic (some t)
    sent := s.sent ++ messages }

/-- The return of `doSubscribe` (`made`) or of `doUnsubscribe`. -/
def note (s : ThreadedHub) (conn : Conn) (topic : Str) (made : Bool) : ThreadedHub :=
  { s with subscribed := Function.update s.subscribed conn (Function.update (s.subscribed conn) topic made) }

/-- The rest of a call whose reference is good. -/
def finish (s : ThreadedHub) : Call → ThreadedHub
  | .doSubscribe conn topic => (s.onTopic topic fun t => t.add conn).note conn topic true
  | .doUnsubscribe conn topic =>
    let s := s.onTopic topic fun t => (t.remove conn, [])
    { s with context := Function.update s.context conn ((s.context conn).erase topic) }.note conn topic false
  | .doPublish topic content time => s.onTopic topic fun t => t.publish content time

/-- What the program does when it uses a topic object that was destroyed. -/
abbrev Undefined := ThreadedHub → Option ThreadedHub

def use (s : ThreadedHub) (thread : Thread) (undefined : Undefined) : Option ThreadedHub := do
  let p ← s.pending thread
  if p.list = s.topics then
    return { s with pending := Function.update s.pending thread none }.finish p.call
  else undefined s

inductive Event
  | start (thread : Thread) (call : Call)
  | use (thread : Thread) (undefined : Undefined)

def step (s : ThreadedHub) : Event → Option ThreadedHub
  | .start thread call => s.start thread call
  | .use thread undefined => s.use thread undefined

/-- A thread finishes a call before it starts another. -/
def Event.Legal (s : ThreadedHub) : Event → Prop
  | .start thread _ => s.pending thread = none
  | .use _ _ => True

instance (s : ThreadedHub) : ∀ e : Event, Decidable (e.Legal s)
  | .start _ _ => inferInstanceAs (Decidable (_ = none))
  | .use _ _ => .isTrue trivial

abbrev Steps : ThreadedHub → List Event → ThreadedHub → Prop := Run step fun s e => e.Legal s

/-- Who hears about a topic. -/
def TopicList.audience (l : TopicList) (topic : Str) : OrdSet Conn := ((l topic).map Topic.audiences).getD .empty

/-- No subscription is lost: who has subscribed and not unsubscribed since is in the audience. -/
def Kept (s : ThreadedHub) : Prop := ∀ c t, s.subscribed c t = true → c ∈ TopicList.audience s.current t

/-- Every operation on a topic is on one in the list that `topics_` points to. -/
def Event.OnCurrent (s : ThreadedHub) : Event → Prop
  | .start _ _ => True
  | .use thread _ => ∀ p ∈ s.pending thread, p.list = s.topics

instance (s : ThreadedHub) : ∀ e : Event, Decidable (e.OnCurrent s)
  | .start _ _ => .isTrue trivial
  | .use thread _ => inferInstanceAs (Decidable (∀ p ∈ s.pending thread, p.list = s.topics))

/-- No thread calls `getTopic` while one stands between `getTopic` and the operation on the reference. -/
def Event.Exclusive (s : ThreadedHub) : Event → Prop
  | .start _ _ => ∀ thread, s.pending thread = none
  | .use _ _ => True

/-! ## One list at a time -/

/-- `topics_` is the only pointer to its list. -/
def Sole (s : ThreadedHub) : Prop := s.heap.Counts [s.topics]

theorem Sole.init : Sole init := SharedHeap.Counts.single _

variable {s : ThreadedHub}

/-- **`getTopic` never fails and always replaces the list**: by a copy that has the topic. -/
theorem Sole.getTopic (h : s.Sole) (topic : Str) :
    ∃ s', s.getTopic topic = some s' ∧ s'.Sole ∧ s'.topics = s.heap.next ∧ s'.pending = s.pending ∧ s'.sent = s.sent ∧
      s'.subscribed = s.subscribed ∧ TopicList.audience s'.current = TopicList.audience s.current := by
  have hu : s.heap.unique s.topics = true := (SharedHeap.Counts.unique_iff h).2 (by simp)
  have hcopy : s.copyOnWrite = { s with heap := s.heap.reset s.topics s.current, topics := s.heap.next } := by
    rw [copyOnWrite, if_pos hu]
  have hc := SharedHeap.Counts.reset h s.current
  have hnew : (s.heap.reset s.topics s.current).unique s.heap.next = true := (SharedHeap.Counts.unique_iff hc).2 (by simp)
  have heq : s.getTopic topic = some { s with
      heap := (s.heap.reset s.topics s.current).modify s.heap.next fun l =>
        Function.update l topic (some (TopicList.find l topic))
      topics := s.heap.next } := by
    rw [ThreadedHub.getTopic, hcopy, check_of hnew]
    rfl
  refine ⟨_, heq, hc.modify s.heap.next fun l => Function.update l topic (some (TopicList.find l topic)), rfl, rfl, rfl, rfl, ?_⟩
  funext t
  simp only [current, SharedHeap.mem_modify_self, SharedHeap.mem_reset_next, TopicList.audience]
  by_cases ht : t = topic
  · subst ht
    cases hl : s.heap.mem s.topics t <;> simp [TopicList.find, hl, Topic.new]
  · rw [Function.update_of_ne ht]

variable {s' : ThreadedHub}

/-- The start of a call leaves the audiences alone, and its reference is into the list `topics_` points to now. -/
theorem Sole.start {thread : Thread} {call : Call} (h : s.Sole) (hs : s.start thread call = some s') :
    s'.Sole ∧ s'.pending = Function.update s.pending thread (some ⟨call, s'.topics⟩) ∧ s'.subscribed = s.subscribed ∧
      TopicList.audience s'.current = TopicList.audience s.current := by
  obtain ⟨s1, h1, hs'⟩ := Option.bind_eq_some_iff.1 hs
  cases hs'
  cases call with
  | doSubscribe conn topic =>
    obtain ⟨s2, h2, hsole, -, hpend, -, hsub, haud⟩ :=
      Sole.getTopic (s := { s with context := Function.update s.context conn ((s.context conn).insert topic) }) h topic
    cases h1.symm.trans h2
    exact ⟨hsole, by rw [hpend], hsub, haud⟩
  | doUnsubscribe conn topic =>
    obtain ⟨s2, h2, hsole, -, hpend, -, hsub, haud⟩ := h.getTopic topic
    cases h1.symm.trans h2
    exact ⟨hsole, by rw [hpend], hsub, haud⟩
  | doPublish topic content time =>
    obtain ⟨s2, h2, hsole, -, hpend, -, hsub, haud⟩ := h.getTopic topic
    cases h1.symm.trans h2
    exact ⟨hsole, by rw [hpend], hsub, haud⟩

theorem find_audiences (l : TopicList) (topic : Str) : (TopicList.find l topic).audiences = TopicList.audience l topic := by
  cases h : l topic <;> simp [TopicList.find, TopicList.audience, h, Topic.new]

/-- An operation on a topic changes its audience alone. -/
theorem audience_onTopic (s : ThreadedHub) (topic : Str) (f : Topic → Topic × List (Conn × Str)) (g : OrdSet Conn → OrdSet Conn)
    (hf : ∀ T, (f T).1.audiences = g T.audiences) (t : Str) :
    TopicList.audience (s.onTopic topic f).current t =
      if t = topic then g (TopicList.audience s.current t) else TopicList.audience s.current t := by
  by_cases ht : t = topic
  · rw [if_pos ht, ht, ← find_audiences s.current, ← hf]
    simp [onTopic, current, TopicList.audience]
  · rw [if_neg ht]
    simp [onTopic, current, TopicList.audience, ht]

/-- What a call does to the audience of its topic. -/
def Call.change : Call → OrdSet Conn → OrdSet Conn
  | .doSubscribe conn _, l => l.insert conn
  | .doUnsubscribe conn _, l => l.erase conn
  | .doPublish _ _ _, l => l

/-- What the return of a call does to the subscriptions that are to be kept. -/
def Call.note : Call → (Conn → Str → Bool) → Conn → Str → Bool
  | .doSubscribe conn topic, sub => Function.update sub conn (Function.update (sub conn) topic true)
  | .doUnsubscribe conn topic, sub => Function.update sub conn (Function.update (sub conn) topic false)
  | .doPublish _ _ _, sub => sub

theorem Sole.onTopic (h : s.Sole) (topic : Str) (f : Topic → Topic × List (Conn × Str)) : (s.onTopic topic f).Sole :=
  h.modify s.topics fun l => Function.update l topic (some (f (TopicList.find s.current topic)).1)

/-- The rest of a call, in all its effects on the lists. -/
theorem finish_spec (s : ThreadedHub) (call : Call) :
    (s.finish call).pending = s.pending ∧ (s.finish call).topics = s.topics ∧ (s.Sole → (s.finish call).Sole) ∧
      (s.finish call).subscribed = call.note s.subscribed ∧
      ∀ t, TopicList.audience (s.finish call).current t =
        if t = call.topic then call.change (TopicList.audience s.current t) else TopicList.audience s.current t := by
  cases call with
  | doSubscribe conn topic =>
    exact ⟨rfl, rfl, fun h => h.onTopic topic fun t => t.add conn, rfl,
      audience_onTopic s topic (fun t => t.add conn) (fun l => l.insert conn) fun _ => rfl⟩
  | doUnsubscribe conn topic =>
    exact ⟨rfl, rfl, fun h => h.onTopic topic fun t => (t.remove conn, []), rfl,
      audience_onTopic s topic (fun t => (t.remove conn, [])) (fun l => l.erase conn) fun _ => rfl⟩
  | doPublish topic content time =>
    exact ⟨rfl, rfl, fun h => h.onTopic topic fun t => t.publish content time, rfl,
      audience_onTopic s topic (fun t => t.publish content time) id fun _ => rfl⟩

theorem use_current {thread : Thread} {undefined : Undefined} (hcur : Event.OnCurrent s (.use thread undefined))
    (hs : s.use thread undefined = some s') :
    ∃ p : Pending, s' = { s with pending := Function.update s.pending thread none }.finish p.call := by
  obtain ⟨p, hp, hs⟩ := Option.bind_eq_some_iff.1 hs
  rw [if_pos (hcur p hp)] at hs
  exact ⟨p, (Option.some.inj hs).symm⟩

/-! ## Subscriptions -/

theorem Kept.init : Kept init := fun _ _ h => by simp [ThreadedHub.init] at h

/-- Who is subscribed when a call returns is in the audience that it leaves. -/
theorem Call.change_keeps {call : Call} {sub : Conn → Str → Bool} {l : OrdSet Conn} {c : Conn} {t : Str}
    (hsub : call.note sub c t = true) (hin : sub c t = true → c ∈ l) : c ∈ if t = call.topic then call.change l else l := by
  cases call with
  | doSubscribe conn topic =>
    by_cases hnew : c = conn ∧ t = topic
    · obtain ⟨rfl, rfl⟩ := hnew
      exact (if_pos rfl).symm ▸ OrdSet.mem_insert.2 (.inl rfl)
    · have hold : sub c t = true := by
        by_cases hc : c = conn
        · subst hc
          have ht : t ≠ topic := fun ht => hnew ⟨rfl, ht⟩
          simpa [Call.note, ht] using hsub
        · simpa [Call.note, hc] using hsub
      split
      · exact OrdSet.mem_insert.2 (.inr (hin hold))
      · exact hin hold
  | doUnsubscribe conn topic =>
    have hold : sub c t = true ∧ (c = conn → t ≠ topic) := by
      by_cases hc : c = conn
      · subst hc
        by_cases ht : t = topic
        · simp [Call.note, ht] at hsub
        · exact ⟨by simpa [Call.note, ht] using hsub, fun _ => ht⟩
      · exact ⟨by simpa [Call.note, hc] using hsub, fun h => absurd h hc⟩
    split
    · rename_i ht
      exact OrdSet.mem_erase.2 ⟨fun hc => hold.2 hc ht, hin hold.1⟩
    · exact hin hold.1
  | doPublish topic content time => split <;> exact hin hsub

/-- `topics_` is the only pointer to its list, and every subscription is in it. -/
def Sound (s : ThreadedHub) : Prop := s.Sole ∧ s.Kept

theorem Sound.step {e : Event} (h : s.Sound) (hcur : e.OnCurrent s) (hs : s.step e = some s') : s'.Sound := by
  obtain ⟨hsole, hkept⟩ := h
  cases e with
  | start thread call =>
    obtain ⟨hsole', -, hsub, haud⟩ := hsole.start hs
    refine ⟨hsole', fun c t ht => ?_⟩
    rw [haud]
    exact hkept c t (hsub ▸ ht)
  | use thread undefined =>
    obtain ⟨p, rfl⟩ := use_current hcur hs
    obtain ⟨-, -, hsole', hsub, haud⟩ := finish_spec { s with pending := Function.update s.pending thread none } p.call
    refine ⟨hsole' hsole, fun c t ht => ?_⟩
    rw [hsub] at ht
    rw [haud]
    exact Call.change_keeps ht (hkept c t)

/-- Every reference that a thread holds is into the list that `topics_` points to. -/
def Fresh (s : ThreadedHub) : Prop := ∀ thread, ∀ p ∈ s.pending thread, p.list = s.topics

theorem Fresh.init : Fresh init := by simp [Fresh, ThreadedHub.init]

theorem Fresh.onCurrent (h : s.Fresh) : ∀ e : Event, e.OnCurrent s
  | .start _ _ => trivial
  | .use thread _ => h thread

theorem Fresh.step {e : Event} (hsole : s.Sole) (h : s.Fresh) (hex : e.Exclusive s) (hs : s.step e = some s') :
    s'.Fresh := by
  intro other p hp
  cases e with
  | start thread call =>
    obtain ⟨-, hpend, -, -⟩ := hsole.start hs
    rw [hpend] at hp
    by_cases hne : other = thread
    · rw [hne, Function.update_self, Option.mem_some_iff] at hp
      rw [← hp]
    · rw [Function.update_of_ne hne, hex other] at hp
      cases hp
  | use thread undefined =>
    obtain ⟨q, rfl⟩ := use_current (h.onCurrent (.use thread undefined)) hs
    obtain ⟨hpend, htopics, -⟩ := finish_spec { s with pending := Function.update s.pending thread none } q.call
    rw [htopics]
    rw [hpend] at hp
    dsimp only at hp
    by_cases hne : other = thread
    · rw [hne, Function.update_self] at hp
      cases hp
    · rw [Function.update_of_ne hne] at hp
      exact h other p hp

/-- **No lost subscription.** As long as every operation is on a topic in the list that `topics_` points to then, every
subscription that was made and not ended is in that list, in every state reached. It is so where no thread calls `getTopic`
while one stands between `getTopic` and its operation. -/
theorem subscriptions_kept {es : List Event} {s : ThreadedHub} :
    (Run step (fun s e => e.Legal s ∧ e.OnCurrent s) init es s → s.Kept) ∧
    (Run step (fun s e => e.Legal s ∧ e.Exclusive s) init es s →
      Run step (fun s e => e.Legal s ∧ e.OnCurrent s) init es s) := by
  constructor
  · intro hrun
    exact (hrun.invariant Sound (fun hs h hstep => hs.step h.2 hstep) ⟨Sole.init, Kept.init⟩).2
  · intro hrun
    refine hrun.refine (fun s => s.Sound ∧ s.Fresh) ?_ ?_ ⟨⟨Sole.init, Kept.init⟩, Fresh.init⟩
    · rintro s e s' ⟨hsound, hfresh⟩ ⟨-, hex⟩ hs
      exact ⟨hsound.step (hfresh.onCurrent e) hs, hfresh.step hsound.1 hex hs⟩
    · rintro s e ⟨-, hfresh⟩ ⟨hleg, -⟩
      exact ⟨hleg, hfresh.onCurrent e⟩

/-- Two subscriptions one after the other. -/
theorem subscriptions_kept_turns : ∃ s,
    Steps init [.start 0 (.doSubscribe 1 [116]), .use 0 fun _ => none, .start 1 (.doSubscribe 2 [117]), .use 1 fun _ => none] s ∧
      s.Kept := by
  have hrun : Run step (fun s e => e.Legal s ∧ e.OnCurrent s) init
      [.start 0 (.doSubscribe 1 [116]), .use 0 fun _ => none, .start 1 (.doSubscribe 2 [117]), .use 1 fun _ => none] _ :=
    Run.of_exec _ _ (by decide +kernel)
  exact ⟨_, hrun.mono fun _ _ h => h.1, subscriptions_kept.1 hrun⟩

/-- While one thread stands between `getTopic` and `add`, another calls `getTopic`. If the memory of the list that is gone is
untouched, `add` returns and the subscription is in no list. -/
theorem subscription_lost : ∃ s, Steps init
    [.start 0 (.doSubscribe 1 [116]), .start 1 (.doSubscribe 2 [117]),
      .use 0 fun s => some ({ s with pending := Function.update s.pending 0 none }.note 1 [116] true), .use 1 fun _ => none] s ∧
      s.subscribed 1 [116] = true ∧ 1 ∉ TopicList.audience s.current [116] :=
  ⟨_, Run.of_exec _ _ (by decide +kernel), by decide +kernel, by decide +kernel⟩

end ThreadedHub
end ChatReactor
