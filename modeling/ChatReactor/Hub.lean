import Mathlib.Data.List.Lex
import ChatReactor.HubStream
import ChatReactor.Lib.OrdSet
import ChatReactor.Lib.Runs

/-!
# The hub (`excercises/hub/hub.cc`)

| here | there |
| --- | --- |
| `Topic.add`, `remove`, `publish` | the members of `Topic` (`hub.cc:24-48`), with the calls of `send` they make |
| `Hub.topics` | `topics_` |
| `Hub.context` | the `context_` of each connection; `none` is the empty `boost::any` |
| `Hub.sent` | the calls of `conn->send` |
| `onConnecton` | `PubSubServer::onConnecton` (`hub.cc:82-100`) |
| `unsubscribeLoop` | its loop over the set that `doUnsubscribe` erases from |
| `perform` | `doPublish`, `doSubscribe`, `doUnsubscribe` (`hub.cc:147-183`) |

A cast of an empty `any` is `none`. `getMutableContext`, which `TcpConnection.h` does not declare, is the stored
context. Connections are addresses and sets are in the order of `std::less`.

Who is subscribed to what is stored twice: in the audience of the topic and in the context of the connection.
`Linked` says that the two agree; every event keeps it (`Linked.step`). The reads that the commands come from are in
`HubBroker`.
-/

namespace ChatReactor

/-- Bytes compare as `unsigned char`. -/
instance byteOrder : LinearOrder UInt8 where
  le_refl := UInt8.le_refl
  le_trans _ _ _ := UInt8.le_trans
  le_antisymm _ _ := UInt8.le_antisymm
  le_total := UInt8.le_total
  lt_iff_le_not_ge a b := by
    rw [UInt8.lt_iff_toNat_lt, UInt8.le_iff_toNat_le, UInt8.le_iff_toNat_le]
    omega
  toDecidableLE := inferInstance

namespace Hub

abbrev Conn := Nat

/-- `std::set<string>` -/
abbrev ConnectionSubscription := OrdSet Str

structure Topic where
  topic : Str
  content : Str
  /-- `microSecondsSinceEpoch_` -/
  lastPubTime : Int
  audiences : OrdSet Conn

namespace Topic

/-- `Topic::Topic(topic)` -/
def new (topic : Str) : Topic := ⟨topic, [], 0, .empty⟩

/-- `"pub " + topic_ + "\r\n" + content_ + "\r\n"` -/
def makeMessage (t : Topic) : Str := pub ++ [32] ++ t.topic ++ kCRLF ++ t.content ++ kCRLF

def add (t : Topic) (conn : Conn) : Topic × List (Conn × Str) :=
  let t := { t with audiences := t.audiences.insert conn }
  (t, if 0 < t.lastPubTime then [(conn, t.makeMessage)] else [])

def remove (t : Topic) (conn : Conn) : Topic := { t with audiences := t.audiences.erase conn }

def publish (t : Topic) (content : Str) (time : Int) : Topic × List (Conn × Str) :=
  let t := { t with content := content, lastPubTime := time }
  (t, t.audiences.elems.map fun conn => (conn, t.makeMessage))

end Topic
end Hub

/-- `PubSubServer`, with the connections' contexts and what was sent. -/
structure Hub where
  topics : Hub.Str → Option Hub.Topic
  context : Hub.Conn → Option Hub.ConnectionSubscription
  /-- Between the two calls of the connection callback. -/
  up : Hub.Conn → Bool
  sent : List (Hub.Conn × Hub.Str)

namespace Hub

def init : Hub := ⟨fun _ => none, fun _ => none, fun _ => false, []⟩

/-- The topic object in the map, made if it is not there. -/
def getTopic (s : Hub) (topic : Str) : Topic := (s.topics topic).getD (.new topic)

/-- What an operation on the reference `getTopic` returned leaves in the map. -/
def setTopic (s : Hub) (topic : Str) (t : Topic) : Hub := { s with topics := Function.update s.topics topic (some t) }

def setContext (s : Hub) (conn : Conn) (sub : ConnectionSubscription) : Hub :=
  { s with context := Function.update s.context conn (some sub) }

def send (s : Hub) (messages : List (Conn × Str)) : Hub := { s with sent := s.sent ++ messages }

def doSubscribe (s : Hub) (conn : Conn) (topic : Str) : Option Hub := do
  let connSub ← s.context conn
  let s := s.setContext conn (connSub.insert topic)
  let (t, messages) := (s.getTopic topic).add conn
  return (s.setTopic topic t).send messages

def doUnsubscribe (s : Hub) (conn : Conn) (topic : Str) : Option Hub := do
  let s := s.setTopic topic ((s.getTopic topic).remove conn)
  let connSub ← s.context conn
  return s.setContext conn (connSub.erase topic)

def doPublish (s : Hub) (topic content : Str) (time : Int) : Hub :=
  let (t, messages) := (s.getTopic topic).publish content time
  (s.setTopic topic t).send messages

/-- `for (it = connSub.begin(); it != connSub.end();) doUnsubscribe(conn, *it++);` where `it` is the element it
points at, `none` the end. Every round erases an element. -/
def unsubscribeLoop (conn : Conn) : Nat → Option Str → Hub → Option Hub
  | _, none, s => some s
  | 0, some _, _ => none
  | fuel + 1, some topic, s => do
    let connSub ← s.context conn
    let it := connSub.next topic
    let s ← s.doUnsubscribe conn topic
    unsubscribeLoop conn fuel it s

def onConnecton (s : Hub) (conn : Conn) (connected : Bool) : Option Hub :=
  if connected then some (s.setContext conn .empty)
  else do
    let connSub ← s.context conn
    unsubscribeLoop conn connSub.size connSub.elems.head? s

/-- One call of `PubSubServer::onMessage` on a command. -/
def perform (s : Hub) (conn : Conn) (receiveTime : Int) : Operation → Option Hub
  | .doPublish topic content => some (s.doPublish topic content receiveTime)
  | .doSubscribe topic => s.doSubscribe conn topic
  | .doUnsubscribe topic => s.doUnsubscribe conn topic

inductive Event
  | up (conn : Conn)
  | down (conn : Conn)
  | command (conn : Conn) (receiveTime : Int) (operation : Operation)
deriving DecidableEq, Repr

def step (s : Hub) : Event → Option Hub
  | .up conn => ({ s with up := Function.update s.up conn true } : Hub).onConnecton conn true
  | .down conn => ({ s with up := Function.update s.up conn false } : Hub).onConnecton conn false
  | .command conn receiveTime operation => s.perform conn receiveTime operation

/-- A connection comes up once, sends while it is up, and goes down once. -/
def Event.Legal (s : Hub) : Event → Prop
  | .up conn => s.up conn = false
  | .down conn => s.up conn = true
  | .command conn _ _ => s.up conn = true

instance (s : Hub) : ∀ e : Event, Decidable (e.Legal s)
  | .up _ | .down _ | .command _ _ _ => inferInstanceAs (Decidable (_ = _))

abbrev Steps : Hub → List Event → Hub → Prop := Run step fun s e => e.Legal s

/-! ## The two sides of a subscription -/

/-- Who hears about a topic; nobody, if it is not in the map. -/
def audience (s : Hub) (topic : Str) : OrdSet Conn := ((s.topics topic).map Topic.audiences).getD .empty

/-- What a connection has subscribed to; nothing, if it has no context. -/
def subscription (s : Hub) (conn : Conn) : OrdSet Str := (s.context conn).getD .empty

/-- The two sides agree, and a topic object has its own name. -/
structure Paired (s : Hub) : Prop where
  agree : ∀ c t, c ∈ s.audience t ↔ t ∈ s.subscription c
  named : ∀ {t T}, s.topics t = some T → T.topic = t

/-- A connection that is up has a context, and one that is not has no subscription. -/
structure Linked (s : Hub) : Prop extends Paired s where
  context_up : ∀ {c}, s.up c = true → ∃ sub, s.context c = some sub
  down : ∀ {c}, s.up c = false → ∀ t, t ∉ s.subscription c

section Updates
variable (s : Hub) (topic : Str) (conn : Conn) (T : Topic) (sub : ConnectionSubscription)

theorem audience_setTopic (t : Str) : (s.setTopic topic T).audience t = if t = topic then T.audiences else s.audience t := by
  by_cases h : t = topic <;> simp [audience, setTopic, h]

theorem subscription_setContext (c : Conn) :
    (s.setContext conn sub).subscription c = if c = conn then sub else s.subscription c := by
  by_cases h : c = conn <;> simp [subscription, setContext, h]

@[simp] theorem subscription_setTopic (c : Conn) : (s.setTopic topic T).subscription c = s.subscription c := rfl
@[simp] theorem audience_setContext (t : Str) : (s.setContext conn sub).audience t = s.audience t := rfl
@[simp] theorem audience_send (ms : List (Conn × Str)) (t : Str) : (s.send ms).audience t = s.audience t := rfl
@[simp] theorem subscription_send (ms : List (Conn × Str)) (c : Conn) : (s.send ms).subscription c = s.subscription c := rfl

@[simp] theorem audiences_getTopic : (s.getTopic topic).audiences = s.audience topic := by
  cases h : s.topics topic <;> simp [getTopic, audience, h, Topic.new]

end Updates

section Operations
variable {s : Hub} {conn : Conn} {sub : ConnectionSubscription}

theorem Paired.topic_getTopic (h : s.Paired) (topic : Str) : (s.getTopic topic).topic = topic := by
  cases ht : s.topics topic with
  | none => simp [getTopic, ht, Topic.new]
  | some T => simpa [getTopic, ht] using h.named ht

theorem Paired.named_setTopic (h : s.Paired) {topic : Str} (T : Topic) (hT : T.topic = topic) {t : Str} {T' : Topic}
    (ht : (s.setTopic topic T).topics t = some T') : T'.topic = t := by
  simp only [setTopic] at ht
  by_cases hne : t = topic
  · rw [hne, Function.update_self, Option.some.injEq] at ht
    rw [← ht, hT, hne]
  · rw [Function.update_of_ne hne] at ht
    exact h.named ht

/-- `doSubscribe` writes the pair on both sides. -/
theorem doSubscribe_spec (h : s.Paired) (hctx : s.context conn = some sub) (topic : Str) :
    ∃ s', s.doSubscribe conn topic = some s' ∧ s'.Paired ∧ s'.up = s.up ∧
      s'.context = Function.update s.context conn (some (sub.insert topic)) := by
  have hsub : s.subscription conn = sub := by simp [subscription, hctx]
  have heq : s.doSubscribe conn topic = some (((s.setContext conn (sub.insert topic)).setTopic topic
      ((s.getTopic topic).add conn).1).send ((s.getTopic topic).add conn).2) := by rw [doSubscribe, hctx]; rfl
  refine ⟨_, heq, ⟨fun c t => ?_, fun ht => ?_⟩, rfl, rfl⟩
  · simp only [audience_send, subscription_send, subscription_setTopic, audience_setTopic, Topic.add]
    rw [subscription_setContext]
    by_cases hc : c = conn <;> by_cases ht : t = topic <;> simp [hc, ht, h.agree, hsub]
  · exact h.named_setTopic ((s.getTopic topic).add conn).1 (h.topic_getTopic topic) ht

/-- `doUnsubscribe` takes the pair off both sides. -/
theorem doUnsubscribe_spec (h : s.Paired) (hctx : s.context conn = some sub) (topic : Str) :
    ∃ s', s.doUnsubscribe conn topic = some s' ∧ s'.Paired ∧ s'.up = s.up ∧ s'.sent = s.sent ∧
      s'.context = Function.update s.context conn (some (sub.erase topic)) := by
  have hsub : s.subscription conn = sub := by simp [subscription, hctx]
  have heq : s.doUnsubscribe conn topic =
      some ((s.setTopic topic ((s.getTopic topic).remove conn)).setContext conn (sub.erase topic)) := by
    simp [doUnsubscribe, setTopic, hctx]
  refine ⟨_, heq, ⟨fun c t => ?_, fun ht => ?_⟩, rfl, rfl, rfl⟩
  · rw [audience_setContext, audience_setTopic, subscription_setContext, Topic.remove]
    by_cases hc : c = conn <;> by_cases ht : t = topic <;> simp [hc, ht, h.agree, hsub]
  · exact h.named_setTopic ((s.getTopic topic).remove conn) (h.topic_getTopic topic) ht

/-- `doPublish` sends one message to each of the audience and leaves the subscriptions alone. -/
theorem doPublish_spec (h : s.Paired) (topic content : Str) (time : Int) :
    (s.doPublish topic content time).Paired ∧ (s.doPublish topic content time).up = s.up ∧
      (s.doPublish topic content time).context = s.context ∧
      (s.doPublish topic content time).sent =
        s.sent ++ (s.audience topic).elems.map fun c => (c, Client.publish topic content) := by
  refine ⟨⟨fun c t => ?_, fun ht => ?_⟩, rfl, rfl, ?_⟩
  · simp only [doPublish, audience_send, subscription_send, subscription_setTopic, audience_setTopic, Topic.publish]
    by_cases ht : t = topic <;> simp [ht, h.agree]
  · exact h.named_setTopic ((s.getTopic topic).publish content time).1 (h.topic_getTopic topic) ht
  · simp only [doPublish, send, setTopic, Topic.publish, Topic.makeMessage, audiences_getTopic, h.topic_getTopic]
    rfl

/-- The loop of the down callback empties the set it runs over. -/
theorem unsubscribeLoop_spec (conn : Conn) : ∀ (l : List Str) (fuel : Nat) {s : Hub} {sub : ConnectionSubscription},
    s.Paired → s.context conn = some sub → sub.elems = l → l.length ≤ fuel →
      ∃ s', unsubscribeLoop conn fuel l.head? s = some s' ∧ s'.Paired ∧ s'.up = s.up ∧ s'.sent = s.sent ∧
        s'.context = Function.update s.context conn (some .empty)
  | [], fuel, s, sub, h, hctx, hl, _ => by
    have hempty : sub = .empty := by
      cases sub
      cases hl
      rfl
    exact ⟨s, by cases fuel <;> rfl, h, rfl, rfl, by rw [← hempty, ← hctx, Function.update_eq_self]⟩
  | topic :: l, 0, _, _, _, _, _, hf => by simp at hf
  | topic :: l, fuel + 1, s, sub, h, hctx, hl, hf => by
    obtain ⟨s1, h1, hp1, hup1, hsent1, hctx1⟩ := doUnsubscribe_spec h hctx topic
    have hrest : (sub.erase topic).elems = l := by simp [OrdSet.erase, hl]
    obtain ⟨s2, h2, hp2, hup2, hsent2, hctx2⟩ := unsubscribeLoop_spec conn l fuel hp1
      (by rw [hctx1, Function.update_self]) hrest (by simpa using hf)
    refine ⟨s2, ?_, hp2, hup2.trans hup1, hsent2.trans hsent1, ?_⟩
    · -- the iterator has moved to the second element before the first is erased
      rw [List.head?_cons, unsubscribeLoop, hctx]
      simp only [Option.bind_eq_bind, Option.bind_some, OrdSet.next_first hl, h1]
      exact h2
    · rw [hctx2, hctx1, Function.update_idem]

end Operations

/-! ## Every run -/

theorem Linked.init : Linked init where
  agree c t := by simp [audience, subscription, Hub.init]
  named h := by simp [Hub.init] at h
  context_up h := by simp [Hub.init] at h
  down _ t := by simp [subscription, Hub.init]

/-- What a step that keeps `up` does to the context of one connection. -/
theorem Linked.of_context {s s' : Hub} {conn : Conn} {sub : ConnectionSubscription} (h : s.Linked) (hp : s'.Paired)
    (hconn : s.up conn = true) (hup : s'.up = s.up) (hctx : s'.context = Function.update s.context conn (some sub)) :
    s'.Linked where
  toPaired := hp
  context_up := by
    intro c hc
    by_cases hne : c = conn
    · exact ⟨sub, by rw [hctx, hne, Function.update_self]⟩
    · rw [hctx, Function.update_of_ne hne]
      exact h.context_up (hup ▸ hc)
  down := by
    intro c hc t
    have hne : c ≠ conn := by
      rintro rfl
      rw [hup, hconn] at hc
      cases hc
    have hsame : s'.subscription c = s.subscription c := by rw [subscription, hctx, Function.update_of_ne hne, subscription]
    rw [hsame]
    exact h.down (hup ▸ hc) t

/-- Every operation of a connection that is up returns. -/
theorem Linked.perform {s : Hub} {conn : Conn} (h : s.Linked) (hconn : s.up conn = true) (receiveTime : Int)
    (o : Operation) : ∃ s', s.perform conn receiveTime o = some s' ∧ s'.Linked ∧ s'.up = s.up := by
  obtain ⟨sub, hctx⟩ := h.context_up hconn
  cases o with
  | doPublish topic content =>
    obtain ⟨hp, hup, hctx', -⟩ := doPublish_spec h.toPaired topic content receiveTime
    exact ⟨_, rfl, h.of_context hp hconn hup (by rw [hctx', ← hctx, Function.update_eq_self]), hup⟩
  | doSubscribe topic =>
    obtain ⟨s', hs', hp, hup, hctx'⟩ := doSubscribe_spec h.toPaired hctx topic
    exact ⟨s', hs', h.of_context hp hconn hup hctx', hup⟩
  | doUnsubscribe topic =>
    obtain ⟨s', hs', hp, hup, -, hctx'⟩ := doUnsubscribe_spec h.toPaired hctx topic
    exact ⟨s', hs', h.of_context hp hconn hup hctx', hup⟩

/-- The down callback takes the connection off every audience. -/
theorem Linked.disconnect {s : Hub} {conn : Conn} (h : s.Linked) (hconn : s.up conn = true) :
    ∃ s', Hub.step s (.down conn) = some s' ∧ s'.Linked ∧ s'.up conn = false := by
  obtain ⟨sub, hctx⟩ := h.context_up hconn
  obtain ⟨s', hs', hp, hup, -, hctx'⟩ := unsubscribeLoop_spec conn sub.elems sub.size
    (s := { s with up := Function.update s.up conn false }) ⟨h.agree, h.named⟩ hctx rfl (Nat.le_refl _)
  refine ⟨s', ?_, ⟨hp, ?_, ?_⟩, by simp [hup]⟩
  · simpa [Hub.step, onConnecton, hctx] using hs'
  · intro c hc
    have hne : c ≠ conn := by
      rintro rfl
      simp [hup] at hc
    rw [hctx', Function.update_of_ne hne]
    exact h.context_up (by simpa [hup, hne] using hc)
  · intro c hc t
    by_cases hne : c = conn
    · simp [subscription, hctx', hne]
    · have hsame : s'.subscription c = s.subscription c := by
        rw [subscription, hctx', Function.update_of_ne hne, subscription]
      rw [hsame]
      exact h.down (by simpa [hup, hne] using hc) t

/-- Every event that can happen is handled, and keeps the two sides equal. -/
theorem Linked.step {s : Hub} {e : Event} (h : s.Linked) (hleg : e.Legal s) :
    ∃ s', Hub.step s e = some s' ∧ s'.Linked := by
  cases e with
  | up conn =>
    refine ⟨_, rfl, ⟨fun c t => ?_, h.named⟩, ?_, ?_⟩
    · -- a connection that was down had nothing on either side
      rw [audience_setContext, subscription_setContext]
      refine (h.agree c t).trans ?_
      by_cases hc : c = conn
      · rw [if_pos hc, hc]
        exact iff_of_false (h.down hleg t) (OrdSet.not_mem_empty t)
      · rw [if_neg hc]
        rfl
    · intro c hc
      by_cases hne : c = conn
      · exact ⟨.empty, by simp [setContext, hne]⟩
      · simpa [setContext, hne] using h.context_up (c := c) (by simpa [setContext, hne] using hc)
    · intro c hc t
      rw [subscription_setContext]
      split
      · exact OrdSet.not_mem_empty t
      · rename_i hne
        exact h.down (by simpa [setContext, hne] using hc) t
  | down conn =>
    obtain ⟨s', hs', hl, -⟩ := h.disconnect hleg
    exact ⟨s', hs', hl⟩
  | command conn receiveTime o =>
    obtain ⟨s', hs', hl, -⟩ := h.perform hleg receiveTime o
    exact ⟨s', hs', hl⟩

theorem Linked.run {es : List Event} {s : Hub} (h : Steps Hub.init es s) : s.Linked := by
  refine h.invariant Linked (fun {s e s'} hl hleg hs => ?_) Linked.init
  obtain ⟨s₁, hs₁, hl₁⟩ := hl.step hleg
  rw [hs, Option.some.injEq] at hs₁
  exact hs₁ ▸ hl₁

/-- **Subscriptions.** After any connects, disconnects and commands: a connection is in the audience of a topic
exactly if the topic is in its set, and one that is not up is in no audience. Every event that can happen is
handled; after a down callback no audience has the connection, and a publish sends the message once to each
connection that is subscribed and to no other. -/
theorem hub_subscriptions {es : List Event} {s : Hub} (h : Steps init es s) :
    (∀ c t, c ∈ s.audience t ↔ t ∈ s.subscription c) ∧ (∀ c, s.up c = false → ∀ t, c ∉ s.audience t) ∧
    ∀ e : Event, e.Legal s → ∃ s', step s e = some s' ∧
      (∀ c, e = .down c → ∀ t, c ∉ s'.audience t) ∧
      (∀ c time t content, e = .command c time (.doPublish t content) →
        ∃ heard : List Conn, s'.sent = s.sent ++ heard.map (fun d => (d, Client.publish t content)) ∧
          heard.Nodup ∧ ∀ d, d ∈ heard ↔ t ∈ s.subscription d) := by
  have hl := Linked.run h
  refine ⟨hl.agree, fun c hc t hm => hl.down hc t ((hl.agree c t).1 hm), fun e hleg => ?_⟩
  obtain ⟨s', hs', hl'⟩ := hl.step hleg
  refine ⟨s', hs', ?_, ?_⟩
  · rintro c rfl t hm
    obtain ⟨s₁, hs₁, -, hdown⟩ := hl.disconnect hleg
    rw [hs', Option.some.injEq] at hs₁
    rw [← hs₁] at hdown
    exact hl'.down hdown t ((hl'.agree c t).1 hm)
  · rintro c time t content rfl
    obtain ⟨-, -, -, hsent⟩ := doPublish_spec hl.toPaired t content time
    rw [step, perform, Option.some.injEq] at hs'
    exact ⟨(s.audience t).elems, hs' ▸ hsent, (s.audience t).nodup, fun d => hl.agree d t⟩

/-- Two connections subscribe to `t`, one of them also to `u`, and goes down. -/
theorem hub_subscriptions_down : ∃ s, Steps init
    [.up 1, .up 2, .command 1 7 (.doSubscribe [116]), .command 2 7 (.doSubscribe [116]), .command 1 8 (.doSubscribe [117]),
      .command 2 9 (.doPublish [116] [120]), .down 1] s ∧ ∀ t, 1 ∉ s.audience t :=
  have hrun := Run.of_exec _ _ (by decide +kernel)
  ⟨_, hrun, (hub_subscriptions hrun).2.1 1 (by decide +kernel)⟩

end Hub
end ChatReactor
