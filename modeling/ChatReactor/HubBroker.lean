import Mathlib.Data.Set.Insert
import ChatReactor.Hub

/-!
# The hub as its clients see it

`Broker` says what a hub is for, with neither bytes nor two copies of the subscriptions: who has subscribed to what, the last
content of each topic, and what each client has been told. `Refines` ties the hub to it, and `Refines.step` keeps the tie.

| here | there |
| --- | --- |
| `Hub.retained` | `lastPubTime_.valid()` and `content_` (`hub.cc:24-31`) |
| `Client.encode` | the texts of `subscribe`, `unsubscribe` and `publish` (`pubsub.cc:35-53`) |
| `Network` | the hub with the input buffer of each connection |
| `Network.step` | the connection callbacks, and a read: `readFd`, then `PubSubServer::onMessage` |
| `Network.shut` | `shutdown()` has been called on a connection with this address: `state_` is `kDisconnecting` |
| `Network.accepted` | the messages that its `send` has taken until then; afterwards it drops them (`TcpConnection.cc:71-80`) |
| `Network.log` | the operations that were performed, in order; the hub keeps no such list |

`hub_end_to_end` goes from the commands of the clients to the calls of `subscribeCallback_`, whatever TCP does on the way.
-/

namespace ChatReactor
namespace Hub

open Framing Lines

/-! ## What a hub is for -/

structure Broker where
  subscribed : Conn → Set Str
  /-- The content that a new subscriber is told. -/
  retained : Str → Option Str
  inbox : Conn → List (Str × Str)

namespace Broker

def init : Broker := ⟨fun _ => ∅, fun _ => none, fun _ => []⟩

open Classical in
/-- A publication goes to all that have subscribed, and to those who subscribe later. -/
noncomputable def perform (b : Broker) (conn : Conn) (time : Int) : Operation → Broker
  | .doPublish topic content =>
    { b with
      retained := Function.update b.retained topic (if 0 < time then some content else none)
      inbox := fun c => b.inbox c ++ if topic ∈ b.subscribed c then [(topic, content)] else [] }
  | .doSubscribe topic =>
    { b with
      subscribed := Function.update b.subscribed conn (insert topic (b.subscribed conn))
      inbox := Function.update b.inbox conn (b.inbox conn ++ (b.retained topic).toList.map fun content => (topic, content)) }
  | .doUnsubscribe topic =>
    { b with subscribed := Function.update b.subscribed conn (b.subscribed conn \ {topic}) }

/-- A connection begins and ends without subscriptions. -/
noncomputable def step (b : Broker) : Event → Broker
  | .up conn => { b with subscribed := Function.update b.subscribed conn ∅ }
  | .down conn => { b with subscribed := Function.update b.subscribed conn ∅ }
  | .command conn time operation => b.perform conn time operation

noncomputable def run (es : List Event) : Broker := es.foldl step init

end Broker

/-! ## What the hub does about it -/

def retained (s : Hub) (topic : Str) : Option Str :=
  (s.topics topic).bind fun t => if 0 < t.lastPubTime then some t.content else none

def sentTo (s : Hub) (conn : Conn) : List Str := s.sent.filterMap fun m => if m.1 = conn then some m.2 else none

section Views
variable (s : Hub) (topic : Str) (T : Topic) (conn : Conn) (sub : ConnectionSubscription)

theorem retained_setTopic (t : Str) : (s.setTopic topic T).retained t =
    if t = topic then (if 0 < T.lastPubTime then some T.content else none) else s.retained t := by
  by_cases h : t = topic <;> simp [retained, setTopic, h]

@[simp] theorem retained_setContext (t : Str) : (s.setContext conn sub).retained t = s.retained t := rfl
@[simp] theorem retained_send (ms : List (Conn × Str)) (t : Str) : (s.send ms).retained t = s.retained t := rfl
@[simp] theorem sentTo_setContext (c : Conn) : (s.setContext conn sub).sentTo c = s.sentTo c := rfl
@[simp] theorem sentTo_setTopic (c : Conn) : (s.setTopic topic T).sentTo c = s.sentTo c := rfl

theorem sentTo_send (ms : List (Conn × Str)) (c : Conn) :
    (s.send ms).sentTo c = s.sentTo c ++ ms.filterMap fun m => if m.1 = c then some m.2 else none := by
  simp [sentTo, send]

/-- The topic object says what is retained, also if it has just been made. -/
theorem retained_getTopic : s.retained topic =
    if 0 < (s.getTopic topic).lastPubTime then some (s.getTopic topic).content else none := by
  cases h : s.topics topic <;> simp [retained, getTopic, h, Topic.new]

end Views

/-- One message for everybody in a set, as one of them sees it. -/
theorem filterMap_audience {l : List Conn} (hl : l.Nodup) (text : Str) (c : Conn) :
    ((l.map fun d => (d, text)).filterMap fun m => if m.1 = c then some m.2 else none) = if c ∈ l then [text] else [] := by
  induction l with
  | nil => rfl
  | cons d l ih =>
    obtain ⟨hd, hl⟩ := List.nodup_cons.1 hl
    by_cases hc : d = c
    · subst hc
      simp [ih hl, hd]
    · simp [hc, ih hl, Ne.symm hc]

/-- The state of the hub is that of the broker: the same subscriptions and contents, and what was sent to a connection are
the texts of what the client has been told, which can be read back. -/
structure Refines (s : Hub) (b : Broker) : Prop where
  linked : s.Linked
  subscribed : ∀ c t, t ∈ b.subscribed c ↔ t ∈ s.subscription c
  retained : ∀ t, b.retained t = s.retained t
  sent : ∀ c, s.sentTo c = (b.inbox c).map fun p => Client.publish p.1 p.2
  retained_unbroken : ∀ t x, b.retained t = some x → Unbroken 13 10 x
  inbox_unbroken : ∀ c, ∀ p ∈ b.inbox c, Unbroken 13 10 p.1 ∧ Unbroken 13 10 p.2

/-- What `parseMessage` takes out of a line has no CRLF in it. -/
def Operation.Unbroken : Operation → Prop
  | .doPublish topic content => Lines.Unbroken 13 10 topic ∧ Lines.Unbroken 13 10 content
  | .doSubscribe topic => Lines.Unbroken 13 10 topic
  | .doUnsubscribe topic => Lines.Unbroken 13 10 topic

section Steps
variable {s : Hub} {b : Broker} {conn : Conn}

theorem Refines.publish (h : s.Refines b) (conn : Conn) (time : Int) {topic content : Str} (ho : (Operation.doPublish topic content).Unbroken)
    (hlinked : (s.doPublish topic content time).Linked) :
    (s.doPublish topic content time).Refines (b.perform conn time (.doPublish topic content)) where
  linked := hlinked
  subscribed c t := by
    obtain ⟨-, -, hctx, -⟩ := doPublish_spec h.linked.toPaired topic content time
    rw [subscription, hctx, ← subscription]
    exact h.subscribed c t
  retained t := by
    rw [doPublish, retained_send, retained_setTopic]
    by_cases ht : t = topic
    · subst ht
      simp [Broker.perform, Topic.publish]
    · simp [Broker.perform, ht, h.retained]
  sent c := by
    obtain ⟨-, -, -, hsent⟩ := doPublish_spec h.linked.toPaired topic content time
    have hsend : (s.doPublish topic content time).sentTo c =
        (s.send ((s.audience topic).elems.map fun d => (d, Client.publish topic content))).sentTo c := by
      rw [sentTo, hsent, sentTo, send]
    rw [hsend, sentTo_send, filterMap_audience (s.audience topic).nodup, h.sent, Broker.perform, List.map_append]
    have haudience : c ∈ (s.audience topic).elems ↔ topic ∈ b.subscribed c :=
      (h.linked.agree c topic).trans (h.subscribed c topic).symm
    by_cases hc : topic ∈ b.subscribed c
    · simp [hc, haudience.2 hc]
    · simp [hc, mt haudience.1 hc]
  retained_unbroken t x hx := by
    by_cases ht : t = topic
    · subst ht
      simp only [Broker.perform, Function.update_self] at hx
      split at hx
      · cases hx
        exact ho.2
      · cases hx
    · simp only [Broker.perform, Function.update_of_ne ht] at hx
      exact h.retained_unbroken t x hx
  inbox_unbroken c p hp := by
    rw [Broker.perform] at hp
    rcases List.mem_append.1 hp with hp | hp
    · exact h.inbox_unbroken c p hp
    · split at hp
      · obtain rfl := List.mem_singleton.1 hp
        exact ho
      · cases hp

theorem Refines.subscribe (h : s.Refines b) (time : Int) {topic : Str} (ho : (Operation.doSubscribe topic).Unbroken) {s' : Hub}
    (hs' : s.doSubscribe conn topic = some s') (hlinked : s'.Linked) :
    s'.Refines (b.perform conn time (.doSubscribe topic)) := by
  cases hctx : s.context conn with
  | none => simp [doSubscribe, hctx] at hs'
  | some sub =>
    have hsub : s.subscription conn = sub := by simp [subscription, hctx]
    obtain rfl : ((s.setContext conn (sub.insert topic)).setTopic topic ((s.getTopic topic).add conn).1).send
        ((s.getTopic topic).add conn).2 = s' := by
      rw [doSubscribe, hctx] at hs'
      exact Option.some.inj hs'
    refine ⟨hlinked, fun c t => ?_, fun t => ?_, fun c => ?_, h.retained_unbroken, fun c p hp => ?_⟩
    · rw [subscription_send, subscription_setTopic, subscription_setContext]
      by_cases hc : c = conn
      · subst hc
        simp [Broker.perform, h.subscribed, hsub]
      · simp [Broker.perform, hc, h.subscribed]
    · -- the topic object keeps its content
      rw [retained_send, retained_setTopic, retained_setContext]
      by_cases ht : t = topic
      · subst ht
        rw [if_pos rfl]
        exact (h.retained t).trans (s.retained_getTopic t)
      · rw [if_neg ht]
        exact h.retained t
    · rw [sentTo_send, sentTo_setTopic, sentTo_setContext, h.sent]
      have hret := (h.retained topic).trans (s.retained_getTopic topic)
      have hname := h.linked.topic_getTopic topic
      by_cases hc : c = conn
      · subst hc
        by_cases hvalid : 0 < (s.getTopic topic).lastPubTime
        · simp [Broker.perform, Topic.add, Topic.makeMessage, hret, hvalid, hname, Client.publish]
        · simp [Broker.perform, Topic.add, hret, hvalid]
      · by_cases hvalid : 0 < (s.getTopic topic).lastPubTime
        · simp [Broker.perform, Topic.add, hvalid, hc, Ne.symm hc]
        · simp [Broker.perform, Topic.add, hvalid, hc]
    · by_cases hc : c = conn
      · subst hc
        simp only [Broker.perform, Function.update_self] at hp
        rcases List.mem_append.1 hp with hp | hp
        · exact h.inbox_unbroken c p hp
        · obtain ⟨content, hcontent, rfl⟩ := List.mem_map.1 hp
          exact ⟨ho, h.retained_unbroken topic content (Option.mem_toList.1 hcontent)⟩
      · simp only [Broker.perform, Function.update_of_ne hc] at hp
        exact h.inbox_unbroken c p hp

/-- Taking a connection off an audience leaves the contents alone. -/
theorem retained_doUnsubscribe {topic : Str} {s' : Hub} (hs' : s.doUnsubscribe conn topic = some s') (t : Str) :
    s'.retained t = s.retained t := by
  cases hctx : s.context conn with
  | none => simp [doUnsubscribe, setTopic, hctx] at hs'
  | some sub =>
    obtain rfl : (s.setTopic topic ((s.getTopic topic).remove conn)).setContext conn (sub.erase topic) = s' := by
      simpa [doUnsubscribe, setTopic, hctx] using hs'
    rw [retained_setContext, retained_setTopic]
    by_cases ht : t = topic
    · subst ht
      rw [if_pos rfl]
      exact (s.retained_getTopic t).symm
    · rw [if_neg ht]

theorem retained_unsubscribeLoop (fuel : Nat) (it : Option Str) {s s' : Hub} (hs' : unsubscribeLoop conn fuel it s = some s')
    (t : Str) : s'.retained t = s.retained t := by
  induction fuel generalizing it s with
  | zero =>
    cases it with
    | none =>
      cases hs'
      rfl
    | some topic => cases hs'
  | succ fuel ih =>
    cases it with
    | none =>
      cases hs'
      rfl
    | some topic =>
      simp only [unsubscribeLoop, Option.bind_eq_bind, Option.bind_eq_some_iff] at hs'
      obtain ⟨sub, -, s1, h1, h2⟩ := hs'
      rw [ih _ h2, retained_doUnsubscribe h1]

theorem Refines.unsubscribe (h : s.Refines b) (time : Int) {topic : Str} {s' : Hub}
    (hs' : s.doUnsubscribe conn topic = some s') (hlinked : s'.Linked) (hup : s.up conn = true) :
    s'.Refines (b.perform conn time (.doUnsubscribe topic)) := by
  obtain ⟨sub, hctx⟩ := h.linked.context_up hup
  have hsub : s.subscription conn = sub := by simp [subscription, hctx]
  obtain ⟨s₁, hs₁, -, -, hsent, hctx'⟩ := doUnsubscribe_spec h.linked.toPaired hctx topic
  cases hs'.symm.trans hs₁
  refine ⟨hlinked, fun c t => ?_, fun t => ?_, fun c => ?_, h.retained_unbroken, h.inbox_unbroken⟩
  · rw [subscription, hctx']
    by_cases hc : c = conn
    · subst hc
      simp [Broker.perform, h.subscribed, hsub, and_comm]
    · simpa [Broker.perform, hc, subscription] using h.subscribed c t
  · exact (h.retained t).trans (retained_doUnsubscribe hs' t).symm
  · rw [sentTo, hsent]
    exact h.sent c

/-- The down callback empties the set of the connection, and that is all. -/
theorem down_spec (h : s.Linked) (hup : s.up conn = true) : ∃ s', Hub.step s (.down conn) = some s' ∧
    s'.up = Function.update s.up conn false ∧ s'.sent = s.sent ∧ s'.context = Function.update s.context conn (some .empty) ∧
      ∀ t, s'.retained t = s.retained t := by
  obtain ⟨sub, hctx⟩ := h.context_up hup
  obtain ⟨s', hs', -, hup', hsent, hctx'⟩ := unsubscribeLoop_spec conn sub.elems sub.size
    (s := { s with up := Function.update s.up conn false }) ⟨h.agree, h.named⟩ hctx rfl (Nat.le_refl _)
  refine ⟨s', ?_, hup', hsent, hctx', fun t => retained_unsubscribeLoop _ _ hs' t⟩
  simpa [Hub.step, onConnecton, hctx] using hs'

/-- **One event of the hub is one of the broker.** -/
theorem Refines.step (h : s.Refines b) {e : Event} (hleg : e.Legal s) (ho : ∀ c time o, e = .command c time o → o.Unbroken)
    {s' : Hub} (hs' : Hub.step s e = some s') : s'.Refines (b.step e) := by
  obtain ⟨s₁, hs₁, hlinked⟩ := h.linked.step hleg
  cases hs'.symm.trans hs₁
  cases e with
  | up conn =>
    obtain rfl : ({ s with up := Function.update s.up conn true } : Hub).setContext conn .empty = s' := Option.some.inj hs'
    refine ⟨hlinked, fun c t => ?_, h.retained, h.sent, h.retained_unbroken, h.inbox_unbroken⟩
    rw [subscription_setContext]
    by_cases hc : c = conn
    · subst hc
      simp [Broker.step]
    · simp only [Broker.step, Function.update_of_ne hc, if_neg hc]
      exact h.subscribed c t
  | down conn =>
    obtain ⟨s₁, hs₁, -, hsent, hctx', hret⟩ := down_spec h.linked hleg
    cases hs'.symm.trans hs₁
    refine ⟨hlinked, fun c t => ?_, fun t => (h.retained t).trans (hret t).symm, fun c => ?_, h.retained_unbroken,
      h.inbox_unbroken⟩
    · rw [subscription, hctx']
      by_cases hc : c = conn
      · subst hc
        simp [Broker.step]
      · simpa [Broker.step, hc, subscription] using h.subscribed c t
    · rw [sentTo, hsent]
      exact h.sent c
  | command conn time o =>
    have hunbroken := ho conn time o rfl
    cases o with
    | doPublish topic content =>
      cases hs'
      exact h.publish conn time hunbroken hlinked
    | doSubscribe topic => exact h.subscribe time hunbroken hs' hlinked
    | doUnsubscribe topic => exact h.unsubscribe time hs' hlinked hleg

theorem Refines.init : Hub.init.Refines Broker.init where
  linked := Linked.init
  subscribed c t := by simp [Broker.init, subscription, Hub.init]
  retained t := rfl
  sent c := rfl
  retained_unbroken t x hx := by cases hx
  inbox_unbroken c p hp := by cases hp

end Steps

/-! ## The hub and its input buffers -/

structure Network where
  hub : Hub
  input : Conn → Buffer
  shut : Conn → Bool
  accepted : Conn → List Str
  log : List Event

inductive Input
  | up (conn : Conn)
  | down (conn : Conn)
  | read (conn : Conn) (receiveTime : Int) (chunk : List UInt8)
deriving DecidableEq, Repr

namespace Network

def init : Network := ⟨Hub.init, fun _ => Buffer.new, fun _ => false, fun _ => [], []⟩

def step (n : Network) : Input → Option Network
  | .up conn => (n.hub.step (.up conn)).map fun hub =>
    { n with hub := hub, input := Function.update n.input conn Buffer.new, log := n.log ++ [.up conn] }
  | .down conn => (n.hub.step (.down conn)).map fun hub => { n with hub := hub, log := n.log ++ [.down conn] }
  | .read conn receiveTime chunk => do
    let (buf, operations, shutdowns) ← Server.handleRead (n.input conn) chunk
    let hub ← operations.foldlM (fun s o => s.perform conn receiveTime o) n.hub
    return {
      hub := hub
      input := Function.update n.input conn buf
      -- a call of `shutdown` ends the loop, so what this read sends to `conn` comes before it
      shut := Function.update n.shut conn (n.shut conn || !shutdowns.isEmpty)
      accepted := fun c => if n.shut c then n.accepted c else hub.sentTo c
      log := n.log ++ operations.map (.command conn receiveTime) }

end Network

/-- A connection comes up once, is read from while it is up, and goes down once. -/
def Input.Legal (n : Network) : Input → Prop
  | .up conn => n.hub.up conn = false
  | .down conn => n.hub.up conn = true
  | .read conn _ _ => n.hub.up conn = true

instance (n : Network) : ∀ i : Input, Decidable (i.Legal n)
  | .up _ | .down _ | .read _ _ _ => inferInstanceAs (Decidable (_ = _))

abbrev Network.Steps : Network → List Input → Network → Prop := Run Network.step fun n i => i.Legal n

/-- The bytes that a connection has brought since it came up. -/
def arrivedFrom (conn : Conn) (bytes : List UInt8) : Input → List UInt8
  | .up c => if c = conn then [] else bytes
  | .down _ => bytes
  | .read c _ chunk => if c = conn then bytes ++ chunk else bytes

def arrived (is : List Input) (conn : Conn) : List UInt8 := is.foldl (arrivedFrom conn) []

/-- The operations that a connection has had performed since it came up. -/
def performedFrom (conn : Conn) (os : List Operation) : Event → List Operation
  | .up c => if c = conn then [] else os
  | .down _ => os
  | .command c _ o => if c = conn then os ++ [o] else os

def performed (es : List Event) (conn : Conn) : List Operation := es.foldl (performedFrom conn) []

/-! ### Reads -/

theorem Unbroken.topic {cmd topic : Str} (h : Lines.Unbroken 13 10 (cmd ++ 32 :: topic)) : Lines.Unbroken 13 10 topic :=
  fun hin => h (hin.trans ⟨cmd ++ [32], [], by simp⟩)

/-- The operation of a command that was read from a line. -/
theorem operation_unbroken {m : Command} {f : Str} (hf : Frame m f) {o : Operation} (ho : Server.operation m = some o) :
    o.Unbroken := by
  obtain ⟨-, hline, hrest⟩ := hf
  have htopic := Unbroken.topic hline
  simp only [Server.operation] at ho
  split_ifs at ho with hpub hsub hunsub
  · cases ho
    rcases hrest with ⟨-, hcontent, -⟩ | ⟨hne, -, -⟩
    · exact ⟨htopic, hcontent⟩
    · exact absurd hpub hne
  · cases ho
    exact htopic
  · cases ho
    exact htopic

theorem packed_unbroken {ms : List Command} {p : Str} (h : Packed Frame ms p) : ∀ o ∈ ms.filterMap Server.operation, o.Unbroken := by
  intro o ho
  obtain ⟨m, hm, hop⟩ := List.mem_filterMap.1 ho
  induction h with
  | nil => cases hm
  | cons hf _ ih =>
    rcases List.mem_cons.1 hm with rfl | hm
    · exact operation_unbroken hf hop
    · exact ih (List.mem_filterMap.2 ⟨m, hm, hop⟩) hm

/-- Operations one after the other. -/
theorem Refines.perform {s : Hub} {b : Broker} (h : s.Refines b) {conn : Conn} (hup : s.up conn = true) (time : Int)
    {os : List Operation} (hos : ∀ o ∈ os, o.Unbroken) :
    ∃ s', os.foldlM (fun s o => s.perform conn time o) s = some s' ∧ s'.up = s.up ∧
      s'.Refines ((os.map (Event.command conn time)).foldl Broker.step b) ∧ Hub.Steps s (os.map (.command conn time)) s' := by
  induction os generalizing s b with
  | nil => exact ⟨s, rfl, rfl, h, .nil s⟩
  | cons o os ih =>
    obtain ⟨ho, hos⟩ := List.forall_mem_cons.1 hos
    obtain ⟨s1, h1, -, hup1⟩ := h.linked.perform hup time o
    have hone : s1.Refines (b.step (.command conn time o)) := h.step (e := .command conn time o) hup (by rintro _ _ _ ⟨⟩; exact ho) h1
    obtain ⟨s2, h2, hup2, href2, hsteps⟩ := ih hone (hup1 ▸ hup) hos
    exact ⟨s2, by simp [List.foldlM_cons, h1, h2], hup2.trans hup1, href2, .cons hup h1 hsteps⟩

/-- What the network is in after the inputs `is`. -/
structure Network.Inv (n : Network) (is : List Input) : Prop where
  refines : n.hub.Refines (Broker.run n.log)
  reached : Hub.Steps Hub.init n.log n.hub
  input : ∀ c, n.hub.up c = true → ∃ q out, (n.input c).Holds q ∧ Taken Server.operation look Frame (arrived is c) out q ∧
    out.filterMap Server.operation = performed n.log c
  accepted : ∀ c, n.accepted c <+: n.hub.sentTo c ∧ (n.shut c = false → n.accepted c = n.hub.sentTo c)

theorem Broker.inbox_step (b : Broker) (e : Event) (c : Conn) : b.inbox c <+: (b.step e).inbox c := by
  cases e with
  | up conn => exact List.prefix_rfl
  | down conn => exact List.prefix_rfl
  | command conn time o =>
    cases o with
    | doPublish topic content => exact List.prefix_append _ _
    | doSubscribe topic =>
      by_cases hc : c = conn
      · subst hc
        simp [Broker.step, Broker.perform]
      · simp [Broker.step, Broker.perform, hc]
    | doUnsubscribe topic => exact List.prefix_rfl

theorem Broker.inbox_foldl (b : Broker) (es : List Event) (c : Conn) : b.inbox c <+: (es.foldl Broker.step b).inbox c := by
  induction es generalizing b with
  | nil => exact List.prefix_rfl
  | cons e es ih => exact (b.inbox_step e c).trans (ih _)

theorem run_append (es es' : List Event) : Broker.run (es ++ es') = es'.foldl Broker.step (Broker.run es) := by
  rw [Broker.run, List.foldl_append, Broker.run]

theorem performed_commands (es : List Event) (conn : Conn) (time : Int) (os : List Operation) (c : Conn) :
    performed (es ++ os.map (.command conn time)) c = performed es c ++ if conn = c then os else [] := by
  rw [performed, List.foldl_append, ← performed]
  generalize performed es c = done
  induction os generalizing done with
  | nil => simp
  | cons o os ih =>
    rw [List.map_cons, List.foldl_cons, ih, performedFrom]
    split <;> simp

theorem arrived_snoc (is : List Input) (i : Input) (c : Conn) : arrived (is ++ [i]) c = arrivedFrom c (arrived is c) i := by
  rw [arrived, List.foldl_append, ← arrived]
  rfl

theorem performed_snoc (es : List Event) (e : Event) (c : Conn) :
    performed (es ++ [e]) c = performedFrom c (performed es c) e := by
  rw [performed, List.foldl_append, ← performed]
  rfl

theorem Network.Inv.init : Network.Inv .init [] where
  refines := Refines.init
  reached := .nil _
  input c hc := by cases hc
  accepted _ := ⟨List.prefix_rfl, fun _ => rfl⟩

theorem Network.Inv.read {n : Network} {is : List Input} (h : n.Inv is) {conn : Conn} (hconn : n.hub.up conn = true) (time : Int)
    (chunk : List UInt8) : ∃ n', n.step (.read conn time chunk) = some n' ∧ n'.Inv (is ++ [.read conn time chunk]) := by
  obtain ⟨q, out, hq, htaken, hout⟩ := h.input conn hconn
  obtain ⟨buf, ms, rest, e, errs, hread, hrest, hdrain⟩ := Server.handleRead_drainsTo chunk hq
  obtain ⟨pre, -, hpacked⟩ := hdrain.packed look_grammar
  obtain ⟨s', hs', hup, href, hsteps⟩ := h.refines.perform hconn time (packed_unbroken hpacked)
  refine ⟨_, by simp only [Network.step, hread, hs', Option.bind_eq_bind, Option.bind_some]; rfl, ?_,
    h.reached.append hsteps, fun c hc => ?_, fun c => ?_⟩
  · rw [run_append]
    exact href
  · rw [arrived_snoc, performed_commands, arrivedFrom]
    by_cases hne : conn = c
    · subst hne
      simp only [if_true, Function.update_self]
      exact ⟨rest, out ++ ms, hrest, htaken.step look_incremental look_grammar hdrain, by rw [List.filterMap_append, hout]⟩
    · simp only [if_neg hne, Function.update_of_ne (Ne.symm hne), List.append_nil]
      exact h.input c (hup ▸ hc)
  · simp only
    cases hshut : n.shut c with
    | false => exact ⟨List.prefix_rfl, fun _ => rfl⟩
    | true =>
      have hgrows : n.hub.sentTo c <+: s'.sentTo c := by
        rw [h.refines.sent, href.sent]
        exact (Broker.inbox_foldl _ _ c).map _
      refine ⟨(h.accepted c).1.trans hgrows, fun hopen => ?_⟩
      by_cases hne : c = conn
      · subst hne
        simp [hshut] at hopen
      · simp [hne, hshut] at hopen

/-- Every input is handled, and keeps the invariant. -/
theorem Network.Inv.step {n : Network} {is : List Input} (h : n.Inv is) {i : Input} (hleg : i.Legal n) :
    ∃ n', n.step i = some n' ∧ n'.Inv (is ++ [i]) := by
  cases i with
  | up conn =>
    have hlegal : Event.Legal n.hub (.up conn) := hleg
    obtain ⟨s', hs', -⟩ := h.refines.linked.step hlegal
    have hup : s'.up = Function.update n.hub.up conn true := by
      cases hs'
      rfl
    have hsent : s'.sent = n.hub.sent := by
      cases hs'
      rfl
    refine ⟨_, by rw [Network.step, hs', Option.map_some], ?_, h.reached.append (.cons hlegal hs' (.nil _)), fun c hc => ?_,
      fun c => by rw [sentTo, hsent]; exact h.accepted c⟩
    · rw [run_append]
      exact h.refines.step hlegal nofun hs'
    · rw [arrived_snoc, performed_snoc, arrivedFrom, performedFrom]
      by_cases hne : conn = c
      · subst hne
        simp only [if_true, Function.update_self]
        exact ⟨[], [], Buffer.new_holds, .nil look_incremental rfl, rfl⟩
      · simp only [hup, if_neg hne, Function.update_of_ne (Ne.symm hne)] at hc ⊢
        exact h.input c hc
  | down conn =>
    have hlegal : Event.Legal n.hub (.down conn) := hleg
    obtain ⟨s', hs', hup, hsent, -⟩ := down_spec h.refines.linked hleg
    refine ⟨_, by rw [Network.step, hs', Option.map_some], ?_, h.reached.append (.cons hlegal hs' (.nil _)), fun c hc => ?_,
      fun c => by rw [sentTo, hsent]; exact h.accepted c⟩
    · rw [run_append]
      exact h.refines.step hlegal nofun hs'
    · rw [arrived_snoc, performed_snoc, arrivedFrom, performedFrom]
      have hne : c ≠ conn := by
        rintro rfl
        simp [hup] at hc
      simp only [hup, Function.update_of_ne hne] at hc
      exact h.input c hc
  | read conn time chunk => exact h.read hleg time chunk

theorem Network.Inv.run {n n' : Network} {is is' : List Input} (h : n.Inv is) (hrun : Network.Steps n is' n') : n'.Inv (is ++ is') :=
  hrun.history (I := fun is n => n.Inv is) (fun hn hleg => hn.step hleg) h

/-! ## From client to client -/

namespace Client

/-- `"sub " + topic + "\r\n"` -/
def subscribe (topic : Str) : Str := sub ++ [32] ++ topic ++ kCRLF

/-- `"unsub " + topic + "\r\n"` -/
def unsubscribe (topic : Str) : Str := unsub ++ [32] ++ topic ++ kCRLF

/-- The call of the client that asks the hub for an operation. -/
def encode : Operation → Str
  | .doPublish topic content => publish topic content
  | .doSubscribe topic => subscribe topic
  | .doUnsubscribe topic => unsubscribe topic

/-- The command that `parseMessage` finds in it. -/
def command : Operation → Command
  | .doPublish topic content => ⟨pub, topic, content⟩
  | .doSubscribe topic => ⟨sub, topic, []⟩
  | .doUnsubscribe topic => ⟨unsub, topic, []⟩

theorem operation_command (o : Operation) : Server.operation (command o) = some o := by
  cases o <;> rfl

theorem unbroken_word {word topic : Str} (hword : 13 ∉ word) (h : Lines.Unbroken 13 10 topic) :
    Lines.Unbroken 13 10 (word ++ 32 :: topic) := by
  have hline : Lines.Unbroken 13 10 (32 :: topic) := by
    rw [← findPair_none] at h ⊢
    cases topic with
    | nil => rfl
    | cons x topic => simp [findPair, h]
  induction word with
  | nil => exact hline
  | cons w word ih =>
    obtain ⟨hw, hword⟩ := not_or.1 (List.mem_cons.not.1 hword)
    have ih := findPair_none.2 (ih hword)
    rw [← findPair_none, List.cons_append]
    cases hrest : word ++ 32 :: topic with
    | nil => rfl
    | cons x rest =>
      rw [hrest] at ih
      simp [findPair, Ne.symm hw, ih]

theorem encode_frame {o : Operation} (ho : o.Unbroken) : Frame (command o) (encode o) := by
  cases o with
  | doPublish topic content => exact publish_frame ho.1 ho.2
  | doSubscribe topic =>
    refine ⟨show 32 ∉ sub by decide, unbroken_word (show 13 ∉ sub by decide) ho, .inr ⟨show sub ≠ pub by decide, rfl, ?_⟩⟩
    simp [encode, subscribe, command, Command.line]
  | doUnsubscribe topic =>
    refine ⟨show 32 ∉ unsub by decide, unbroken_word (show 13 ∉ unsub by decide) ho, .inr ⟨show unsub ≠ pub by decide, rfl, ?_⟩⟩
    simp [encode, unsubscribe, command, Command.line]

theorem encode_packed {os : List Operation} (hos : ∀ o ∈ os, o.Unbroken) : Packed Frame (os.map command) (os.flatMap encode) := by
  induction os with
  | nil => exact .nil
  | cons o os ih =>
    obtain ⟨ho, hos⟩ := List.forall_mem_cons.1 hos
    exact .cons (encode_frame ho) (ih hos)

theorem filterMap_command (os : List Operation) : (os.map command).filterMap Server.operation = os := by
  rw [List.filterMap_map, show Server.operation ∘ command = some from funext operation_command, List.filterMap_some]

theorem drain_encode {os : List Operation} (hos : ∀ o ∈ os, o.Unbroken) :
    drain look (os.flatMap encode) = ⟨os.map command, [], none⟩ := by
  have hdrain := drain_packed look_incremental look_grammar.complete (encode_packed hos) []
  have hempty : drain look ([] : List UInt8) = ⟨[], [], none⟩ := by rw [drain_step look_incremental]; rfl
  simpa [hempty] using hdrain

/-- Publications are told as they were published. -/
theorem receive_publications {pubs : List (Str × Str)} (hpubs : ∀ p ∈ pubs, Lines.Unbroken 13 10 p.1 ∧ Lines.Unbroken 13 10 p.2)
    {chunks : List (List UInt8)} (hcut : chunks.flatten = (pubs.map fun p => publish p.1 p.2).flatten) :
    ∃ b, receive true Buffer.new chunks = some (b, pubs, []) ∧ b.readableBytes = 0 := by
  have hos : ∀ o ∈ pubs.map fun p => Operation.doPublish p.1 p.2, o.Unbroken := by
    intro o ho
    obtain ⟨p, hp, rfl⟩ := List.mem_map.1 ho
    exact hpubs p hp
  have hdrain := drain_encode hos
  rw [List.flatMap_map, List.flatMap_def, show (fun p : Str × Str => encode (.doPublish p.1 p.2)) =
    fun p => publish p.1 p.2 from rfl, ← hcut] at hdrain
  obtain ⟨b, errs, hrec, hb, herr⟩ := reads_stream look_incremental rfl (handleRead_drains true) Buffer.new_holds chunks
  rw [hdrain] at hrec hb herr
  rw [herr rfl] at hrec
  have hcalls : ((pubs.map fun p => Operation.doPublish p.1 p.2).map command).flatMap (call true) = pubs := by
    simp [command, call, List.flatMap_map]
  exact ⟨b, by rw [receive, hrec, hcalls], hb.readableBytes_eq⟩

end Client

/-- A client that sends nothing but commands has those performed that have arrived as a whole. -/
theorem performed_of_taken {bytes q : List UInt8} {out : List Command} {os : List Operation} (hos : ∀ o ∈ os, o.Unbroken)
    (h : Taken Server.operation look Frame bytes out q) (hbytes : bytes <+: os.flatMap Client.encode) :
    out.filterMap Server.operation <+: os ∧
      ∀ k, (os.take k).flatMap Client.encode <+: bytes → os.take k <+: out.filterMap Server.operation := by
  have hout : out <+: os.map Client.command := by
    obtain ⟨pre, rfl, hpre⟩ := h.packed
    obtain ⟨_, -, -, hlongest⟩ := drain_longest look_incremental look_grammar (os.flatMap Client.encode)
    rw [Client.drain_encode hos] at hlongest
    exact (hlongest out pre hpre ((List.prefix_append pre q).trans hbytes)).1
  constructor
  · have hprefix := hout.filterMap Server.operation
    rwa [Client.filterMap_command] at hprefix
  · intro k hk
    -- every command is known, so the reads have stopped nowhere
    have hitems : (drain look bytes).items = out := by
      rw [h.items look_incremental look_grammar]
      rcases h.settled with hnone | ⟨m, hm, hop⟩
      · rw [hnone, List.append_nil]
      · obtain ⟨o, -, rfl⟩ := List.mem_map.1 (hout.subset hm)
        rw [Client.operation_command] at hop
        cases hop
    obtain ⟨_, -, -, hlongest⟩ := drain_longest look_incremental look_grammar bytes
    rw [hitems] at hlongest
    have hpacked := Client.encode_packed fun o ho => hos o (List.mem_of_mem_take (i := k) ho)
    have hprefix := (hlongest _ _ hpacked hk).1.filterMap Server.operation
    rwa [Client.filterMap_command] at hprefix

/-- **From client to client.** After any inputs, with any bytes in any pieces from any connections:
the hub has not failed and handles every further input; a connection that sends nothing but the calls of a client has had
exactly those performed, in order, that have arrived as a whole; and however what was sent to a connection is cut, the
`subscribeCallback_` there is called with what the broker tells that client of the operations performed, in that order: with
all of it, or with a front part if the hub has shut the connection down, as it does where it cannot read a command. -/
theorem hub_end_to_end {is : List Input} {n : Network} (h : Network.Steps .init is n) :
    (∀ i : Input, i.Legal n → ∃ n', n.step i = some n') ∧
    (∀ (c : Conn) (os : List Operation), n.hub.up c = true → (∀ o ∈ os, o.Unbroken) →
      arrived is c <+: os.flatMap Client.encode →
        performed n.log c <+: os ∧ ∀ k, (os.take k).flatMap Client.encode <+: arrived is c → os.take k <+: performed n.log c) ∧
    ∀ (c : Conn) (chunks : List (List UInt8)), chunks.flatten = (n.accepted c).flatten →
      ∃ b told, Client.receive true Buffer.new chunks = some (b, told, []) ∧ b.readableBytes = 0 ∧
        told <+: (Broker.run n.log).inbox c ∧ (n.shut c = false → told = (Broker.run n.log).inbox c) := by
  have hinv : n.Inv is := Network.Inv.init.run h
  refine ⟨fun i hi => ?_, fun c os hup hos hbytes => ?_, fun c chunks hcut => ?_⟩
  · obtain ⟨n', hn', -⟩ := hinv.step hi
    exact ⟨n', hn'⟩
  · obtain ⟨q, out, -, htaken, hout⟩ := hinv.input c hup
    rw [← hout]
    exact performed_of_taken hos htaken hbytes
  · have href := hinv.refines
    obtain ⟨hfront, hall⟩ := hinv.accepted c
    rw [href.sent] at hfront hall
    obtain ⟨told, htold, haccepted⟩ := List.prefix_map_iff.1 hfront
    obtain ⟨b, hb, hempty⟩ := Client.receive_publications (fun p hp => href.inbox_unbroken c p (htold.subset hp))
      (by rw [hcut, haccepted])
    refine ⟨b, told, hb, hempty, htold, fun hopen => htold.eq_of_length ?_⟩
    have hlen := congrArg List.length (haccepted.symm.trans (hall hopen))
    simpa using hlen

/-- One connection subscribes to `t`, in two pieces, and another publishes `x` there. -/
theorem hub_end_to_end_once : ∃ n, Network.Steps .init
    [.up 1, .up 2, .read 1 5 [115, 117, 98, 32], .read 1 6 [116, 13, 10], .read 2 7 (Client.publish [116] [120])] n ∧
      ∀ chunks : List (List UInt8), chunks.flatten = (n.accepted 1).flatten →
        ∃ b told, Client.receive true Buffer.new chunks = some (b, told, []) ∧ b.readableBytes = 0 ∧
          told <+: (Broker.run n.log).inbox 1 ∧ (n.shut 1 = false → told = (Broker.run n.log).inbox 1) := by
  have hrun : Network.Steps .init
      [.up 1, .up 2, .read 1 5 [115, 117, 98, 32], .read 1 6 [116, 13, 10], .read 2 7 (Client.publish [116] [120])] _ :=
    Run.of_exec _ _ (by decide +kernel)
  exact ⟨_, hrun, (hub_end_to_end hrun).2.2 1⟩

end Hub
end ChatReactor
