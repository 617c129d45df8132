import ChatReactor.Lib.OrdSet
import ChatReactor.Lib.Runs
import ChatReactor.Lib.SharedPtr

/-!
# The copy-on-write chat server (`excercises/chatServer/server_threaded_efficient.cc`)

| here | there |
| --- | --- |
| `EfficientServer.heap` | the `ConnectionList` objects, with the `use_count` of each |
| `EfficientServer.connections` | `connections_` |
| `Broadcast` | a call of `onStringMessage` under way: its `connections`, its iterator, its message |
| `onConnection` | `ChatServer::onConnection` (`:42-63`), the section under `mutex_` |
| `getConnectionList` | `ChatServer::getConnectionList` (`:80-85`), called by `onStringMessage` |
| `send`, `drop` | a round of the loop of `onStringMessage` (`:68-78`); its return |

A call of `onConnection` goes on behind its assert, as it does where `assert` is compiled out; `assertsHeld` says
whether all of them held. A `Broadcast` remembers what its list was (`snapshot`) when it got it.

Copy-on-write copies a list that is *not* unique. `onConnection` copies one that is, so that a broadcast which
holds the current list makes the assert fail (`snapshots_intact_iff`).
-/

namespace ChatReactor

namespace EfficientServer

abbrev Thread := Nat
abbrev Conn := Nat

structure Broadcast where
  thread : Thread
  message : List UInt8
  connections : Nat
  it : Option Conn
  /-- The list as `getConnectionList` returned it. -/
  snapshot : OrdSet Conn

end EfficientServer

structure EfficientServer where
  heap : SharedHeap (OrdSet EfficientServer.Conn)
  connections : Nat
  broadcasts : List EfficientServer.Broadcast
  sent : List (EfficientServer.Conn × List UInt8)
  assertsHeld : Bool

namespace EfficientServer

/-- `connections_(new ConnectionList)` -/
def init : EfficientServer := ⟨.single .empty, 0, [], [], true⟩

/-- The `ConnectionList` that `connections_` points to. -/
def current (s : EfficientServer) : OrdSet Conn := s.heap.mem s.connections

/-- `if (connections_.unique()) connections_.reset(new ConnectionList(*connections_));` -/
def copyOnWrite (s : EfficientServer) : EfficientServer :=
  if s.heap.unique s.connections then { s with heap := s.heap.reset s.connections s.current, connections := s.heap.next }
  else s

def onConnection (s : EfficientServer) (conn : Conn) (connected : Bool) : EfficientServer :=
  let s := s.copyOnWrite
  { s with
    assertsHeld := s.assertsHeld && s.heap.unique s.connections
    heap := s.heap.modify s.connections fun l => if connected then l.insert conn else l.erase conn }

def getConnectionList (s : EfficientServer) (thread : Thread) (message : List UInt8) : EfficientServer :=
  { s with
    heap := s.heap.acquire s.connections
    broadcasts := ⟨thread, message, s.connections, s.current.elems.head?, s.current⟩ :: s.broadcasts }

/-- The broadcast a thread is in. -/
def broadcast (s : EfficientServer) (thread : Thread) : Option Broadcast := s.broadcasts.find? fun b => b.thread = thread

/-- `codec_.send(get_pointer(*it), message); ++it` -/
def send (s : EfficientServer) (thread : Thread) : Option EfficientServer := do
  let b ← s.broadcast thread
  let conn ← b.it
  return { s with
    broadcasts := s.broadcasts.map fun b' =>
      if b'.thread = thread then { b' with it := (s.heap.mem b'.connections).next conn } else b'
    sent := s.sent ++ [(conn, b.message)] }

/-- `connections` goes out of scope. -/
def drop (s : EfficientServer) (thread : Thread) : Option EfficientServer := do
  let b ← s.broadcast thread
  return { s with heap := s.heap.release b.connections, broadcasts := s.broadcasts.eraseP fun b => b.thread = thread }

inductive Event
  | onConnection (thread : Thread) (conn : Conn) (connected : Bool)
  | onStringMessage (thread : Thread) (message : List UInt8)
  | send (thread : Thread)
  | drop (thread : Thread)
deriving DecidableEq, Repr

def step (s : EfficientServer) : Event → Option EfficientServer
  | .onConnection _ conn connected => some (s.onConnection conn connected)
  | .onStringMessage thread message => some (s.getConnectionList thread message)
  | .send thread => s.send thread
  | .drop thread => s.drop thread

/-- A thread is in one broadcast at a time and does nothing else meanwhile; it drops its list at the end. -/
def Event.Legal (s : EfficientServer) : Event → Prop
  | .onConnection thread _ _ => s.broadcast thread = none
  | .onStringMessage thread _ => s.broadcast thread = none
  | .send _ => True
  | .drop thread => ∀ b, s.broadcast thread = some b → b.it = none

instance (s : EfficientServer) : ∀ e : Event, Decidable (e.Legal s)
  | .onConnection thread _ _ => decidable_of_iff ((s.broadcast thread).isNone = true) Option.isNone_iff_eq_none
  | .onStringMessage thread _ => decidable_of_iff ((s.broadcast thread).isNone = true) Option.isNone_iff_eq_none
  | .send _ => .isTrue trivial
  | .drop thread => decidable_of_iff (∀ b ∈ s.broadcast thread, b.it = none) Iff.rfl

abbrev Steps : EfficientServer → List Event → EfficientServer → Prop := Run step fun s e => e.Legal s

/-- No assert has failed, and the list of every broadcast under way is what it was when the broadcast got it. -/
def Intact (s : EfficientServer) : Prop :=
  s.assertsHeld = true ∧ ∀ b ∈ s.broadcasts, s.heap.mem b.connections = b.snapshot

/-- `onConnection` runs while no broadcast holds the current list. -/
def Event.Apart (s : EfficientServer) : Event → Prop
  | .onConnection _ _ _ => ∀ b ∈ s.broadcasts, b.connections ≠ s.connections
  | _ => True

instance (s : EfficientServer) : ∀ e : Event, Decidable (e.Apart s)
  | .onConnection _ _ _ => inferInstanceAs (Decidable (∀ b ∈ s.broadcasts, b.connections ≠ s.connections))
  | .onStringMessage _ _ | .send _ | .drop _ => .isTrue trivial

/-! ## Use counts -/

/-- The pointers to lists: `connections_`, and one for each broadcast. -/
def pointers (s : EfficientServer) : List Nat := s.connections :: s.broadcasts.map Broadcast.connections

def Counted (s : EfficientServer) : Prop := s.heap.Counts s.pointers

theorem Counted.init : Counted init := SharedHeap.Counts.single _

theorem Counted.unique_iff {s : EfficientServer} (h : s.Counted) :
    s.heap.unique s.connections = true ↔ ∀ b ∈ s.broadcasts, b.connections ≠ s.connections := by
  rw [SharedHeap.Counts.unique_iff h]
  simp

theorem Counted.copyOnWrite {s : EfficientServer} (h : s.Counted) : s.copyOnWrite.Counted := by
  rw [EfficientServer.copyOnWrite]
  split
  · exact SharedHeap.Counts.reset h _
  · exact h

/-- What each step does to the counts. -/
theorem Counted.step {s s' : EfficientServer} {e : Event} (h : s.Counted) (hs : step s e = some s') : s'.Counted := by
  cases e with
  | onConnection thread conn connected =>
    cases hs
    exact SharedHeap.Counts.modify h.copyOnWrite s.copyOnWrite.connections
      fun l => if connected then l.insert conn else l.erase conn
  | onStringMessage thread message =>
    cases hs
    exact (SharedHeap.Counts.acquire h (by simp [pointers])).perm (List.Perm.swap _ _ _)
  | send thread =>
    obtain ⟨b, hb, hrest⟩ := Option.bind_eq_some_iff.1 hs
    obtain ⟨conn, hit, hs'⟩ := Option.bind_eq_some_iff.1 hrest
    cases hs'
    have hsame : ∀ l : List Broadcast, (l.map fun b' => if b'.thread = thread then
        { b' with it := (s.heap.mem b'.connections).next conn } else b').map Broadcast.connections =
        l.map Broadcast.connections := by
      intro l
      rw [List.map_map]
      refine List.map_congr_left fun b' _ => ?_
      simp only [Function.comp_apply]
      split <;> rfl
    rw [Counted, pointers, hsame]
    exact h
  | drop thread =>
    obtain ⟨b, hb, hs'⟩ := Option.bind_eq_some_iff.1 hs
    cases hs'
    have hmem := List.mem_of_find?_eq_some hb
    have hthread := List.find?_some hb
    obtain ⟨b', l₁, l₂, hfirst, hb', hsplit, herase⟩ := List.exists_of_eraseP (p := fun b => decide (b.thread = thread)) hmem hthread
    have hbb : b' = b := by
      have hnone : l₁.find? (fun b => decide (b.thread = thread)) = none :=
        List.find?_eq_none.2 fun x hx => by simpa using hfirst x hx
      rw [broadcast, hsplit, List.find?_append, hnone, List.find?_cons, hb'] at hb
      exact Option.some.inj hb
    rw [Counted, pointers, herase]
    refine SharedHeap.Counts.release (h.perm ?_)
    rw [pointers, hsplit, hbb]
    simp only [List.map_append, List.map_cons]
    exact (List.perm_middle.cons _).trans (List.Perm.swap _ _ _)

/-! ## Snapshots -/

theorem Intact.init : Intact init := ⟨rfl, by simp [EfficientServer.init]⟩

/-- `onConnection` keeps the snapshots and its assert exactly if no broadcast holds the current list. -/
theorem Intact.onConnection_iff {s : EfficientServer} (hc : s.Counted) (h : s.Intact) (conn : Conn) (connected : Bool) :
    (s.onConnection conn connected).Intact ↔ ∀ b ∈ s.broadcasts, b.connections ≠ s.connections := by
  obtain ⟨hheld, hsnap⟩ := h
  rw [← hc.unique_iff]
  by_cases hu : s.heap.unique s.connections = true
  · -- the copy is new, so that no broadcast has it
    have hcopy : s.copyOnWrite = { s with heap := s.heap.reset s.connections s.current, connections := s.heap.next } := by
      rw [copyOnWrite, if_pos hu]
    have hnew : (s.heap.reset s.connections s.current).unique s.heap.next = true := by simp [SharedHeap.unique, SharedHeap.reset]
    refine iff_of_true ⟨by simp [onConnection, hcopy, hheld, hnew], fun b hb => ?_⟩ hu
    have hb' : b ∈ s.broadcasts := by simpa [onConnection, hcopy] using hb
    have hlt : b.connections < s.heap.next := hc.lt_next _ (by simp [pointers]; exact .inr ⟨b, hb', rfl⟩)
    simp only [onConnection, hcopy]
    rw [SharedHeap.mem_modify_of_ne (Nat.ne_of_lt hlt), SharedHeap.mem_reset_of_lt hlt, hsnap b hb']
  · have hcopy : s.copyOnWrite = s := by rw [copyOnWrite, if_neg hu]
    refine iff_of_false (fun hi => ?_) hu
    have hfail := hi.1
    simp only [onConnection, hcopy, hheld, Bool.true_and] at hfail
    exact hu hfail

theorem Intact.step_iff {s s' : EfficientServer} {e : Event} (hc : s.Counted) (h : s.Intact) (hs : step s e = some s') :
    s'.Intact ↔ e.Apart s := by
  cases e with
  | onConnection thread conn connected =>
    cases hs
    exact h.onConnection_iff hc conn connected
  | onStringMessage thread message =>
    cases hs
    refine iff_of_true ⟨h.1, fun b hb => ?_⟩ trivial
    rcases List.mem_cons.1 hb with rfl | hb
    · rfl
    · exact h.2 b hb
  | send thread =>
    obtain ⟨b, hb, hrest⟩ := Option.bind_eq_some_iff.1 hs
    obtain ⟨conn, hit, hs'⟩ := Option.bind_eq_some_iff.1 hrest
    cases hs'
    refine iff_of_true ⟨h.1, fun b' hb' => ?_⟩ trivial
    obtain ⟨b₀, hb₀, rfl⟩ := List.mem_map.1 hb'
    split
    · exact h.2 b₀ hb₀
    · exact h.2 b₀ hb₀
  | drop thread =>
    obtain ⟨b, hb, hs'⟩ := Option.bind_eq_some_iff.1 hs
    cases hs'
    exact iff_of_true ⟨h.1, fun b' hb' => h.2 b' (List.mem_of_mem_eraseP hb')⟩ trivial

/-- **Snapshots.** All along a run no assert fails and no list changes while a broadcast holds it, if and only if
every `onConnection` of the run comes while no broadcast holds the current list. -/
theorem snapshots_intact_iff {es : List Event} {s : EfficientServer} (h : Steps init es s) :
    (∀ es₁ es₂ s₁, es = es₁ ++ es₂ → Steps init es₁ s₁ → s₁.Intact) ↔
      Run step (fun s e => e.Legal s ∧ e.Apart s) init es s := by
  have hcounted : ∀ {es : List Event} {s : EfficientServer}, Steps init es s → s.Counted := fun hrun =>
    hrun.invariant Counted (fun hc _ hs => hc.step hs) Counted.init
  rw [← Run.always_iff (I := fun s => s.Counted ∧ s.Intact) ?_ h ⟨Counted.init, Intact.init⟩]
  · exact ⟨fun hall es₁ es₂ s₁ heq hrun => ⟨hcounted hrun, hall es₁ es₂ s₁ heq hrun⟩,
      fun hall es₁ es₂ s₁ heq hrun => (hall es₁ es₂ s₁ heq hrun).2⟩
  · intro s e s' hI _ hs
    rw [and_iff_right (hI.1.step hs)]
    exact hI.2.step_iff hI.1 hs

/-- A broadcast that is over before the next connection comes up. -/
theorem snapshots_intact_apart : ∃ s,
    Steps init [.onConnection 0 1 true, .onStringMessage 0 [104], .send 0, .drop 0, .onConnection 1 2 true] s ∧
    ∀ es₁ es₂ s₁,
      [.onConnection 0 1 true, .onStringMessage 0 [104], .send 0, .drop 0, .onConnection 1 2 true] = es₁ ++ es₂ →
        Steps init es₁ s₁ → s₁.Intact :=
  have hapart : Run step (fun s e => e.Legal s ∧ e.Apart s) init _ _ := Run.of_exec _ _ (by decide +kernel)
  have hrun := hapart.mono fun _ _ h => h.1
  ⟨_, hrun, (snapshots_intact_iff hrun).2 hapart⟩

/-- While a broadcast is under way on one thread, a connection comes up on another: the assert fails, and without
the assert the list the broadcast runs over changes. -/
theorem snapshot_changes : ∃ s, Steps init [.onConnection 0 1 true, .onStringMessage 0 [104], .onConnection 1 2 true] s ∧
    s.assertsHeld = false ∧ ∃ b ∈ s.broadcasts, b.snapshot.elems = [1] ∧ (s.heap.mem b.connections).elems = [1, 2] := by
  refine ⟨_, Run.of_exec _ _ (by decide +kernel), by decide +kernel, ?_⟩
  exact ⟨_, List.mem_cons_self, by decide +kernel, by decide +kernel⟩

end EfficientServer
end ChatReactor
