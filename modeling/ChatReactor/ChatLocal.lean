import ChatReactor.Buffer
import ChatReactor.Lib.OrdSet
import ChatReactor.Lib.Runs
import ChatReactor.Lib.TaskQueue
import Mathlib.Logic.Function.Basic

/-!
# The chat server with thread-local connections (`excercises/chatServer/server_threaded_highperformance.cc`)

| here | there |
| --- | --- |
| `EventLoopThreadPool` | `EventLoopThreadPool` (`EventLoopThreadPool.cc:22-54`): `start`, `getNextLoop` |
| `LocalServer.threadInitCallback` | `TcpServer::threadInitCallback_` is set (`TcpServer.h:51-52`) |
| `LocalServer.queue` | `pendingFunctors_` of each loop |
| `LocalServer.localConnections` | `LocalConnections::instance()` of the thread of each loop |
| `LocalServer.loops` | `ChatServer::loops_` |
| `LocalServer.home` | the `ioLoop` of a connection |
| `start` | `ChatServer::start` (`:35-39`) and `TcpServer::start` (`TcpServer.cc:41-53`) |
| `newConnection`, `removeConnection` | the members of `TcpServer` (`TcpServer.cc:55-77` and `:80-98`) |
| `onConnection` … `distributeMessage` | the members of `ChatServer` (`:42-86`) |

Loop `0` is the base loop; the pool has the loops `1 .. n`. A connection is its number.

`TcpServer::start` calls `threadPool_->start()` without the callback it was given, and neither the pool nor
`EventLoopThread::threadFunc` has one to call: `threadInit` never runs, `loops_` stays empty, and no message is
ever queued in a loop (`loops_covered_iff`).
-/

namespace ChatReactor

abbrev Loop := Nat

/-! ## The pool -/

structure EventLoopThreadPool where
  started : Bool
  numThreads : Nat
  loops : List Loop
  next : Nat
deriving DecidableEq, Repr

namespace EventLoopThreadPool

def new : EventLoopThreadPool := ⟨false, 0, [], 0⟩

/-- Each new thread makes its loop and runs it. -/
def start (p : EventLoopThreadPool) : Option EventLoopThreadPool := do
  check (p.started = false)
  return { p with started := true, loops := (List.range p.numThreads).map (· + 1) }

/-- Round robin; the base loop if there are no threads. -/
def getNextLoop (p : EventLoopThreadPool) : Option (Loop × EventLoopThreadPool) :=
  if p.loops.isEmpty then some (0, p)
  else do
    let loop ← p.loops[p.next]?
    return (loop, { p with next := if p.loops.length ≤ p.next + 1 then 0 else p.next + 1 })

end EventLoopThreadPool

/-! ## The server -/

namespace LocalServer

abbrev Conn := Nat
abbrev Str := List UInt8

inductive Functor
  | connectEstablished (conn : Conn)
  | connectDestroyed (conn : Conn)
  | removeConnectionInLoop (conn : Conn)
  | distributeMessage (message : Str)
deriving DecidableEq, Repr

end LocalServer

structure LocalServer where
  threadPool : EventLoopThreadPool
  threadInitCallback : Bool
  started : Bool
  nextConnId : Nat
  /-- `TcpServer::connections_` -/
  connections : OrdSet LocalServer.Conn
  home : LocalServer.Conn → Loop
  queue : Loop → TaskQueue LocalServer.Functor
  localConnections : Loop → OrdSet LocalServer.Conn
  loops : OrdSet Loop
  sent : List (LocalServer.Conn × LocalServer.Str)

namespace LocalServer

def new (numThreads : Nat) : LocalServer where
  threadPool := { EventLoopThreadPool.new with numThreads }
  threadInitCallback := false
  started := false
  nextConnId := 1
  connections := .empty
  home _ := 0
  queue _ := ⟨[], []⟩
  localConnections _ := .empty
  loops := .empty
  sent := []

/-- `ChatServer::threadInit`, on the thread of a loop. -/
def threadInit (s : LocalServer) (loop : Loop) : LocalServer := { s with loops := s.loops.insert loop }

/-- `setThreadInitCallback`, then `TcpServer::start`. -/
def start (s : LocalServer) : Option LocalServer := do
  let s := { s with threadInitCallback := true }
  if s.started = false then
    let threadPool ← s.threadPool.start
    return { s with started := true, threadPool }
  else return s

/-- `loop->queueInLoop(f)` -/
def queueInLoop (s : LocalServer) (loop : Loop) (f : LocalServer.Functor) : LocalServer :=
  { s with queue := Function.update s.queue loop ((s.queue loop).push f) }

/-- The connection callback, on the thread of `loop`. -/
def onConnection (s : LocalServer) (loop : Loop) (conn : Conn) (connected : Bool) : LocalServer :=
  let list := s.localConnections loop
  let list := if connected then list.insert conn else list.erase conn
  { s with localConnections := Function.update s.localConnections loop list }

/-- `TcpServer::newConnection`, on the thread of the base loop: `runInLoop` runs `connectEstablished` at once if the
connection is the base loop's. -/
def newConnection (s : LocalServer) : Option LocalServer := do
  let (ioLoop, threadPool) ← s.threadPool.getNextLoop
  let conn := s.nextConnId
  let s := { s with
    threadPool
    nextConnId := s.nextConnId + 1
    connections := s.connections.insert conn
    home := Function.update s.home conn ioLoop }
  return if ioLoop = 0 then s.onConnection 0 conn true else s.queueInLoop ioLoop (.connectEstablished conn)

def removeConnectionInLoop (s : LocalServer) (conn : Conn) : Option LocalServer := do
  check (conn ∈ s.connections)
  let s := { s with connections := s.connections.erase conn }
  return s.queueInLoop (s.home conn) (.connectDestroyed conn)

/-- `TcpServer::removeConnection`, called by `handleClose` on the thread of the connection. -/
def removeConnection (s : LocalServer) (conn : Conn) : Option LocalServer :=
  if s.home conn = 0 then s.removeConnectionInLoop conn
  else some (s.queueInLoop 0 (.removeConnectionInLoop conn))

/-- The loop over `loops_` queues the functor in each of them. -/
def onStringMessage (s : LocalServer) (message : Str) : LocalServer :=
  s.loops.elems.foldl (fun s loop => s.queueInLoop loop (.distributeMessage message)) s

/-- The loop over the connections of the thread. -/
def distributeMessage (s : LocalServer) (loop : Loop) (message : Str) : LocalServer :=
  { s with sent := s.sent ++ (s.localConnections loop).elems.map fun conn => (conn, message) }

/-- A functor, on the thread of `loop`. -/
def call (s : LocalServer) (loop : Loop) : LocalServer.Functor → Option LocalServer
  | .connectEstablished conn => some (s.onConnection loop conn true)
  | .connectDestroyed conn => some (s.onConnection loop conn false)
  | .removeConnectionInLoop conn => s.removeConnectionInLoop conn
  | .distributeMessage message => some (s.distributeMessage loop message)

inductive Event
  | newConnection
  | onStringMessage (conn : Conn) (message : Str)
  | close (conn : Conn)
  | swap (loop : Loop)
  | functor (loop : Loop)
deriving DecidableEq, Repr

def step (s : LocalServer) : Event → Option LocalServer
  | .newConnection => s.newConnection
  | .onStringMessage _ message => some (s.onStringMessage message)
  | .close conn => s.removeConnection conn
  | .swap loop => some { s with queue := Function.update s.queue loop (s.queue loop).swap }
  | .functor loop =>
    match (s.queue loop).batch with
    | [] => none
    | f :: fs => ({ s with queue := Function.update s.queue loop { s.queue loop with batch := fs } } : LocalServer).call loop f

/-- Messages and closes come from connections that are registered; a drain runs its batch to the end. -/
def Event.Legal (s : LocalServer) : Event → Prop
  | .newConnection => True
  | .onStringMessage conn _ => conn ∈ s.localConnections (s.home conn)
  | .close conn => conn ∈ s.localConnections (s.home conn)
  | .swap loop => (s.queue loop).batch = []
  | .functor _ => True

instance (s : LocalServer) : ∀ e : Event, Decidable (e.Legal s)
  | .newConnection | .functor _ => .isTrue trivial
  | .onStringMessage conn _ | .close conn => inferInstanceAs (Decidable (conn ∈ s.localConnections (s.home conn)))
  | .swap _ => inferInstanceAs (Decidable (_ = _))

abbrev Steps : LocalServer → List Event → LocalServer → Prop := Run step fun s e => e.Legal s

/-- Every loop that owns connections is in `loops_`. -/
def Covered (s : LocalServer) : Prop := ∀ loop, (s.localConnections loop).elems ≠ [] → loop ∈ s.loops

/-- The event registers a connection in the loop: `connectEstablished` runs. -/
def Event.Registers (s : LocalServer) : Event → Loop → Prop
  | .newConnection, loop => loop = 0 ∧ ∃ p, s.threadPool.getNextLoop = some (0, p)
  | .functor l, loop => loop = l ∧ ∃ conn fs, (s.queue l).batch = .connectEstablished conn :: fs
  | .onStringMessage _ _, _ | .close _, _ | .swap _, _ => False

/-! ## What a message does -/

/-- A message that arrives is queued once in each loop of `loops_` and nowhere else. -/
theorem queue_onStringMessage (s : LocalServer) (message : Str) (loop : Loop) :
    ((s.onStringMessage message).queue loop).all =
      (s.queue loop).all ++ if loop ∈ s.loops then [.distributeMessage message] else [] := by
  have hfold : ∀ (l : List Loop) (s : LocalServer), l.Nodup →
      ((l.foldl (fun s loop => s.queueInLoop loop (.distributeMessage message)) s).queue loop).all =
        (s.queue loop).all ++ if loop ∈ l then [.distributeMessage message] else [] := by
    intro l
    induction l with
    | nil => intro s _; simp
    | cons x l ih =>
      intro s hnodup
      obtain ⟨hx, hl⟩ := List.nodup_cons.1 hnodup
      rw [List.foldl_cons, ih _ hl]
      by_cases hloop : loop = x
      · simp [queueInLoop, hloop, hx]
      · simp [queueInLoop, hloop]
  exact hfold s.loops.elems s s.loops.nodup

/-! ## What a step does -/

/-- Where a functor in a queue can come from. -/
inductive Queued (s : LocalServer) (loop : Loop) : LocalServer.Functor → Prop
  | old {f : LocalServer.Functor} : f ∈ (s.queue loop).all → Queued s loop f
  | established (conn : Conn) {p : EventLoopThreadPool} : s.threadPool.getNextLoop = some (loop, p) →
      Queued s loop (.connectEstablished conn)
  | destroyed (conn : Conn) : Queued s loop (.connectDestroyed conn)
  | remove (conn : Conn) : Queued s loop (.removeConnectionInLoop conn)
  | message (m : Str) : loop ∈ s.loops → Queued s loop (.distributeMessage m)

structure Moves (s : LocalServer) (e : Event) (s' : LocalServer) : Prop where
  loops : s'.loops = s.loops
  pool : s'.threadPool.loops = s.threadPool.loops
  registered : ∀ loop, e.Registers s loop → (s'.localConnections loop).elems ≠ []
  from_registers : ∀ loop conn, conn ∈ s'.localConnections loop → conn ∈ s.localConnections loop ∨ e.Registers s loop
  queued : ∀ loop f, f ∈ (s'.queue loop).all → Queued s loop f
  sent : s'.sent = s.sent ∨ ∃ loop m, .distributeMessage m ∈ (s.queue loop).all

variable {s : LocalServer} {loop : Loop}

theorem mem_queueInLoop {l : Loop} {f g : LocalServer.Functor} (h : f ∈ ((s.queueInLoop l g).queue loop).all) :
    f ∈ (s.queue loop).all ∨ (loop = l ∧ f = g) := by
  by_cases hl : loop = l
  · subst hl
    simpa [queueInLoop] using h
  · exact .inl (by simpa [queueInLoop, hl] using h)

theorem mem_onConnection {l : Loop} {conn c : Conn} {connected : Bool}
    (h : c ∈ (s.onConnection l conn connected).localConnections loop) :
    c ∈ s.localConnections loop ∨ (loop = l ∧ connected = true) := by
  by_cases hl : loop = l
  · subst hl
    cases connected with
    | true => exact .inr ⟨rfl, rfl⟩
    | false => exact .inl (OrdSet.mem_erase.1 (by simpa [onConnection] using h)).2
  · exact .inl (by simpa [onConnection, hl] using h)

theorem onConnection_registers (s : LocalServer) (l : Loop) (conn : Conn) :
    ((s.onConnection l conn true).localConnections l).elems ≠ [] := by
  have h : conn ∈ (s.onConnection l conn true).localConnections l := by simp [onConnection]
  exact List.ne_nil_of_mem (OrdSet.mem_def.1 h)

theorem getNextLoop_loops {p p' : EventLoopThreadPool} (h : p.getNextLoop = some (loop, p')) :
    p'.loops = p.loops ∧ (loop ∈ p.loops ∨ (p.loops = [] ∧ loop = 0)) := by
  rw [EventLoopThreadPool.getNextLoop] at h
  split at h
  · rename_i hempty
    cases h
    exact ⟨rfl, .inr ⟨List.isEmpty_iff.1 hempty, rfl⟩⟩
  · obtain ⟨l, hl, h⟩ := Option.bind_eq_some_iff.1 h
    cases h
    exact ⟨rfl, .inl (List.mem_of_getElem? hl)⟩

variable {s' : LocalServer}

theorem moves_newConnection (h : s.newConnection = some s') : Moves s .newConnection s' := by
  obtain ⟨⟨ioLoop, p⟩, hnext, h⟩ := Option.bind_eq_some_iff.1 h
  obtain ⟨hpool, -⟩ := getNextLoop_loops hnext
  by_cases hbase : ioLoop = 0
  · subst hbase
    cases h
    refine ⟨rfl, hpool, ?_, fun loop conn hc => ?_, fun loop f hf => .old hf, .inl rfl⟩
    · rintro loop ⟨rfl, -⟩
      exact onConnection_registers _ 0 _
    · rcases mem_onConnection hc with hc | ⟨rfl, -⟩
      · exact .inl hc
      · exact .inr ⟨rfl, p, hnext⟩
  · simp only [if_neg hbase, Option.pure_def, Option.some.injEq] at h
    subst h
    refine ⟨rfl, hpool, ?_, fun loop conn hc => .inl hc, fun loop f hf => ?_, .inl rfl⟩
    · rintro loop ⟨-, p', hp'⟩
      rw [hnext, Option.some.injEq, Prod.mk.injEq] at hp'
      exact absurd hp'.1 hbase
    · rcases mem_queueInLoop hf with hf | ⟨rfl, rfl⟩
      · exact .old hf
      · exact .established _ hnext

theorem removeConnectionInLoop_eq {conn : Conn} (h : s.removeConnectionInLoop conn = some s') :
    s' = ({ s with connections := s.connections.erase conn } : LocalServer).queueInLoop (s.home conn) (.connectDestroyed conn) := by
  obtain ⟨_, _, h⟩ := Option.bind_eq_some_iff.1 h
  exact (Option.some.inj h).symm

/-- Taking a functor off a queue brings nothing new to any queue. -/
theorem mem_of_mem_popped {l : Loop} {f g : LocalServer.Functor} {fs : List LocalServer.Functor}
    (hbatch : (s.queue l).batch = f :: fs)
    (hg : g ∈ ((Function.update s.queue l { s.queue l with batch := fs }) loop).all) : g ∈ (s.queue loop).all := by
  by_cases hl : loop = l
  · subst hl
    rw [Function.update_self] at hg
    rw [TaskQueue.all_of_batch hbatch]
    exact List.mem_cons_of_mem f hg
  · rwa [Function.update_of_ne hl] at hg

theorem moves_functor {l : Loop} (h : step s (.functor l) = some s') : Moves s (.functor l) s' := by
  rw [step] at h
  split at h
  · cases h
  rename_i f fs hbatch
  have hother : (∀ conn, f ≠ .connectEstablished conn) → ∀ loop, ¬ Event.Registers s (.functor l) loop := by
    rintro hne loop ⟨-, conn, fs', hfs'⟩
    rw [hbatch, List.cons.injEq] at hfs'
    exact hne conn hfs'.1
  cases f with
  | connectEstablished conn =>
    cases h
    refine ⟨rfl, rfl, ?_, fun loop c hc => ?_, fun loop g hg => .old (mem_of_mem_popped hbatch hg), .inl rfl⟩
    · rintro loop ⟨rfl, -⟩
      exact onConnection_registers _ loop conn
    · rcases mem_onConnection hc with hc | ⟨rfl, -⟩
      · exact .inl hc
      · exact .inr ⟨rfl, conn, fs, hbatch⟩
  | connectDestroyed conn =>
    cases h
    refine ⟨rfl, rfl, fun loop hr => absurd hr (hother (by simp) loop), fun loop c hc => ?_,
      fun loop g hg => .old (mem_of_mem_popped hbatch hg), .inl rfl⟩
    rcases mem_onConnection hc with hc | ⟨-, hf⟩
    · exact .inl hc
    · cases hf
  | removeConnectionInLoop conn =>
    rw [removeConnectionInLoop_eq h]
    refine ⟨rfl, rfl, fun loop hr => absurd hr (hother (by simp) loop), fun loop c hc => .inl hc, fun loop g hg => ?_, .inl rfl⟩
    rcases mem_queueInLoop hg with hg | ⟨-, rfl⟩
    · exact .old (mem_of_mem_popped hbatch hg)
    · exact .destroyed conn
  | distributeMessage m =>
    cases h
    have hmem : .distributeMessage m ∈ (s.queue l).all := by
      rw [TaskQueue.all_of_batch hbatch]
      exact List.mem_cons_self
    exact ⟨rfl, rfl, fun loop hr => absurd hr (hother (by simp) loop), fun loop c hc => .inl hc,
      fun loop g hg => .old (mem_of_mem_popped hbatch hg), .inr ⟨l, m, hmem⟩⟩

/-- `onStringMessage` touches the queues only. -/
theorem onStringMessage_fields (s : LocalServer) (m : Str) : (s.onStringMessage m).loops = s.loops ∧
    (s.onStringMessage m).threadPool = s.threadPool ∧ (s.onStringMessage m).localConnections = s.localConnections ∧
    (s.onStringMessage m).sent = s.sent := by
  have hsame : ∀ (l : List Loop) (s : LocalServer),
      let s' := l.foldl (fun s loop => s.queueInLoop loop (.distributeMessage m)) s
      s'.loops = s.loops ∧ s'.threadPool = s.threadPool ∧ s'.localConnections = s.localConnections ∧ s'.sent = s.sent := by
    intro l
    induction l with
    | nil => exact fun s => ⟨rfl, rfl, rfl, rfl⟩
    | cons x l ih => exact fun s => ih _
  exact hsame s.loops.elems s

theorem moves_onStringMessage (s : LocalServer) (conn : Conn) (m : Str) :
    Moves s (.onStringMessage conn m) (s.onStringMessage m) := by
  obtain ⟨hloops, hpool, hlocal, hsent⟩ := onStringMessage_fields s m
  refine ⟨hloops, by rw [hpool], fun _ hr => hr.elim, fun loop c hc => .inl ?_, fun loop f hf => ?_, .inl hsent⟩
  · rwa [hlocal] at hc
  · rw [queue_onStringMessage] at hf
    rcases List.mem_append.1 hf with hf | hf
    · exact .old hf
    · split at hf
      · rename_i hmem
        rw [List.mem_singleton.1 hf]
        exact .message m hmem
      · cases hf

theorem moves_close {conn : Conn} (h : s.removeConnection conn = some s') : Moves s (.close conn) s' := by
  rw [removeConnection] at h
  split at h
  · rw [removeConnectionInLoop_eq h]
    refine ⟨rfl, rfl, fun _ hr => hr.elim, fun loop c hc => .inl hc, fun loop f hf => ?_, .inl rfl⟩
    rcases mem_queueInLoop hf with hf | ⟨-, rfl⟩
    · exact .old hf
    · exact .destroyed conn
  · cases h
    refine ⟨rfl, rfl, fun _ hr => hr.elim, fun loop c hc => .inl hc, fun loop f hf => ?_, .inl rfl⟩
    rcases mem_queueInLoop hf with hf | ⟨-, rfl⟩
    · exact .old hf
    · exact .remove conn

theorem step_moves {e : Event} (hleg : e.Legal s) (h : step s e = some s') : Moves s e s' := by
  cases e with
  | newConnection => exact moves_newConnection h
  | onStringMessage conn m =>
    cases h
    exact moves_onStringMessage s conn m
  | close conn => exact moves_close h
  | swap l =>
    cases h
    refine ⟨rfl, rfl, fun _ hr => hr.elim, fun loop c hc => .inl hc, fun loop f hf => .old ?_, .inl rfl⟩
    dsimp only at hf
    by_cases hl : loop = l
    · subst hl
      rwa [Function.update_self, TaskQueue.all_swap hleg] at hf
    · rwa [Function.update_of_ne hl] at hf
  | functor l => exact moves_functor h

/-- A step keeps the loops covered exactly if it registers connections only in loops of `loops_`. -/
theorem Moves.covered_iff {e : Event} (hm : Moves s e s') (h : s.Covered) :
    s'.Covered ↔ ∀ loop, e.Registers s loop → loop ∈ s.loops := by
  constructor
  · intro h' loop hr
    have := h' loop (hm.registered loop hr)
    rwa [hm.loops] at this
  · intro hr loop hne
    rw [hm.loops]
    obtain ⟨conn, hconn⟩ := List.exists_mem_of_ne_nil _ hne
    rcases hm.from_registers loop conn (OrdSet.mem_def.2 hconn) with hold | hreg
    · exact h loop (List.ne_nil_of_mem (OrdSet.mem_def.1 hold))
    · exact hr loop hreg

/-! ## Runs of the server as it is -/

/-- Nothing in `loops_`, no message in a queue, nothing sent. -/
structure Silent (s : LocalServer) : Prop where
  loops : ∀ loop, loop ∉ s.loops
  queued : ∀ loop m, .distributeMessage m ∉ (s.queue loop).all
  sent : s.sent = []

theorem start_spec {n : Nat} (h : (new n).start = some s) :
    s.Silent ∧ (∀ loop, s.localConnections loop = .empty) ∧ (∀ loop, (s.queue loop).all = []) := by
  cases h
  exact ⟨⟨fun loop => OrdSet.not_mem_empty loop, fun loop m => by simp [new, TaskQueue.all], rfl⟩, fun _ => rfl, fun _ => rfl⟩

theorem Silent.step {e : Event} (h : s.Silent) (hm : Moves s e s') : s'.Silent where
  loops := by rw [hm.loops]; exact h.loops
  queued := by
    intro loop m hmem
    cases hm.queued loop _ hmem with
    | old hold => exact h.queued loop m hold
    | message _ hloop => exact h.loops loop hloop
  sent := by
    rcases hm.sent with hs | ⟨loop, m, hmem⟩
    · rw [hs, h.sent]
    · exact absurd hmem (h.queued loop m)

/-- **Every loop that owns connections is in `loops_`** all along a run of the started server if and only if the run
registers no connection, for any number of threads: `loops_` is empty in every state, and no message is ever
sent to anybody. What a message would do in a loop of `loops_` is as intended: it is queued there once, and sent once
to each connection that is registered when the loop comes to it. -/
theorem loops_covered_iff (n : Nat) {s₀ s : LocalServer} {es : List Event} (hstart : (new n).start = some s₀)
    (h : Steps s₀ es s) :
    ((∀ es₁ es₂ s₁, es = es₁ ++ es₂ → Steps s₀ es₁ s₁ → s₁.Covered) ↔
      Run LocalServer.step (fun s e => e.Legal s ∧ ∀ loop, ¬ e.Registers s loop) s₀ es s) ∧
    (∀ loop, loop ∉ s.loops) ∧ s.sent = [] ∧
    (∀ m loop, ((s.onStringMessage m).queue loop).all =
      (s.queue loop).all ++ if loop ∈ s.loops then [.distributeMessage m] else []) ∧
    (∀ m loop, (s.distributeMessage loop m).sent = s.sent ++ (s.localConnections loop).elems.map (fun conn => (conn, m)) ∧
      (s.localConnections loop).elems.Nodup) := by
  obtain ⟨hsilent₀, hlocal₀, -⟩ := start_spec hstart
  have hcovered₀ : s₀.Covered := fun loop hne => absurd (by rw [hlocal₀]; rfl) hne
  have hsilent : ∀ {es : List Event} {s : LocalServer}, Steps s₀ es s → s.Silent := fun hrun =>
    hrun.invariant Silent (fun hs hl hstep => hs.step (step_moves hl hstep)) hsilent₀
  refine ⟨?_, (hsilent h).loops, (hsilent h).sent, queue_onStringMessage s, fun m loop => ⟨rfl, (s.localConnections loop).nodup⟩⟩
  rw [← Run.always_iff (I := fun s => s.Silent ∧ s.Covered) ?_ h ⟨hsilent₀, hcovered₀⟩]
  · exact ⟨fun hall es₁ es₂ s₁ heq hrun => ⟨hsilent hrun, hall es₁ es₂ s₁ heq hrun⟩,
      fun hall es₁ es₂ s₁ heq hrun => (hall es₁ es₂ s₁ heq hrun).2⟩
  · intro s e s' hI hl hstep
    have hm := step_moves hl hstep
    rw [and_iff_right (hI.1.step hm), hm.covered_iff hI.2]
    exact ⟨fun hr loop hreg => hI.1.loops loop (hr loop hreg), fun hr loop hreg => absurd hreg (hr loop)⟩

/-- Two threads and a connection that has been accepted but not yet established. -/
theorem loops_covered_accepted : ∃ s₀, (new 2).start = some s₀ ∧
    ∀ es₁ es₂ s₁, [.newConnection] = es₁ ++ es₂ → Steps s₀ es₁ s₁ → s₁.Covered := by
  obtain ⟨s₀, hstart⟩ : ∃ s₀, (new 2).start = some s₀ := ⟨_, rfl⟩
  obtain ⟨s, hs⟩ : ∃ s, s₀.newConnection = some s := by
    cases hstart
    exact ⟨_, rfl⟩
  have hrun : Steps s₀ [.newConnection] s := .cons trivial hs (.nil s)
  -- the connection goes to the first loop of the pool
  have hpool : ∀ p, s₀.threadPool.getNextLoop ≠ some (0, p) := by
    cases hstart
    intro p hp
    cases hp
  refine ⟨s₀, hstart, (loops_covered_iff 2 hstart hrun).1.2 (.cons ⟨trivial, ?_⟩ hs (.nil s))⟩
  rintro loop ⟨-, p, hp⟩
  exact hpool p hp

/-- One connection is established on its loop and sends a message, to which no loop ever comes. -/
theorem message_not_distributed : ∃ s₀ s, (new 2).start = some s₀ ∧
    Steps s₀ [.newConnection, .swap 1, .functor 1, .onStringMessage 1 [104]] s ∧ (s.localConnections 1).elems = [1] ∧
      1 ∉ s.loops ∧ ∀ loop < 3, (s.queue loop).all = [] := by
  refine ⟨_, _, rfl, Run.of_exec _ _ (by decide +kernel), by decide +kernel, by decide +kernel, by decide +kernel⟩

/-! ## With the callback -/

/-- The loops that connections can be given to have had their `threadInit`. -/
structure Ready (s : LocalServer) : Prop where
  covered : s.Covered
  pool : ∀ loop ∈ s.threadPool.loops, loop ∈ s.loops
  base : s.threadPool.loops = [] → 0 ∈ s.loops
  queued : ∀ loop conn, .connectEstablished conn ∈ (s.queue loop).all → loop ∈ s.loops

theorem Ready.nextLoop (h : s.Ready) {p : EventLoopThreadPool} (hnext : s.threadPool.getNextLoop = some (loop, p)) :
    loop ∈ s.loops := by
  rcases (getNextLoop_loops hnext).2 with hmem | ⟨hempty, rfl⟩
  · exact h.pool loop hmem
  · exact h.base hempty

theorem Ready.step {e : Event} (h : s.Ready) (hm : Moves s e s') : s'.Ready where
  covered := by
    refine (hm.covered_iff h.covered).2 fun loop hreg => ?_
    cases e with
    | newConnection =>
      obtain ⟨rfl, p, hnext⟩ := hreg
      exact h.nextLoop hnext
    | functor l =>
      obtain ⟨rfl, conn, fs, hbatch⟩ := hreg
      exact h.queued loop conn (by simp [TaskQueue.all, hbatch])
    | onStringMessage conn m => exact hreg.elim
    | close conn => exact hreg.elim
    | swap l => exact hreg.elim
  pool := by rw [hm.loops, hm.pool]; exact h.pool
  base := by rw [hm.loops, hm.pool]; exact h.base
  queued := by
    intro loop conn hmem
    rw [hm.loops]
    cases hm.queued loop _ hmem with
    | old hold => exact h.queued loop conn hold
    | established _ hnext => exact h.nextLoop hnext

theorem mem_foldl_threadInit : ∀ (l : List Loop) (s : LocalServer) {loop : Loop},
    loop ∈ (l.foldl threadInit s).loops ↔ loop ∈ l ∨ loop ∈ s.loops
  | [], s, loop => by simp
  | x :: l, s, loop => by
    rw [List.foldl_cons, mem_foldl_threadInit l, threadInit, OrdSet.mem_insert, List.mem_cons, or_left_comm, or_assoc]

/-- **What is missing is the call.** If `threadInit` ran for the base loop and for every loop of the pool, every loop
that owns connections would be in `loops_` in every state of every run. -/
theorem covered_of_threadInit {n : Nat} {s₀ : LocalServer} {es : List Event} (hstart : (new n).start = some s₀)
    (h : Steps ((0 :: s₀.threadPool.loops).foldl threadInit s₀) es s) : s.Covered := by
  have hframe : ∀ (l : List Loop) (s : LocalServer), (l.foldl threadInit s).threadPool = s.threadPool ∧
      (l.foldl threadInit s).queue = s.queue ∧ (l.foldl threadInit s).localConnections = s.localConnections := by
    intro l
    induction l with
    | nil => exact fun s => ⟨rfl, rfl, rfl⟩
    | cons x l ih => exact fun s => ih _
  obtain ⟨hpool, hqueue, hlocal⟩ := hframe (0 :: s₀.threadPool.loops) s₀
  obtain ⟨-, hlocal₀, hqueue₀⟩ := start_spec hstart
  refine (h.invariant Ready (fun hs hl hstep => hs.step (step_moves hl hstep)) ⟨?_, ?_, ?_, ?_⟩).covered
  · intro loop hne
    rw [hlocal, hlocal₀] at hne
    exact absurd rfl hne
  · intro loop hmem
    rw [hpool] at hmem
    exact (mem_foldl_threadInit _ _).2 (.inl (List.mem_cons_of_mem _ hmem))
  · exact fun _ => (mem_foldl_threadInit _ _).2 (.inl List.mem_cons_self)
  · intro loop conn hmem
    rw [hqueue, hqueue₀] at hmem
    cases hmem

end LocalServer
end ChatReactor
