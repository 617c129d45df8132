import ChatReactor.SudokuServer
import ChatReactor.Lib.Runs

/-!
# The Sudoku server with a thread pool (`excercises/sudoku/server_threadpool.cc`)

| here | there |
| --- | --- |
| `onLine` | `processRequest`, with what `onMessage` does with its result |
| `Task` | the `boost::bind(&solve, conn, puzzle, id)` given to `threadPool_.run` |
| `solve` | `SudokuServer::solve` |
| `Event.read` | `readFd` and the call of `onMessage` |
| `Event.round` | one round of its loop |
| `Event.task` | a worker runs a task, any of those that wait |

The loop is the one of the basic server; only the answer to a request is sent later, by a worker, and `send` drops it
if the loop has shut the connection down in the meantime. `Shadow` is the basic server on the same reads, beside the
one with the pool: as long as the connection is up, what the pool has sent and has still to send is what the basic one
has sent. `LateRefusal` says which reads the two servers may answer differently.
-/

namespace ChatReactor

open Lines SudokuServer

namespace SudokuThreadPool

structure Task where
  id : List UInt8
  puzzle : List UInt8
  deriving DecidableEq

structure State where
  conn : Peer
  tasks : List Task
  buf : Buffer
  /-- The loop of `onMessage` is running. -/
  parsing : Bool

def init : State := { conn := .new, tasks := [], buf := .new, parsing := false }

/-- What the loop does with a complete line. -/
def poolLine (x : Peer × List Task) (request : List UInt8) : (Peer × List Task) × Bool :=
  let (id, puzzle) := splitRequest request
  if puzzle.length = kCells then ((x.1, x.2 ++ [⟨id, puzzle⟩]), true)
  else (((x.1.send badRequest).shutdown, x.2), false)

def onLine (x : Peer × List Task) (request : List UInt8) : Option ((Peer × List Task) × Bool) := some (poolLine x request)

def onTooLong (x : Peer × List Task) : Peer × List Task := ((x.1.send idTooLong).shutdown, x.2)

def solve (conn : Peer) (task : Task) : Option Peer := do
  let result ← solveSudoku task.puzzle
  some (conn.send (reply task.id result))

inductive Event
  | read (chunk : List UInt8)
  | round
  | task (i : Nat)

def step (w : State) : Event → Option State
  | .read chunk => do
    let (_, buf) ← w.buf.readFd (some chunk)
    some { w with buf := buf, parsing := true }
  | .round => do
    let (x, goOn) ← lineRound onLine onTooLong (w.conn, w.tasks) w.buf
    some { conn := x.1.1, tasks := x.1.2, buf := x.2, parsing := goOn }
  | .task i => do
    let task ← w.tasks[i]?
    let conn ← solve w.conn task
    some { w with conn := conn, tasks := w.tasks.eraseIdx i }

/-- The loop thread reads when `onMessage` has returned; a worker takes a task that is there. -/
def Event.Legal (w : State) : Event → Prop
  | .read _ => w.parsing = false
  | .round => w.parsing = true
  | .task i => i < w.tasks.length

instance (w : State) : (e : Event) → Decidable (e.Legal w)
  | .read _ => inferInstanceAs (Decidable (w.parsing = false))
  | .round => inferInstanceAs (Decidable (w.parsing = true))
  | .task i => inferInstanceAs (Decidable (i < w.tasks.length))

abbrev Steps := Run step fun w e => e.Legal w

/-- The reads of a schedule. -/
def chunksOf (es : List Event) : List (List UInt8) := es.filterMap fun
  | .read chunk => some chunk
  | _ => none

/-- A schedule of these reads in which every task has been run. -/
structure Schedule (chunks : List (List UInt8)) (es : List Event) (w : State) : Prop where
  steps : Steps init es w
  reads : chunksOf es = chunks
  returned : w.parsing = false
  tasks : w.tasks = []

/-! ## Beside the basic server -/

/-- What the task will send. -/
def Task.reply (task : Task) : List UInt8 := SudokuServer.reply task.id ((solveSudoku task.puzzle).getD [])

/-- The connection and the tasks of this server, and the connection of the basic one. -/
structure Beside (x : Peer × List Task) (conn : Peer) : Prop where
  connected : x.1.connected = conn.connected
  up : conn.connected = true → (x.1.sent ++ x.2.map Task.reply).Perm conn.sent
  down : conn.connected = false → conn.sent.length = 1 → x.1.sent = conn.sent
  good : ∀ task ∈ x.2, task.puzzle.length = kCells

variable {x : Peer × List Task} {conn : Peer}

/-- A message and a shutdown, on both sides. Without a task nothing is lost by it. -/
theorem Beside.shutdown (h : Beside x conn) (message : List UInt8) :
    Beside ((x.1.send message).shutdown, x.2) (conn.send message).shutdown where
  connected := rfl
  up hup := by cases hup
  down _ hlen := by
    simp only [Peer.shutdown_sent] at hlen ⊢
    cases hconn : conn.connected with
    | true =>
      rw [Peer.send_up hconn] at hlen ⊢
      rw [Peer.send_up (h.connected.trans hconn)]
      -- the message is all that was sent
      have hnil : conn.sent = [] := by simpa using hlen
      have hperm := h.up hconn
      rw [hnil] at hperm ⊢
      rw [(List.append_eq_nil_iff.1 hperm.eq_nil).1]
    | false =>
      rw [Peer.send_down hconn] at hlen ⊢
      rw [Peer.send_down (h.connected.trans hconn)]
      exact h.down hconn hlen
  good := h.good

theorem Beside.tooLong (h : Beside x conn) : Beside (onTooLong x) (SudokuServer.onTooLong conn) := h.shutdown idTooLong

theorem Beside.line (request : List UInt8) (h : Beside x conn) :
    Beside (poolLine x request).1 (serveLine conn request).1 ∧ (poolLine x request).2 = (serveLine conn request).2 := by
  by_cases hgood : Good request
  · have hlen : (splitRequest request).2.length = kCells := hgood
    rw [serveLine_good hgood]
    simp only [poolLine, hlen, if_true, and_true]
    constructor
    · rw [Peer.send_connected]
      exact h.connected
    · intro hup
      rw [Peer.send_connected] at hup
      rw [Peer.send_up hup, List.map_append, ← List.append_assoc]
      exact (h.up hup).append_right _
    · intro hdown
      rw [Peer.send_connected] at hdown
      rw [Peer.send_down hdown]
      exact h.down hdown
    · intro task htask
      rcases List.mem_append.1 htask with htask | htask
      · exact h.good task htask
      · obtain rfl : task = _ := List.mem_singleton.1 htask
        exact hlen
  · have hlen : ¬ (splitRequest request).2.length = kCells := hgood
    rw [serveLine_bad hgood]
    simp only [poolLine, hlen, if_false, and_true]
    exact h.shutdown badRequest

theorem onLine_eq (x : Peer × List Task) (request : List UInt8) : onLine x request = some (poolLine x request) := rfl

/-- The basic server on the same reads, at the same place of its loop: it has sent to `conn` and has `q` left. -/
structure Shadow (chunks : List (List UInt8)) (w : State) (conn : Peer) (q : List UInt8) : Prop where
  buf : w.buf.Holds q
  reads : (if w.parsing then spec.run conn q else (conn, q)) = spec.reads .new [] chunks
  beside : Beside (w.conn, w.tasks) conn

theorem Shadow.init : Shadow [] SudokuThreadPool.init .new [] where
  buf := Buffer.new_holds
  reads := rfl
  beside := ⟨rfl, fun _ => .rfl, fun h => (by cases h), fun _ h => (by cases h)⟩

section
variable {chunks : List (List UInt8)} {w : State} {conn : Peer} {q : List UInt8}

theorem Shadow.read (h : Shadow chunks w conn q) (hidle : w.parsing = false) (chunk : List UInt8) :
    ∃ w', step w (.read chunk) = some w' ∧ Shadow (chunks ++ [chunk]) w' conn (q ++ chunk) ∧
      w'.parsing = true ∧ w'.conn = w.conn := by
  obtain ⟨buf, hread, hbuf⟩ := Buffer.readFd_holds h.buf chunk
  refine ⟨{ w with buf := buf, parsing := true }, by simp [step, hread], ⟨hbuf, ?_, h.beside⟩, rfl, rfl⟩
  have hreads := h.reads
  rw [hidle] at hreads
  simp only [if_true, LineLoop.reads, List.foldl_append, List.foldl_cons, List.foldl_nil] at hreads ⊢
  rw [← hreads]
  rfl

/-- A round that is not the last one takes something off what is left. -/
theorem Shadow.round (h : Shadow chunks w conn q) (hparsing : w.parsing = true) :
    ∃ w' conn' q', step w .round = some w' ∧ Shadow chunks w' conn' q' ∧ (w'.parsing = true → q'.length < q.length) ∧
      w'.conn = ((lineSpec poolLine onTooLong).round (w.conn, w.tasks) q).1.1.1 := by
  obtain ⟨buf, hround, hbuf⟩ := lineRound_spec onTooLong onLine_eq (w.conn, w.tasks) h.buf
  obtain ⟨hbeside, hrest, hon⟩ := round_beside Beside.line Beside.tooLong h.beside q
  rw [hrest] at hbuf
  rw [hon] at hround
  refine ⟨_, _, _, by rw [step, hround]; rfl, ⟨hbuf, ?_, hbeside⟩, spec.round_length, rfl⟩
  have hreads := h.reads
  rw [hparsing, if_pos rfl, LineLoop.run_round] at hreads
  exact hreads

/-- A worker sends what the basic server has sent long before, or nothing on either side. -/
theorem Shadow.task (h : Shadow chunks w conn q) {i : Nat} (hi : i < w.tasks.length) :
    ∃ w', step w (.task i) = some w' ∧ Shadow chunks w' conn q ∧ w'.parsing = w.parsing ∧
      w'.tasks.length < w.tasks.length ∧ (w.conn.connected = false → w'.conn = w.conn) := by
  obtain ⟨task, htask⟩ : ∃ task, w.tasks[i]? = some task := ⟨_, List.getElem?_eq_getElem hi⟩
  obtain ⟨hi', heq⟩ := List.getElem?_eq_some_iff.1 htask
  have hperm : (task :: w.tasks.eraseIdx i).Perm w.tasks := heq ▸ List.getElem_cons_eraseIdx_perm hi
  obtain ⟨result, hresult⟩ := solveSudoku_returns (h.beside.good task (hperm.subset (by simp)))
  have hreply : SudokuServer.reply task.id result = task.reply := by rw [Task.reply, hresult, Option.getD_some]
  refine ⟨{ w with conn := w.conn.send task.reply, tasks := w.tasks.eraseIdx i }, ?_, ⟨h.buf, h.reads, ?_, ?_, ?_, ?_⟩,
    rfl, ?_, fun hdown => Peer.send_down hdown _⟩
  · simp [step, htask, solve, hresult, hreply]
  · rw [Peer.send_connected]
    exact h.beside.connected
  · intro hup
    have hup' := h.beside.connected.trans hup
    rw [Peer.send_up hup', List.append_assoc]
    exact ((hperm.map Task.reply).append_left _).trans (h.beside.up hup)
  · intro hdown
    rw [Peer.send_down (h.beside.connected.trans hdown)]
    exact h.beside.down hdown
  · intro task' htask'
    exact h.beside.good task' (hperm.subset (List.mem_cons_of_mem _ htask'))
  · rw [List.length_eraseIdx_of_lt hi]
    omega

/-- The reads of one event. -/
theorem Shadow.step (h : Shadow chunks w conn q) {e : Event} (hl : e.Legal w) {w' : State}
    (hw' : SudokuThreadPool.step w e = some w') : ∃ conn' q', Shadow (chunks ++ chunksOf [e]) w' conn' q' := by
  cases e with
  | read chunk =>
    obtain ⟨w₁, hw₁, hshadow, -⟩ := h.read hl chunk
    cases hw'.symm.trans hw₁
    exact ⟨_, _, hshadow⟩
  | round =>
    obtain ⟨w₁, conn', q', hw₁, hshadow, -⟩ := h.round hl
    cases hw'.symm.trans hw₁
    exact ⟨conn', q', by simpa [chunksOf] using hshadow⟩
  | task i =>
    obtain ⟨w₁, hw₁, hshadow, -⟩ := h.task hl
    cases hw'.symm.trans hw₁
    exact ⟨_, _, by simpa [chunksOf] using hshadow⟩

theorem Shadow.steps (h : Shadow chunks w conn q) {es : List Event} {w' : State} (hrun : Steps w es w') :
    ∃ conn' q', Shadow (chunks ++ chunksOf es) w' conn' q' := by
  induction hrun generalizing chunks conn q with
  | nil => exact ⟨conn, q, by simpa [chunksOf] using h⟩
  | @cons w w₁ w' e es hl he _ ih =>
    obtain ⟨conn₁, q₁, h₁⟩ := h.step hl he
    obtain ⟨conn', q', h'⟩ := ih h₁
    refine ⟨conn', q', ?_⟩
    rwa [List.append_assoc, show chunksOf [e] ++ chunksOf es = chunksOf (e :: es) by
      rw [chunksOf, chunksOf, ← List.filterMap_append, List.singleton_append, chunksOf]] at h'

/-- At the end of a schedule the basic server stands where these reads leave it. -/
theorem Schedule.beside {es : List Event} (h : Schedule chunks es w) :
    Beside (w.conn, []) (spec.reads .new [] chunks).1 := by
  obtain ⟨conn, q, hshadow⟩ := Shadow.init.steps h.steps
  have hreads := hshadow.reads
  rw [h.returned, List.nil_append, h.reads] at hreads
  have hbeside := hshadow.beside
  rw [h.tasks] at hbeside
  rw [← hreads]
  exact hbeside

/-! ## The schedule in which the workers are late -/

/-- Nothing has been sent, or only the message before the shutdown. -/
def Late (conn : Peer) : Prop := if conn.connected then conn.sent = [] else conn.sent.length = 1

theorem Late.shutdown (h : Late conn) (message : List UInt8) : Late (conn.send message).shutdown := by
  unfold Late at h ⊢
  rw [Peer.shutdown_connected, if_neg Bool.false_ne_true, Peer.shutdown_sent]
  cases hconn : conn.connected with
  | true =>
    rw [hconn, if_pos rfl] at h
    rw [Peer.send_up hconn, h]
    rfl
  | false =>
    rw [hconn, if_neg Bool.false_ne_true] at h
    rwa [Peer.send_down hconn]

theorem Late.round (h : Late x.1) (q : List UInt8) : Late ((lineSpec poolLine onTooLong).round x q).1.1.1 := by
  refine LineLoop.round_invariant _ (P := fun x : Peer × List Task => Late x.1) ?_ ?_ h q
  · intro x request hx
    change Late (poolLine x request).1.1
    simp only [poolLine]
    split_ifs
    · exact hx
    · exact hx.shutdown badRequest
  · intro x hx
    exact hx.shutdown idTooLong

/-- The loop returns by itself. -/
theorem Shadow.returns (h : Shadow chunks w conn q) (hlate : Late w.conn) (hparsing : w.parsing = true) :
    ∃ es w' conn' q', Steps w es w' ∧ chunksOf es = [] ∧ Shadow chunks w' conn' q' ∧ w'.parsing = false ∧
      Late w'.conn := by
  induction hn : q.length using Nat.strongRecOn generalizing w conn q with
  | ind k ih =>
    subst hn
    obtain ⟨w₁, conn₁, q₁, hw₁, h₁, hlt, hconn₁⟩ := h.round hparsing
    have hlate₁ : Late w₁.conn := hconn₁ ▸ Late.round hlate q
    cases hp : w₁.parsing with
    | false => exact ⟨[.round], w₁, conn₁, q₁, .cons hparsing hw₁ (.nil w₁), rfl, h₁, hp, hlate₁⟩
    | true =>
      obtain ⟨es, w', conn', q', hrun, hchunks, h', hp', hlate'⟩ := ih _ (hlt hp) h₁ hlate₁ hp rfl
      exact ⟨.round :: es, w', conn', q', .cons hparsing hw₁ hrun, hchunks, h', hp', hlate'⟩

theorem exists_late (chunks : List (List UInt8)) :
    ∃ es w conn q, Steps init es w ∧ chunksOf es = chunks ∧ Shadow chunks w conn q ∧ w.parsing = false ∧ Late w.conn := by
  induction chunks using List.reverseRecOn with
  | nil => exact ⟨[], init, .new, [], .nil _, rfl, Shadow.init, rfl, rfl⟩
  | append_singleton chunks chunk ih =>
    obtain ⟨es, w, conn, q, hrun, hchunks, h, hidle, hlate⟩ := ih
    obtain ⟨w₁, hw₁, h₁, hparsing, hconn⟩ := h.read hidle chunk
    obtain ⟨es', w', conn', q', hrun', hchunks', h', hidle', hlate'⟩ := h₁.returns (hconn ▸ hlate) hparsing
    refine ⟨es ++ .read chunk :: es', w', conn', q', hrun.append (.cons hidle hw₁ hrun'), ?_, h', hidle', hlate'⟩
    rw [chunksOf] at hchunks hchunks' ⊢
    simp [List.filterMap_append, hchunks, hchunks']

/-- The tasks that are left can be run, which does not show on a connection that has been shut down. -/
theorem Shadow.drain (h : Shadow chunks w conn q) (hidle : w.parsing = false) :
    ∃ es w', Steps w es w' ∧ chunksOf es = [] ∧ w'.parsing = false ∧ w'.tasks = [] ∧
      (w.conn.connected = false → w'.conn = w.conn) := by
  induction hn : w.tasks.length using Nat.strongRecOn generalizing w with
  | ind k ih =>
    subst hn
    cases htasks : w.tasks with
    | nil => exact ⟨[], w, .nil w, rfl, hidle, htasks, fun _ => rfl⟩
    | cons task tasks =>
      have hi : 0 < w.tasks.length := by simp [htasks]
      obtain ⟨w₁, hw₁, h₁, hidle₁, hlt, hconn₁⟩ := h.task hi
      obtain ⟨es, w', hrun, hchunks, hidle', htasks', hconn'⟩ := ih _ hlt h₁ (hidle₁.trans hidle) rfl
      refine ⟨.task 0 :: es, w', .cons hi hw₁ hrun, hchunks, hidle', htasks', fun hdown => ?_⟩
      have hconn := hconn₁ hdown
      rw [hconn' (hconn ▸ hdown), hconn]

end

/-! ## The reads that are refused -/

/-- What the loop shuts the connection down for: a line that is no request, or too long a part of one. -/
def Refusal (rest : List UInt8) : Prop :=
  (∃ line t, rest = line ++ 13 :: 10 :: t ∧ Unbroken 13 10 line ∧ ¬ Good line ∧ kCells + 2 ≤ rest.length) ∨
    Unbroken 13 10 rest ∧ 100 < rest.length

/-- The bytes are requests, and behind them something that is refused. -/
def RefusedAfter (requests : List (List UInt8)) (stream : List UInt8) : Prop :=
  ∃ rest, stream = text 13 10 requests rest ∧ (∀ request ∈ requests, Unbroken 13 10 request ∧ Good request) ∧ Refusal rest

/-- In the first reads that are refused there are requests before what is refused. -/
def LateRefusal (chunks : List (List UInt8)) : Prop :=
  ∃ reads requests, reads <+: chunks ∧ RefusedAfter requests reads.flatten ∧ requests ≠ [] ∧
    ∀ reads', reads' <+: reads → reads' ≠ reads → ∀ requests', ¬ RefusedAfter requests' reads'.flatten

theorem run_refusal (hup : conn.connected = true) {rest : List UInt8} (h : Refusal rest) :
    (spec.run conn rest).1.connected = false ∧ (spec.run conn rest).1.sent.length = conn.sent.length + 1 := by
  have hsent (message : List UInt8) : ((conn.send message).shutdown).sent.length = conn.sent.length + 1 := by
    rw [Peer.shutdown_sent, Peer.send_up hup, List.length_append, List.length_singleton]
  rcases h with ⟨line, t, rfl, hline, hbad, hlen⟩ | ⟨htail, hlong⟩
  · have hrun := spec.run_line (s := conn) (t := t) hline hlen
    rw [show spec.line conn line = _ from serveLine_bad hbad conn] at hrun
    change spec.run conn (line ++ 13 :: 10 :: t) = ((conn.send badRequest).shutdown, t) at hrun
    rw [hrun]
    exact ⟨rfl, hsent badRequest⟩
  · have hrun := spec.run_tail (s := conn) htail (Nat.le_trans (by decide) hlong.le)
    rw [if_pos (by exact hlong)] at hrun
    rw [hrun]
    exact ⟨rfl, hsent idTooLong⟩

/-- Every request is answered, and then the connection is shut down. -/
theorem run_refusedAfter {requests : List (List UInt8)} {stream : List UInt8} (h : RefusedAfter requests stream)
    (hup : conn.connected = true) :
    (spec.run conn stream).1.connected = false ∧
      (spec.run conn stream).1.sent.length = conn.sent.length + requests.length + 1 := by
  obtain ⟨rest, rfl, hgood, hrefusal⟩ := h
  induction requests generalizing conn with
  | nil => exact run_refusal hup hrefusal
  | cons request requests ih =>
    obtain ⟨hunbroken, hreq⟩ := hgood request List.mem_cons_self
    have hlen : kCells + 2 ≤ (request ++ 13 :: 10 :: text 13 10 requests rest).length := by
      have := hreq.length.1
      simp only [kCells, List.length_append, List.length_cons]
      omega
    have hrun := spec.run_line (s := conn) hunbroken hlen
    rw [show spec.line conn request = _ from serveLine_good hreq conn] at hrun
    have hup' : (conn.send (answer request)).connected = true := by rwa [Peer.send_connected]
    obtain ⟨hdown, hsent⟩ := ih hup' fun r hr => hgood r (List.mem_cons_of_mem _ hr)
    rw [text_cons]
    change spec.run conn (request ++ 13 :: 10 :: text 13 10 requests rest) = spec.run _ _ at hrun
    rw [hrun, hsent, Peer.send_up hup, List.length_append, List.length_singleton, List.length_cons]
    exact ⟨hdown, by omega⟩

/-- Nothing else shuts the connection down. -/
theorem refusedAfter_of_run (hup : conn.connected = true) {stream : List UInt8}
    (h : (spec.run conn stream).1.connected = false) : ∃ requests, RefusedAfter requests stream := by
  induction stream using lines_induction (a := (13 : UInt8)) (b := 10) generalizing conn with
  | tail q hq =>
    by_cases hlen : q.length < kCells + 2
    · rw [spec.run_short hlen, hup] at h
      cases h
    · rw [spec.run_tail hq (Nat.not_lt.1 hlen)] at h
      by_cases hlong : 100 < q.length
      · exact ⟨[], q, rfl, by simp, .inr ⟨hq, hlong⟩⟩
      · rw [if_neg (by exact hlong), hup] at h
        cases h
  | line l t hl ih =>
    by_cases hlen : (l ++ 13 :: 10 :: t).length < kCells + 2
    · rw [spec.run_short hlen, hup] at h
      cases h
    by_cases hgood : Good l
    · have hrun := spec.run_line (s := conn) (t := t) hl (Nat.not_lt.1 hlen)
      rw [show spec.line conn l = _ from serveLine_good hgood conn] at hrun
      change spec.run conn (l ++ 13 :: 10 :: t) = spec.run _ t at hrun
      rw [hrun] at h
      obtain ⟨requests, rest, rfl, hrequests, hrefusal⟩ := ih (by rwa [Peer.send_connected]) h
      refine ⟨l :: requests, rest, (text_cons ..).symm, fun r hr => ?_, hrefusal⟩
      rcases List.mem_cons.1 hr with rfl | hr
      · exact ⟨hl, hgood⟩
      · exact hrequests r hr
    · exact ⟨[], _, rfl, by simp, .inl ⟨l, t, rfl, hl, hgood, Nat.not_lt.1 hlen⟩⟩

/-- The basic server refuses late exactly if it shuts the connection down behind an answer. -/
theorem lateRefusal_iff (chunks : List (List UInt8)) : LateRefusal chunks ↔
    (spec.reads .new [] chunks).1.connected = false ∧ (spec.reads .new [] chunks).1.sent.length ≠ 1 := by
  have hnew : ¬ Peer.new.connected = false := by decide
  have hdown {requests reads} (h : RefusedAfter requests reads) := run_refusedAfter h (show Peer.new.connected = true from rfl)
  rcases spec_ends.reads_cases hnew chunks with ⟨hup, -, hall⟩ | ⟨hdead, p, hp, hrun, hfirst, hobs⟩
  · constructor
    · rintro ⟨reads, requests, hreads, hrefused, -⟩
      exact absurd (hdown hrefused).1 (hall reads hreads)
    · rintro ⟨h, -⟩
      exact absurd h hup
  · obtain ⟨requests, hrefused⟩ := refusedAfter_of_run (by decide) hrun
    have hfirst' : ∀ p', p' <+: p → p' ≠ p → ∀ requests', ¬ RefusedAfter requests' p'.flatten :=
      fun p' hp' hne requests' h => hfirst p' hp' hne (hdown h).1
    have hlen := (hdown hrefused).2
    rw [← hobs, show Peer.new.sent.length = 0 from rfl] at hlen
    constructor
    · rintro ⟨reads, requests', hreads, hrefused', hne, hfirst''⟩
      refine ⟨hdead, ?_⟩
      -- both are the first reads that are refused
      obtain rfl : reads = p := by
        by_contra hneq
        rcases List.prefix_or_prefix_of_prefix hreads hp with hle | hle
        · exact hfirst' reads hle hneq requests' hrefused'
        · exact hfirst'' p hle (Ne.symm hneq) requests hrefused
      have hlen' := (hdown hrefused').2
      rw [← hobs, show Peer.new.sent.length = 0 from rfl] at hlen'
      have hpos := List.length_pos_iff.2 hne
      omega
    · rintro ⟨-, hsent⟩
      refine ⟨p, requests, hp, hrefused, ?_, hfirst'⟩
      rintro rfl
      exact hsent hlen

/-- **Exactly when the pool changes nothing.** For any reads there is a schedule that runs every task; and what is sent
is the same lines as the basic server sends in every such schedule if and only if the reads are not refused behind a
request. -/
theorem threadpool_replies_iff (chunks : List (List UInt8)) :
    ∃ conn buf, receive chunks = some (conn, buf) ∧ (∃ es w, Schedule chunks es w) ∧
      ((∀ es w, Schedule chunks es w → w.conn.sent.Perm conn.sent) ↔ ¬ LateRefusal chunks) := by
  obtain ⟨buf, hreceive, -⟩ := receive_spec chunks
  obtain ⟨es, w, conn, q, hrun, hchunks, hshadow, hidle, hlate⟩ := exists_late chunks
  obtain ⟨es', w', hrun', hchunks', hidle', htasks', hconn'⟩ := hshadow.drain hidle
  have hschedule : Schedule chunks (es ++ es') w' := by
    refine ⟨hrun.append hrun', ?_, hidle', htasks'⟩
    rw [chunksOf] at hchunks hchunks' ⊢
    rw [List.filterMap_append, hchunks, hchunks', List.append_nil]
  rw [lateRefusal_iff]
  refine ⟨_, buf, hreceive, ⟨_, _, hschedule⟩, ?_, fun hcond es w h => ?_⟩
  · -- the late schedule has sent one message
    rintro hall ⟨hup, hsent⟩
    have hreads := hshadow.reads
    rw [hidle, if_neg Bool.false_ne_true] at hreads
    have hdown : w.conn.connected = false := by rw [hshadow.beside.connected, ← hup, ← hreads]
    rw [Late, hdown, if_neg Bool.false_ne_true] at hlate
    exact hsent (by rw [← (hall _ _ hschedule).length_eq, hconn' hdown, hlate])
  · have hbeside := h.beside
    cases hup : (spec.reads .new [] chunks).1.connected with
    | true => simpa using hbeside.up hup
    | false =>
      rw [not_and, not_not] at hcond
      rw [hbeside.down hup (hcond hup)]

/-- A request and a line that is none in one read; the worker comes to the request behind the shutdown. -/
theorem threadpool_loses_reply :
    (receive [List.replicate 81 120 ++ crlf ++ List.replicate 82 120 ++ crlf]).map (fun x => x.1.sent) =
      some [kNoSolution ++ crlf, badRequest] ∧
    ∃ w, Schedule [List.replicate 81 120 ++ crlf ++ List.replicate 82 120 ++ crlf]
        [.read (List.replicate 81 120 ++ crlf ++ List.replicate 82 120 ++ crlf), .round, .round, .task 0] w ∧
      w.conn.sent = [badRequest] := by
  refine ⟨by decide +kernel, _, ⟨Run.of_exec _ _ (by decide +kernel), rfl, ?_, ?_⟩, ?_⟩
  · decide +kernel
  · decide +kernel
  · decide +kernel

end SudokuThreadPool
end ChatReactor
