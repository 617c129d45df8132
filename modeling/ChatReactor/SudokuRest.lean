import ChatReactor.SudokuAccounts
import Mathlib.Algebra.BigOperators.Group.Finset.Piecewise

/-!
# The Sudoku server at rest

What the invariant says when all loops poll and the pool has nothing to do, and that the server gets there.
-/

namespace ChatReactor

open Lines SudokuServer

namespace SudokuProd

variable {n L : Nat}

/-! ## When all work is done -/

/-- The reads of a connection. -/
def chunksOf (c : Fin n) (events : List (Server.Event n L)) : List (List UInt8) :=
  ((events.filterMap Server.Event.chunk).filter (·.1 = c)).map (·.2)

/-- The lines of a connection that are none, with those that are too long. -/
def badsOf (numThreads : Nat) (chunks : List (List UInt8)) : Nat :=
  (linesOf numThreads chunks).1.countP (fun request => (goodRequest numThreads request).isNone) + (linesOf numThreads chunks).2

/-- All loops poll, and there is nothing to do for the workers. -/
structure Server.Done (w : Server n L) : Prop where
  loops : ∀ l, w.loops l = .poll
  queue : w.queue = []
  workers : w.workers = []

/-- A request with whether it was solved or refused. -/
abbrev Outcome := (List UInt8 × List UInt8) × Bool

def Outcome.message (x : Outcome) : List UInt8 := reply x.1.1 (if x.2 then (solveSudoku x.1.2).getD [] else serverTooBusy)

def Entry.outcome : Entry → Option Outcome
  | .answered id puzzle => some ((id, puzzle), true)
  | .refused id puzzle => some ((id, puzzle), false)
  | _ => none

def Server.outcomes (w : Server n L) (c : Fin n) : List Outcome := (w.entries c).filterMap Entry.outcome

theorem Server.count_eq_sum (w : Server n L) (p : Entry → Bool) : w.count p = ∑ c, (w.entries c).countP p := by
  simp only [Server.count, Server.entries]
  induction w.log with
  | nil => simp
  | cons x log ih =>
    have hone (c : Fin n) : (((x :: log).filter (·.1 = c)).map (·.2)).countP p =
        ((log.filter (·.1 = c)).map (·.2)).countP p + if x.1 = c then (if p x.2 then 1 else 0) else 0 := by
      by_cases hc : x.1 = c
      · simp [hc, List.countP_cons]
      · simp [hc]
    rw [List.countP_cons, ih, Finset.sum_congr rfl fun c _ => hone c, Finset.sum_add_distrib, Finset.sum_ite_eq]
    simp

/-- What is picked from the entries of one connection. -/
theorem Server.filterMap_entries {α : Type} (w : Server n L) (c : Fin n) (f : Entry → Option α) :
    (w.entries c).filterMap f =
      ((w.log.filterMap fun x => (f x.2).map (x.1, ·)).filter (·.1 = c)).map (·.2) := by
  simp only [Server.entries]
  induction w.log with
  | nil => rfl
  | cons x log ih =>
    by_cases hc : x.1 = c <;> cases hf : f x.2 <;> simp [hc, hf, ih]

section
variable {cfg : Config n L} {events : List (Server.Event n L)} {w : Server n L}

theorem Inv.chunks_of (h : Inv cfg events w) (c : Fin n) : (w.entries c).filterMap Entry.chunk = chunksOf c events := by
  rw [Server.filterMap_entries, h.chunks, chunksOf]

theorem Inv.tally_of (h : Inv cfg events w) (hdone : w.Done) (c : Fin n) :
    tallyOf (w.entries c) = linesOf cfg.numThreads (chunksOf c events) := by
  obtain ⟨q, -, hreads⟩ := (h.conn_of (hdone.loops (cfg.loopOf c))).parsed_ended rfl
  rw [h.chunks_of] at hreads
  rw [linesOf, ← hreads]

theorem Inv.lines_of (h : Inv cfg events w) (hdone : w.Done) (c : Fin n) :
    (w.entries c).filterMap Entry.line = (linesOf cfg.numThreads (chunksOf c events)).1 := congrArg Prod.fst (h.tally_of hdone c)

theorem Inv.totalRequests (h : Inv cfg events w) (hdone : w.Done) :
    w.stat.totalRequests = (∑ c, (linesOf cfg.numThreads (chunksOf c events)).1.length : Nat) := by
  rw [h.ledger.requests, Server.count_eq_sum]
  refine congrArg _ (Finset.sum_congr rfl fun c _ => ?_)
  rw [← h.lines_of hdone, List.length_filterMap_eq_countP]
  exact List.countP_congr fun e _ => by cases e <;> simp [Entry.isTaken, Entry.line]

theorem Inv.badRequests (h : Inv cfg events w) (hdone : w.Done) :
    w.stat.badRequests =
      (∑ c, badsOf cfg.numThreads (chunksOf c events) + events.countP Server.Event.isHigh : Nat) := by
  have hbad := h.ledger.bad
  simp only [hdone.loops, Doing.rejecting, Finset.sum_const_zero, Nat.cast_zero, Int.add_zero] at hbad
  rw [hbad, ← h.highs, Server.count_eq_sum, Server.count_eq_sum, ← Finset.sum_add_distrib]
  refine congrArg _ (Finset.sum_congr rfl fun c _ => ?_)
  rw [badsOf, ← h.lines_of hdone, ← congrArg Prod.snd (h.tally_of hdone c), List.countP_filterMap]
  induction w.entries c with
  | nil => rfl
  | cons e es ih => cases e <;> simp [Entry.isBad, Entry.line, tallyOf, List.countP_cons] at ih ⊢ <;> omega

theorem Inv.totalResponses (h : Inv cfg events w) (hdone : w.Done) :
    w.stat.totalResponses = (∑ c, (w.outcomes c).countP (·.2) : Nat) := by
  have hresponses := h.ledger.responses
  simp only [hdone.loops, hdone.workers, Doing.unrecorded, Finset.sum_const_zero, List.map_nil, List.sum_nil, Nat.cast_zero,
    Int.add_zero] at hresponses
  rw [hresponses, Server.count_eq_sum]
  refine congrArg _ (Finset.sum_congr rfl fun c _ => ?_)
  rw [Server.outcomes, List.countP_filterMap]
  exact List.countP_congr fun e _ => by cases e <;> simp [Entry.isAnswered, Entry.outcome]

theorem Inv.droppedRequests (h : Inv cfg events w) (hdone : w.Done) :
    w.stat.droppedRequests = (∑ c, (w.outcomes c).countP (!·.2) : Nat) := by
  have hdropped := h.ledger.dropped
  simp only [hdone.loops, Doing.undropped, Finset.sum_const_zero, Nat.cast_zero, Int.add_zero] at hdropped
  rw [hdropped, Server.count_eq_sum]
  refine congrArg _ (Finset.sum_congr rfl fun c _ => ?_)
  rw [Server.outcomes, List.countP_filterMap]
  exact List.countP_congr fun e _ => by cases e <;> simp [Entry.isRefused, Entry.outcome]

end

end SudokuProd
end ChatReactor
