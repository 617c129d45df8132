import Mathlib.Algebra.BigOperators.Group.Finset.Basic
import Mathlib.Algebra.Order.BigOperators.Group.Finset
import Mathlib.Data.Fintype.Basic
import ChatReactor.SudokuProd
import ChatReactor.SudokuWindow

/-!
# The accounts of the Sudoku server

Each line that is taken is counted by `recordRequest`, and later once more: as answered, dropped or bad. In between it is somewhere: with
an I/O loop, in the queue of the pool, or with a worker. `Ledger` adds up what is where, over all loops and workers;
`Ledger.moved` and `Ledger.worked` say that a step which is balanced at its own place keeps the sums.
-/

namespace ChatReactor

/-! ## The counters -/

namespace SudokuStat

variable {s t : SudokuStat}

/-- The four counters of the requests. -/
def counters (s : SudokuStat) : Int × Int × Int × Int :=
  (s.totalRequests, s.totalResponses, s.droppedRequests, s.badRequests)

theorem addBack_counters {elapsed_us : Int} (h : s.addBack elapsed_us = some t) : t.counters = s.counters := by
  simp only [addBack, Option.bind_eq_bind, Option.bind_eq_some_iff] at h
  obtain ⟨requests, -, latencies, -, h⟩ := h
  cases h
  rfl

theorem advance_counters (second : Int) (fuel : Nat) (s : SudokuStat) : (advance second fuel s).counters = s.counters := by
  induction fuel generalizing s with
  | zero => rfl
  | succ fuel ih =>
    unfold advance
    split
    · exact ih _
    · rfl

theorem place_counters {second elapsed_us : Int} (h : s.place second elapsed_us = some t) : t.counters = s.counters := by
  simp only [place] at h
  split_ifs at h
  · exact addBack_counters h
  · exact (addBack_counters h).trans rfl
  · exact (addBack_counters h).trans (advance_counters second _ s)
  · exact (addBack_counters h).trans rfl
  · simp only [Option.bind_eq_bind, Option.bind_eq_some_iff] at h
    obtain ⟨requests, -, latencies, -, h⟩ := h
    cases h
    rfl
  · cases h
    rfl

theorem recordResponse_counters {now receive : Int} {solved : Bool} (h : s.recordResponse now receive solved = some t) :
    t.counters = (s.totalRequests, s.totalResponses + 1, s.droppedRequests, s.badRequests) := by
  simp only [recordResponse] at h
  split_ifs at h
  · cases h
    rfl
  · simp only [Option.bind_eq_bind, Option.bind_eq_some_iff] at h
    obtain ⟨s₁, hplace, h⟩ := h
    split_ifs at h
    cases h
    exact place_counters hplace

/-- The windows do not depend on the counters. -/
theorem Exact.of_windows {rs : List Response} (h : s.Exact rs) (hlast : t.lastSecond = s.lastSecond)
    (hrequests : t.requests = s.requests) (hlatencies : t.latencies = s.latencies) : t.Exact rs where
  windows := by
    rw [hlast]
    exact ⟨by rw [hrequests, hlatencies, h.windows.sizes], hrequests ▸ h.windows.requests, hlatencies ▸ h.windows.latencies⟩
  none hnil := by rw [hlast, hrequests]; exact h.none hnil
  greatest hne := by rw [hlast]; exact h.greatest hne
  positive hne := by rw [hlast, hrequests]; exact h.positive hne

end SudokuStat

namespace SudokuProd

variable {n L : Nat}

/-! ## What is where -/

section
variable (numThreads : Nat)

/-- What a line asks for. -/
def keyOf (c : Fin n) (request : List UInt8) : Option (Fin n × List UInt8 × List UInt8) := (goodRequest numThreads request).map (c, ·)

/-- What an entry is for: a request that was taken, or was answered or refused. -/
def Entry.takes (c : Fin n) : Entry → Option (Fin n × List UInt8 × List UInt8)
  | .taken request => keyOf numThreads c request
  | _ => none

/-- An entry that `recordBadRequest` is called for. -/
def Entry.isBad : Entry → Bool
  | .taken request => (goodRequest numThreads request).isNone
  | .tooLong | .tooHigh => true
  | _ => false

/-- A request for which neither `solve` nor `ServerTooBusy` has been sent. -/
def Doing.held : Doing n → Multiset (Fin n × List UInt8 × List UInt8)
  | .processRequest c _ request => (keyOf numThreads c request).toList
  | .run c req | .tooBusy c req => {(c, req.id, req.puzzle)}
  | _ => 0

/-- `recordBadRequest` is to come. -/
def Doing.rejecting : Doing n → Nat
  | .processRequest _ _ request => if (goodRequest numThreads request).isNone then 1 else 0
  | .reject _ _ | .shutdown _ | .recordBad _ => 1
  | _ => 0

end

def Entry.settles (c : Fin n) : Entry → Option (Fin n × List UInt8 × List UInt8)
  | .answered id puzzle | .refused id puzzle => some (c, id, puzzle)
  | _ => none

def Entry.isTaken : Entry → Bool
  | .taken _ => true
  | _ => false

def Entry.isAnswered : Entry → Bool
  | .answered _ _ => true
  | _ => false

def Entry.isRefused : Entry → Bool
  | .refused _ _ => true
  | _ => false

/-- `recordResponse` is to come for an answer that was sent. -/
def Doing.unrecorded : Doing n → Nat
  | .recordResponse _ _ _ => 1
  | _ => 0

/-- `recordDroppedRequest` is to come. -/
def Doing.undropped : Doing n → Nat
  | .recordDropped _ _ => 1
  | _ => 0

def Task.key (task : Task n) : Fin n × List UInt8 × List UInt8 := (task.conn, task.req.id, task.req.puzzle)

def Worker.held : Worker n → Multiset (Fin n × List UInt8 × List UInt8)
  | .solve task => {task.key}
  | .recordResponse _ _ => 0

def Worker.unrecorded : Worker n → Nat
  | .solve _ => 0
  | .recordResponse _ _ => 1

/-- The requests taken. -/
def Server.good (numThreads : Nat) (w : Server n L) : Multiset (Fin n × List UInt8 × List UInt8) :=
  w.log.filterMap fun x => x.2.takes numThreads x.1

/-- The requests that the loops are done with. -/
def Server.settled (w : Server n L) : Multiset (Fin n × List UInt8 × List UInt8) :=
  (w.log.filterMap (fun x => x.2.settles x.1) ++ w.queue.map Task.key : List _)

/-- How many entries of a kind there are. -/
def Server.count (w : Server n L) (p : Entry → Bool) : Nat := w.log.countP fun x => p x.2

structure Ledger (cfg : Config n L) (w : Server n L) : Prop where
  requests : w.stat.totalRequests = w.count Entry.isTaken
  responses : w.stat.totalResponses + (∑ l, (w.loops l).unrecorded : Nat) + ((w.workers.map Worker.unrecorded).sum : Nat) =
    w.count Entry.isAnswered
  dropped : w.stat.droppedRequests + (∑ l, (w.loops l).undropped : Nat) = w.count Entry.isRefused
  bad : w.stat.badRequests + (∑ l, (w.loops l).rejecting cfg.numThreads : Nat) = w.count (Entry.isBad cfg.numThreads)
  held : w.good cfg.numThreads = w.settled + ∑ l, (w.loops l).held cfg.numThreads + (w.workers.map Worker.held).sum
  /-- A pool without threads has no tasks. -/
  inline : cfg.numThreads = 0 → w.queue = []

/-! ## Steps -/

/-- Where one loop changes, the sum over the loops does so by as much. -/
theorem sum_update_add {M : Type} [AddCommMonoid M] (F : Doing n → M) (loops : Fin L → Doing n) (l : Fin L) (d : Doing n) :
    ∑ x, F (Function.update loops l d x) + F (loops l) = ∑ x, F (loops x) + F d := by
  have hnew := Finset.sum_erase_add Finset.univ (fun x => F (Function.update loops l d x)) (Finset.mem_univ l)
  have hold := Finset.sum_erase_add Finset.univ (fun x => F (loops x)) (Finset.mem_univ l)
  have hrest : ∑ x ∈ Finset.univ.erase l, F (Function.update loops l d x) = ∑ x ∈ Finset.univ.erase l, F (loops x) :=
    Finset.sum_congr rfl fun x hx => by rw [Function.update_of_ne (Finset.ne_of_mem_erase hx)]
  simp only [Function.update_self] at hnew
  rw [← hnew, ← hold, hrest]
  ac_rfl

theorem sum_balance {M : Type} [AddCancelCommMonoid M] {good good' a a' sum sum' d d' rest : M} (h : good = a + sum + rest)
    (hsum : sum' + d = sum + d') (hb : good + (a' + d') = good' + (a + d)) : good' = a' + sum' + rest := by
  refine add_right_cancel (b := a + d) (hb.symm.trans ?_)
  calc good + (a' + d') = a' + rest + a + (sum + d') := by rw [h]; ac_rfl
    _ = a' + rest + a + (sum' + d) := by rw [hsum]
    _ = a' + sum' + rest + (a + d) := by ac_rfl

variable {w w' : Server n L} {es : List Entry}

theorem Server.count_append {c : Fin n} (hlog : w'.log = w.log ++ es.map (c, ·)) (p : Entry → Bool) :
    w'.count p = w.count p + es.countP p := by
  rw [Server.count, hlog, List.countP_append, List.countP_map]
  rfl

theorem Server.good_append {c : Fin n} (hlog : w'.log = w.log ++ es.map (c, ·)) (numThreads : Nat) :
    w'.good numThreads = w.good numThreads + (es.filterMap (Entry.takes numThreads c) : List _) := by
  rw [Server.good, hlog, List.filterMap_append, List.filterMap_map, ← Multiset.coe_add]
  rfl

/-- The requests that the loops were done with before these entries. -/
theorem Server.settled_append {c : Fin n} (hlog : w'.log = w.log ++ es.map (c, ·)) :
    w'.settled + w.queue.map Task.key = w.settled + (es.filterMap (Entry.settles c) ++ w'.queue.map Task.key : List _) := by
  simp only [Server.settled, hlog, List.filterMap_append, List.filterMap_map, ← Multiset.coe_add]
  ac_rfl

/-- The step of a loop from `d` to `d'` for the connection `c`, seen at its own place, with the entries that it makes. -/
structure Balanced (numThreads : Nat) (c : Fin n) (es : List Entry) (w w' : Server n L) (d d' : Doing n) : Prop where
  requests : w'.stat.totalRequests = w.stat.totalRequests + es.countP Entry.isTaken
  responses : w'.stat.totalResponses + d'.unrecorded = w.stat.totalResponses + d.unrecorded + es.countP Entry.isAnswered
  dropped : w'.stat.droppedRequests + d'.undropped = w.stat.droppedRequests + d.undropped + es.countP Entry.isRefused
  bad : w'.stat.badRequests + d'.rejecting numThreads =
    w.stat.badRequests + d.rejecting numThreads + es.countP (Entry.isBad numThreads)
  held : (es.filterMap (Entry.settles c) ++ w'.queue.map Task.key : List _) + d'.held numThreads =
    (es.filterMap (Entry.takes numThreads c) ++ w.queue.map Task.key : List _) + d.held numThreads
  inline : numThreads = 0 → w.queue = [] → w'.queue = []

theorem Ledger.moved {cfg : Config n L} (h : Ledger cfg w) {l : Fin L} {d' : Doing n} {c : Fin n}
    (hlog : w'.log = w.log ++ es.map (c, ·)) (hloops : w'.loops = Function.update w.loops l d')
    (hworkers : w'.workers = w.workers) (hb : Balanced cfg.numThreads c es w w' (w.loops l) d') : Ledger cfg w' := by
  have hunrecorded := sum_update_add Doing.unrecorded w.loops l d'
  have hundropped := sum_update_add Doing.undropped w.loops l d'
  have hrejecting := sum_update_add (Doing.rejecting cfg.numThreads) w.loops l d'
  have hheld := sum_update_add (Doing.held cfg.numThreads) w.loops l d'
  have hcount := Server.count_append hlog
  obtain ⟨b₁, b₂, b₃, b₄, b₅, b₆⟩ := hb
  obtain ⟨h₁, h₂, h₃, h₄, h₅, h₆⟩ := h
  rw [← hloops] at hunrecorded hundropped hrejecting hheld
  constructor
  · rw [hcount]
    omega
  · rw [hcount, hworkers]
    omega
  · rw [hcount]
    omega
  · rw [hcount]
    omega
  · rw [hworkers]
    refine sum_balance h₅ hheld ?_
    -- both sides with the old queue
    refine add_right_cancel (b := (w.queue.map Task.key : Multiset _)) ?_
    calc w.good cfg.numThreads + (w'.settled + d'.held cfg.numThreads) + w.queue.map Task.key
        = w.good cfg.numThreads + d'.held cfg.numThreads + (w'.settled + w.queue.map Task.key) := by ac_rfl
      _ = w.good cfg.numThreads + w.settled +
          ((es.filterMap (Entry.settles c) ++ w'.queue.map Task.key : List _) + d'.held cfg.numThreads) := by
            rw [Server.settled_append hlog]
            ac_rfl
      _ = w.good cfg.numThreads + (es.filterMap (Entry.takes cfg.numThreads c) : List _) +
          (w.settled + (w.loops l).held cfg.numThreads) + w.queue.map Task.key := by
            rw [b₅, ← Multiset.coe_add]
            ac_rfl
      _ = w'.good cfg.numThreads + (w.settled + (w.loops l).held cfg.numThreads) + w.queue.map Task.key := by
            rw [Server.good_append hlog]
  · exact fun hzero => b₆ hzero (h₆ hzero)

/-- What the step of the workers from `old` to `new`, with the answers `es` that it makes, does to the accounts. -/
structure Worked (c : Fin n) (es : List Entry) (old rest new : List (Worker n)) (w w' : Server n L) : Prop where
  log : w'.log = w.log ++ es.map (c, ·)
  answers : ∀ e ∈ es, ∃ id puzzle, e = .answered id puzzle
  before : (old ++ rest).Perm w.workers
  after : w'.workers = rest ++ new
  loops : w'.loops = w.loops
  requests : w'.stat.totalRequests = w.stat.totalRequests
  dropped : w'.stat.droppedRequests = w.stat.droppedRequests
  bad : w'.stat.badRequests = w.stat.badRequests
  responses : w'.stat.totalResponses + ((new.map Worker.unrecorded).sum : Nat) =
    w.stat.totalResponses + ((old.map Worker.unrecorded).sum : Nat) + es.countP Entry.isAnswered
  held : (es.filterMap (Entry.settles c) ++ w'.queue.map Task.key : List _) + (new.map Worker.held).sum =
    w.queue.map Task.key + (old.map Worker.held).sum
  queue : w'.queue.length ≤ w.queue.length

theorem Ledger.worked {cfg : Config n L} (h : Ledger cfg w) {c : Fin n} {old rest new : List (Worker n)}
    (hw : Worked c es old rest new w w') : Ledger cfg w' := by
  obtain ⟨hlog, hes, hold, hnew, hloops, hrequests, hdropped, hbad, hresponses, hheld, hqueue⟩ := hw
  have hunrecorded := (hold.map Worker.unrecorded).sum_eq
  have hsum := (hold.map Worker.held).sum_eq
  rw [List.map_append, List.sum_append] at hunrecorded hsum
  have hcount := Server.count_append hlog
  have hzero (p : Entry → Bool) (hp : ∀ id puzzle, p (.answered id puzzle) = false) : es.countP p = 0 := by
    refine List.countP_eq_zero.2 fun e he => ?_
    obtain ⟨id, puzzle, rfl⟩ := hes e he
    rw [hp]
    exact Bool.false_ne_true
  have hgood : w'.good cfg.numThreads = w.good cfg.numThreads := by
    have hnil : es.filterMap (Entry.takes cfg.numThreads c) = [] := List.filterMap_eq_nil_iff.2 fun e he => by
      obtain ⟨id, puzzle, rfl⟩ := hes e he
      rfl
    rw [Server.good_append hlog, hnil, Multiset.coe_nil, add_zero]
  obtain ⟨h₁, h₂, h₃, h₄, h₅, h₆⟩ := h
  constructor
  · rw [hrequests, hcount, hzero _ fun _ _ => rfl, h₁]
    rfl
  · rw [hloops, hnew, List.map_append, List.sum_append, hcount]
    omega
  · rw [hdropped, hloops, hcount, hzero _ fun _ _ => rfl, h₃]
    rfl
  · rw [hbad, hloops, hcount, hzero _ fun _ _ => rfl, h₄]
    rfl
  · rw [hloops, hnew, List.map_append, List.sum_append, hgood, h₅, ← hsum]
    refine add_right_cancel (b := (w.queue.map Task.key : Multiset _)) ?_
    generalize ∑ l, (w.loops l).held cfg.numThreads = sum
    calc w.settled + sum + ((old.map Worker.held).sum + (rest.map Worker.held).sum) + w.queue.map Task.key
        = w.settled + (w.queue.map Task.key + (old.map Worker.held).sum) + (sum + (rest.map Worker.held).sum) := by ac_rfl
      _ = w.settled + (es.filterMap (Entry.settles c) ++ w'.queue.map Task.key : List _) +
          ((new.map Worker.held).sum + (sum + (rest.map Worker.held).sum)) := by
            rw [← hheld]
            ac_rfl
      _ = w'.settled + sum + ((rest.map Worker.held).sum + (new.map Worker.held).sum) + w.queue.map Task.key := by
            rw [← Server.settled_append hlog]
            ac_rfl
  · intro hzero
    rw [h₆ hzero] at hqueue
    exact List.length_eq_zero_iff.1 (Nat.le_zero.1 hqueue)

theorem goodRequest_length {numThreads : Nat} {request : List UInt8} {p : List UInt8 × List UInt8}
    (h : goodRequest numThreads request = some p) : p.2.length = kCells := by
  simpa using (Option.filter_eq_some_iff.1 h).2

/-- What anybody holds is a request, with a puzzle of the right size. -/
theorem Server.length_of_good {numThreads : Nat} {k : Fin n × List UInt8 × List UInt8} (h : k ∈ w.good numThreads) :
    k.2.2.length = kCells := by
  obtain ⟨⟨c, entry⟩, -, hkey⟩ := List.mem_filterMap.1 (Multiset.mem_coe.1 h)
  cases entry with
  | taken request =>
    obtain ⟨p, hp, rfl⟩ := Option.map_eq_some_iff.1 hkey
    exact goodRequest_length hp
  | _ => cases hkey

end SudokuProd
end ChatReactor
