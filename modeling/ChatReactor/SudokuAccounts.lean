import ChatReactor.SudokuLedger

/-!
# Every request is accounted for

Which lines are taken from a connection depends on its reads alone: the loop of `onMessage` goes on behind a request, whatever is done
with it. `tally` is that loop, on the bytes. `ConnInv` says where a connection stands beside it and what it has been sent, `Inv`
adds the accounts, and `Inv.step` keeps both through every event of every thread.

The work that a server has left is finite: a round of the loop of `onMessage` shortens the input buffer or ends the loop, and a request
leads to a bounded number of further steps. `Server.cost` adds them up, and `Kept` says that each step of a thread pays.
-/

namespace ChatReactor

open Lines SudokuServer

namespace SudokuProd

variable {n L : Nat}

/-! ## The lines of a connection -/

/-- The lines taken, and how often the loop has given up on one. -/
abbrev Tally := List (List UInt8) × Nat

def tallyLine (numThreads : Nat) (x : Tally) (request : List UInt8) : Tally × Bool :=
  ((x.1 ++ [request], x.2), (goodRequest numThreads request).isSome)

def tally (numThreads : Nat) : LineLoop UInt8 Tally := lineSpec (tallyLine numThreads) fun x => (x.1, x.2 + 1)

/-- The lines that the server takes from a connection with these reads. -/
def linesOf (numThreads : Nat) (chunks : List (List UInt8)) : Tally := ((tally numThreads).reads ([], 0) [] chunks).1

/-- What a round finds, and how the loop on the bytes goes on. -/
inductive Found (numThreads : Nat) (q : List UInt8) : Next → List UInt8 → Prop
  | nothing : (∀ x, (tally numThreads).run x q = (x, q)) → Found numThreads q .nothing q
  | tooLong : (∀ x, (tally numThreads).run x q = ((x.1, x.2 + 1), q)) → Found numThreads q .tooLong q
  | line {request q' : List UInt8} : q'.length < q.length → (∀ x, (tally numThreads).run x q =
      if (goodRequest numThreads request).isSome then (tally numThreads).run (x.1 ++ [request], x.2) q'
      else ((x.1 ++ [request], x.2), q')) → Found numThreads q (.line request) q'

theorem nextLine_spec (numThreads : Nat) {buf : Buffer} {q : List UInt8} (h : buf.Holds q) :
    ∃ next buf' q', nextLine buf = some (next, buf') ∧ buf'.Holds q' ∧ Found numThreads q next q' := by
  have hline (_ : Next) (request : List UInt8) : some (Next.line request, true) = some (Next.line request, true) := rfl
  obtain ⟨buf', hround, hholds⟩ := lineRound_spec (fun _ => Next.tooLong) hline Next.nothing h
  have hnext := congrArg (Option.map (·.1)) hround
  by_cases hlen : q.length < kCells + 2
  · rw [LineLoop.round_short _ (by exact hlen)] at hnext hholds
    exact ⟨_, buf', _, hnext, hholds, .nothing fun x => LineLoop.run_short _ (by exact hlen)⟩
  have hlen' : kCells + 2 ≤ q.length := Nat.not_lt.1 hlen
  cases hfind : findPair 13 10 q with
  | none =>
    rw [LineLoop.round_tail _ (findPair_none.1 hfind) (by exact hlen')] at hnext hholds
    have hrun (x : Tally) := (tally numThreads).run_tail (s := x) (findPair_none.1 hfind) (by exact hlen')
    by_cases hlong : 100 < q.length
    · rw [if_pos (by exact hlong)] at hnext
      exact ⟨_, buf', _, hnext, hholds, .tooLong fun x => by rw [hrun, if_pos (by exact hlong)]; rfl⟩
    · rw [if_neg (by exact hlong)] at hnext
      exact ⟨_, buf', _, hnext, hholds, .nothing fun x => by rw [hrun, if_neg (by exact hlong)]⟩
  | some i =>
    rw [LineLoop.round_found _ hfind (by exact hlen')] at hnext hholds
    obtain ⟨-, hle, -⟩ := findPair_some hfind
    refine ⟨_, buf', _, hnext, hholds, .line (by simp only [List.length_drop]; omega) fun x => ?_⟩
    rw [LineLoop.run_round, LineLoop.round_found _ hfind (by exact hlen')]
    rfl

/-! ## One connection -/

/-- The connection that the loop is busy with. -/
def Doing.conn : Doing n → Option (Fin n)
  | .poll => none
  | .onMessage c _ | .processRequest c _ _ | .run c _ | .tooBusy c _ | .recordDropped c _ | .recordResponse c _ _ | .reject c _
  | .shutdown c | .recordBad c => some c

/-- The loop of `onMessage` has another round. -/
def Doing.goesOn (numThreads : Nat) : Doing n → Bool
  | .onMessage .. | .run .. | .tooBusy .. | .recordDropped .. | .recordResponse .. => true
  | .processRequest _ _ request => (goodRequest numThreads request).isSome
  | .poll | .reject .. | .shutdown _ | .recordBad _ => false

/-- What has happened on one connection. -/
def Server.entries (w : Server n L) (c : Fin n) : List Entry := (w.log.filter (·.1 = c)).map (·.2)

def Entry.chunk : Entry → Option (List UInt8)
  | .read chunk => some chunk
  | _ => none

def Entry.line : Entry → Option (List UInt8)
  | .taken request => some request
  | _ => none

/-- What is sent for a request, if it is answered or refused. -/
def Entry.message : Entry → Option (List UInt8)
  | .answered id puzzle => some (reply id ((solveSudoku puzzle).getD []))
  | .refused id _ => some (reply id serverTooBusy)
  | _ => none

def tallyOf (es : List Entry) : Tally := (es.filterMap Entry.line, es.count .tooLong)

structure ConnInv (numThreads : Nat) (c : Fin n) (conn : Conn) (d : Doing n) (es : List Entry) : Prop where
  /-- The lines taken and to be taken are those of the reads. -/
  parsed : ∃ q, conn.buf.Holds q ∧
    (if d.conn = some c ∧ d.goesOn numThreads then (tally numThreads).run (tallyOf es) q else (tallyOf es, q)) =
      (tally numThreads).reads ([], 0) [] (es.filterMap Entry.chunk)
  /-- As long as nobody shuts the connection down, it has been sent the answers and the refusals. -/
  sent : d ≠ .shutdown c → conn.peer.connected = true → conn.peer.sent = es.filterMap Entry.message

variable {numThreads : Nat} {d : Doing n} {es : List Entry}

theorem ConnInv.other {c : Fin n} {conn : Conn} {d' : Doing n} (h : ConnInv numThreads c conn d es)
    (hd : d.conn ≠ some c) (hd' : d'.conn ≠ some c) : ConnInv numThreads c conn d' es where
  parsed := by
    obtain ⟨q, hq, hreads⟩ := h.parsed
    refine ⟨q, hq, ?_⟩
    rw [if_neg fun hand => hd hand.1] at hreads
    rw [if_neg fun hand => hd' hand.1, hreads]
  sent _ := h.sent fun heq => hd (by rw [heq]; rfl)

/-- In front of `threadPool_.run`. -/
def Doing.admitted : Doing n → Nat
  | .run _ _ => 1
  | _ => 0

theorem Doing.admitted_le (d : Doing n) : d.admitted ≤ 1 := by
  cases d <;> simp [Doing.admitted]

/-! ## What is left to do -/

/-- An event that only a thread of the server makes. -/
def Server.Event.isInternal : Server.Event n L → Bool
  | .go .. | .take | .work .. => true
  | _ => false

/-- How many steps are left for a loop at most, those that it makes for the workers included; `r` bytes are in the input buffer. -/
def Doing.costAt (r : Nat) : Doing n → Nat
  | .poll => 0
  | .onMessage .. => 10 * r + 4
  | .recordDropped .. | .recordResponse .. => 10 * r + 5
  | .tooBusy .. => 10 * r + 6
  | .run .. => 10 * r + 8
  | .processRequest .. => 10 * r + 9
  | .reject .. => 3
  | .shutdown _ => 2
  | .recordBad _ => 1

def Doing.cost (conns : Fin n → Conn) (d : Doing n) : Nat := d.costAt (d.conn.elim 0 fun c => (conns c).buf.readableBytes)

def Worker.cost : Worker n → Nat
  | .solve _ => 2
  | .recordResponse _ _ => 1

/-- How many steps are left for the threads at most. -/
def Server.cost (w : Server n L) : Nat :=
  ∑ l, (w.loops l).cost w.conns + 3 * w.queue.length + (w.workers.map Worker.cost).sum

/-- A loop that is busy with another connection has as much left to do. -/
theorem Doing.cost_congr {conns conns' : Fin n → Conn} (h : ∀ c, d.conn = some c → (conns' c).buf = (conns c).buf) :
    d.cost conns' = d.cost conns := by
  cases hc : d.conn with
  | none => simp [Doing.cost, hc]
  | some c => simp [Doing.cost, hc, h c hc]

/-! ## The invariant -/

/-- The bytes that an event reads. -/
def Server.Event.chunk : Event n L → Option (Fin n × List UInt8)
  | .read c _ chunk => some (c, chunk)
  | _ => none

/-- A high water mark that is too high. -/
def Server.Event.isHigh : Event n L → Bool
  | .highWaterMark _ tosend => decide (highMark ≤ tosend)
  | _ => false

structure Inv (cfg : Config n L) (events : List (Server.Event n L)) (w : Server n L) : Prop where
  ledger : Ledger cfg w
  loopOf : ∀ {l c}, (w.loops l).conn = some c → cfg.loopOf c = l
  conn : ∀ c, ConnInv cfg.numThreads c (w.conns c) (w.loops (cfg.loopOf c)) (w.entries c)
  windows : ∃ rs, w.stat.Exact rs
  limit : w.queue.length + ∑ l, (w.loops l).admitted ≤ 999999 + L
  chunks : (w.log.filterMap fun x => x.2.chunk.map (x.1, ·)) = events.filterMap Server.Event.chunk
  highs : w.count (· = .tooHigh) = events.countP Server.Event.isHigh

theorem Inv.init (cfg : Config n L) : Inv cfg [] (.init n L) where
  ledger := by constructor <;> simp [Server.init, SudokuStat.fresh, Doing.unrecorded, Doing.undropped, Doing.rejecting, Doing.held,
    Server.good, Server.count, Server.settled]
  loopOf h := nomatch h
  conn c := ⟨⟨[], Buffer.new_holds, rfl⟩, fun _ _ => rfl⟩
  windows := ⟨[], .fresh⟩
  limit := by simp [Server.init, Doing.admitted]
  chunks := rfl
  highs := rfl

/-- The event happens, the invariant is kept, and the thread that makes the step has less to do. -/
def Kept (cfg : Config n L) (events : List (Server.Event n L)) (w : Server n L) (e : Server.Event n L) : Prop :=
  ∃ w', w.step cfg e = some w' ∧ Inv cfg (events ++ [e]) w' ∧ (e.isInternal = true → w'.cost < w.cost)

variable {w' : Server n L}

theorem entries_append {w : Server n L} {c : Fin n} (hlog : w'.log = w.log ++ es.map (c, ·)) (c' : Fin n) :
    w'.entries c' = w.entries c' ++ if c' = c then es else [] := by
  rw [Server.entries, hlog, List.filter_append, List.map_append, List.filter_map, List.map_map]
  by_cases hc : c' = c
  · subst hc
    simp [Server.entries, Function.comp_def]
  · simp [Server.entries, Function.comp_def, hc, Ne.symm hc]

/-- What the entries of an event say of it. -/
structure Tells (c : Fin n) (es : List Entry) (e : Server.Event n L) : Prop where
  chunk : (es.filterMap fun entry => entry.chunk.map (c, ·)) = [e].filterMap Server.Event.chunk
  high : es.countP (· = .tooHigh) = [e].countP Server.Event.isHigh

/-- A loop has less to do for one of its connections, and so has the server. -/
theorem Inv.cost_moved {cfg : Config n L} {events : List (Server.Event n L)} {w : Server n L} (h : Inv cfg events w)
    {c : Fin n} {d₀ : Doing n} (hdoing : w.loops (cfg.loopOf c) = d₀)
    (hloops : w'.loops = Function.update w.loops (cfg.loopOf c) d) (hconns : ∀ c' ≠ c, w'.conns c' = w.conns c')
    (hworkers : w'.workers = w.workers)
    (hless : d.cost w'.conns + 3 * w'.queue.length < d₀.cost w.conns + 3 * w.queue.length) : w'.cost < w.cost := by
  have hnew := Finset.sum_erase_add Finset.univ (fun l => (w'.loops l).cost w'.conns) (Finset.mem_univ (cfg.loopOf c))
  have hold := Finset.sum_erase_add Finset.univ (fun l => (w.loops l).cost w.conns) (Finset.mem_univ (cfg.loopOf c))
  have hrest : ∑ l ∈ Finset.univ.erase (cfg.loopOf c), (w'.loops l).cost w'.conns =
      ∑ l ∈ Finset.univ.erase (cfg.loopOf c), (w.loops l).cost w.conns := by
    refine Finset.sum_congr rfl fun l hl => ?_
    have hne : l ≠ cfg.loopOf c := Finset.ne_of_mem_erase hl
    rw [hloops, Function.update_of_ne hne]
    refine Doing.cost_congr fun c' hc' => congrArg Conn.buf (hconns c' ?_)
    rintro rfl
    exact hne (h.loopOf hc').symm
  simp only [hloops, Function.update_self, hdoing] at hnew hold hrest
  simp only [Server.cost, hloops, hworkers]
  omega

variable {e : Server.Event n L}

/-- The step of a loop for one of its connections, from `d₀` to `d`. -/
theorem Inv.act {cfg : Config n L} {events : List (Server.Event n L)} {w : Server n L} (h : Inv cfg events w)
    {c : Fin n} {d₀ : Doing n} (d : Doing n) (es : List Entry) (hdoing : w.loops (cfg.loopOf c) = d₀)
    (hd₀ : ∀ c', d₀.conn = some c' → c' = c) (hd : ∀ c', d.conn = some c' → c' = c)
    (hloops : w'.loops = Function.update w.loops (cfg.loopOf c) d) (hconns : ∀ c' ≠ c, w'.conns c' = w.conns c')
    (hlog : w'.log = w.log ++ es.map (c, ·)) (htells : Tells c es e) (hworkers : w'.workers = w.workers)
    (hb : Balanced cfg.numThreads c es w w' d₀ d)
    (hconn : ConnInv cfg.numThreads c (w'.conns c) d (w.entries c ++ es)) (hwindows : ∃ rs, w'.stat.Exact rs)
    (hlimit : w'.queue.length + d.admitted ≤ w.queue.length + d₀.admitted ∨ w'.queue.length ≤ 999999)
    (hcost : e.isInternal = true → d.cost w'.conns + 3 * w'.queue.length < d₀.cost w.conns + 3 * w.queue.length) :
    Inv cfg (events ++ [e]) w' ∧ (e.isInternal = true → w'.cost < w.cost) := by
  refine ⟨?_, fun hinternal => h.cost_moved hdoing hloops hconns hworkers (hcost hinternal)⟩
  exact {
    ledger := h.ledger.moved hlog hloops hworkers (hdoing ▸ hb)
    loopOf := fun {l c'} hl => by
      rw [hloops] at hl
      by_cases heq : l = cfg.loopOf c
      · subst heq
        rw [Function.update_self] at hl
        rw [hd c' hl]
      · rw [Function.update_of_ne heq] at hl
        exact h.loopOf hl
    conn := fun c' => by
      rw [entries_append hlog]
      by_cases hc : c' = c
      · subst hc
        rw [hloops, Function.update_self, if_pos rfl]
        exact hconn
      · rw [hconns c' hc, hloops, if_neg hc, List.append_nil]
        by_cases heq : cfg.loopOf c' = cfg.loopOf c
        · have hc' := h.conn c'
          rw [heq, hdoing] at hc'
          rw [heq, Function.update_self]
          exact hc'.other (fun hin => hc (hd₀ c' hin)) fun hin => hc (hd c' hin)
        · rw [Function.update_of_ne heq]
          exact h.conn c'
    windows := hwindows
    limit := by
      have hsum := sum_update_add Doing.admitted w.loops (cfg.loopOf c) d
      rw [← hloops, hdoing] at hsum
      have hold := h.limit
      rcases hlimit with hle | hle
      · omega
      · have hcard : ∑ l, (w'.loops l).admitted ≤ ∑ _l : Fin L, 1 := Finset.sum_le_sum fun l _ => Doing.admitted_le _
        simp only [Finset.sum_const, Finset.card_univ, Fintype.card_fin, nsmul_one, Nat.cast_id] at hcard
        omega
    chunks := by
      rw [hlog, List.filterMap_append, List.filterMap_map, h.chunks, List.filterMap_append]
      exact congrArg _ htells.chunk
    highs := by rw [Server.count_append hlog, h.highs, htells.high, List.countP_append] }

/-! ## The callbacks -/

section
variable {cfg : Config n L} {events : List (Server.Event n L)} {w : Server n L} {c : Fin n}

theorem conn_eq {c c' : Fin n} (h : some c = some c') : c' = c := (Option.some.inj h).symm

/-- A step that makes no entry and touches no account. -/
theorem Balanced.quiet {d' : Doing n} (hstat : w'.stat = w.stat) (hqueue : w'.queue = w.queue)
    (hunrecorded : d'.unrecorded = d.unrecorded) (hundropped : d'.undropped = d.undropped)
    (hrejecting : d'.rejecting numThreads = d.rejecting numThreads) (hheld : d'.held numThreads = d.held numThreads) :
    Balanced numThreads c [] w w' d d' where
  requests := by simp [hstat]
  responses := by simp [hstat, hunrecorded]
  dropped := by simp [hstat, hundropped]
  bad := by simp [hstat, hrejecting]
  held := by simp [hqueue, hheld]
  inline := fun _ hnil => hqueue.trans hnil

/-- Between two rounds of no connection. -/
theorem ConnInv.parsed_ended {conn : Conn} (h : ConnInv numThreads c conn d es) (hd : d.goesOn numThreads = false) :
    ∃ q, conn.buf.Holds q ∧ (tallyOf es, q) = (tally numThreads).reads ([], 0) [] (es.filterMap Entry.chunk) := by
  obtain ⟨q, hq, hreads⟩ := h.parsed
  rw [if_neg (by rw [hd]; exact fun hand => Bool.false_ne_true hand.2)] at hreads
  exact ⟨q, hq, hreads⟩

theorem ConnInv.parsed_goesOn {conn : Conn} (h : ConnInv numThreads c conn d es) (hc : d.conn = some c)
    (hd : d.goesOn numThreads = true) :
    ∃ q, conn.buf.Holds q ∧ (tally numThreads).run (tallyOf es) q = (tally numThreads).reads ([], 0) [] (es.filterMap Entry.chunk) := by
  obtain ⟨q, hq, hreads⟩ := h.parsed
  rw [if_pos ⟨hc, hd⟩] at hreads
  exact ⟨q, hq, hreads⟩

/-- The loop that works for a connection is its own. -/
theorem Inv.owner (h : Inv cfg events w) {l : Fin L} (hl : w.loops l = d) (hd : d.conn = some c) : cfg.loopOf c = l :=
  h.loopOf (hl ▸ hd)

theorem Inv.conn_of (h : Inv cfg events w) (hdoing : w.loops (cfg.loopOf c) = d) :
    ConnInv cfg.numThreads c (w.conns c) d (w.entries c) := hdoing ▸ h.conn c

-- what each place of the program and each entry counts for
attribute [local simp] Entry.takes Entry.settles Entry.isTaken Entry.isAnswered Entry.isRefused Entry.isBad Doing.held Doing.rejecting
  Doing.unrecorded Doing.undropped Doing.conn Doing.goesOn Doing.admitted Entry.chunk Entry.line Entry.message Server.note
  Server.setLoop Server.setConn Server.send List.filterMap_cons Doing.cost Doing.costAt

theorem Inv.read (h : Inv cfg events w) (hpoll : w.loops (cfg.loopOf c) = .poll) (receiveTime : Int) (chunk : List UInt8) :
    Kept cfg events w (.read c receiveTime chunk) := by
  have hconn := h.conn_of hpoll
  obtain ⟨q, hq, hreads⟩ := hconn.parsed_ended rfl
  obtain ⟨buf, hread, hbuf⟩ := Buffer.readFd_holds hq chunk
  refine ⟨_, by rw [Server.step, hread]; rfl, ?_⟩
  refine h.act (.onMessage c receiveTime) [.read chunk] hpoll nofun (fun _ => conn_eq) rfl
    (fun c' hc => Function.update_of_ne hc _ _) rfl ⟨rfl, rfl⟩ rfl ?_ ⟨⟨q ++ chunk, ?_, ?_⟩, fun _ hup => ?_⟩
    h.windows (.inl (Nat.le_refl _)) nofun
  · constructor <;> simp
  · simpa using hbuf
  · have hnew := (tally cfg.numThreads).reads_concat ([], 0) [] ((w.entries c).filterMap Entry.chunk) chunk
    rw [← hreads] at hnew
    simpa [tallyOf] using hnew.symm
  · simpa using hconn.sent nofun (by simpa using hup)

/-- A callback that ends at once and makes no entry. -/
theorem Inv.setConn (h : Inv cfg events w) (hpoll : w.loops (cfg.loopOf c) = .poll) (conn : Conn)
    (hbuf : conn.buf = (w.conns c).buf) (hsent : conn.peer.connected = true → conn.peer = (w.conns c).peer)
    (he : Tells c [] e) (hexternal : e.isInternal = false) :
    Inv cfg (events ++ [e]) (w.setConn c conn) ∧ (e.isInternal = true → (w.setConn c conn).cost < w.cost) := by
  have hconn := h.conn_of hpoll
  refine h.act .poll [] hpoll nofun nofun ?_ (fun c' hc => Function.update_of_ne hc _ _) ?_ he rfl
    (.quiet rfl rfl rfl rfl rfl rfl) ⟨?_, fun _ hup => ?_⟩ h.windows (.inl (Nat.le_refl _)) (by simp [hexternal])
  · exact (Function.update_eq_self_iff.2 hpoll.symm).symm
  · simp
  · simpa [hbuf] using hconn.parsed
  · have hpeer := hsent (by simpa using hup)
    simpa [hpeer] using hconn.sent nofun (by simpa [hpeer] using hup)

theorem Inv.highWaterMark (h : Inv cfg events w) (hpoll : w.loops (cfg.loopOf c) = .poll) (tosend : Nat) :
    Kept cfg events w (.highWaterMark c tosend) := by
  by_cases hlow : tosend < highMark
  · have hhooks : Hooks.onHighWaterMark tosend = some ⟨true, highMark, true⟩ := if_pos hlow
    refine ⟨_, by rw [Server.step, hhooks], ?_⟩
    refine h.setConn hpoll _ rfl (fun _ => rfl) ⟨rfl, ?_⟩ rfl
    simp [Server.Event.isHigh, hlow]
  · have hconn := h.conn_of hpoll
    have hhooks : Hooks.onHighWaterMark tosend = none := if_neg hlow
    refine ⟨_, by rw [Server.step, hhooks], ?_⟩
    refine h.act (.reject c badRequest) [.tooHigh] hpoll nofun (fun _ => conn_eq) rfl (fun c' _ => rfl) rfl ⟨rfl, ?_⟩ rfl ?_
      ⟨?_, fun _ hup => ?_⟩ h.windows (.inl (Nat.le_refl _)) nofun
    · simp [Server.Event.isHigh, Nat.not_lt.1 hlow]
    · constructor <;> simp
    · simpa [tallyOf] using hconn.parsed
    · simpa using hconn.sent nofun (by simpa using hup)

/-! ## The loops -/

variable {l : Fin L} (now : Int)

theorem tells_go (c : Fin n) (hchunk : es.filterMap Entry.chunk = []) (hhigh : .tooHigh ∉ es) :
    Tells c es (.go (n := n) l now) where
  chunk := by
    simp only [List.filterMap_eq_nil_iff] at hchunk
    refine List.filterMap_eq_nil_iff.2 fun e he => ?_
    rw [hchunk e he]
    rfl
  high := List.countP_eq_zero.2 fun e he heq => hhigh (of_decide_eq_true heq ▸ he)

theorem coe_add_singleton {α : Type} (l : List α) (a : α) : (l : Multiset α) + {a} = ((a :: l : List α) : Multiset α) := by
  rw [add_comm, Multiset.singleton_add, Multiset.cons_coe]

/-- A step without an entry, in which no connection changes. -/
theorem Inv.turn (h : Inv cfg events w) {d₀ : Doing n} (d : Doing n) (hl : w.loops (cfg.loopOf c) = d₀) (hd₀ : d₀.conn = some c)
    (hd : ∀ c', d.conn = some c' → c' = c)
    (hgoes : d.conn = some c ∧ d.goesOn cfg.numThreads ↔ d₀.conn = some c ∧ d₀.goesOn cfg.numThreads) (hshutdown : d₀ ≠ .shutdown c)
    {stat : SudokuStat} {queue : List (Task n)}
    (hb : Balanced cfg.numThreads c [] w { w.setLoop (cfg.loopOf c) d with stat := stat, queue := queue } d₀ d)
    (hwindows : ∃ rs, stat.Exact rs) (hlimit : queue.length + d.admitted ≤ w.queue.length + d₀.admitted ∨ queue.length ≤ 999999)
    (hcost : d.cost w.conns + 3 * queue.length < d₀.cost w.conns + 3 * w.queue.length) :
    Inv cfg (events ++ [.go (cfg.loopOf c) now]) { w.setLoop (cfg.loopOf c) d with stat := stat, queue := queue } ∧
      (Server.Event.isInternal (n := n) (.go (cfg.loopOf c) now) = true →
        Server.cost { w.setLoop (cfg.loopOf c) d with stat := stat, queue := queue } < w.cost) := by
  have hconn := h.conn_of hl
  refine h.act d [] hl (fun c' heq => conn_eq (hd₀.symm.trans heq)) hd rfl (fun _ _ => rfl) (by simp) (tells_go now c rfl nofun) rfl hb
    ⟨?_, fun _ hup => ?_⟩ hwindows hlimit fun _ => hcost
  · simp only [hgoes, List.append_nil]
    exact hconn.parsed
  · simpa using hconn.sent hshutdown hup

variable {receiveTime : Int}

theorem Inv.go_onMessage (h : Inv cfg events w) (hl : w.loops l = .onMessage c receiveTime) :
    Kept cfg events w (.go l now) := by
  obtain rfl := h.owner hl rfl
  have hconn := h.conn_of hl
  obtain ⟨q, hq, hreads⟩ := hconn.parsed_goesOn rfl rfl
  obtain ⟨next, buf, q', hnext, hbuf, hfound⟩ := nextLine_spec cfg.numThreads hq
  cases hfound with
  | nothing hrun =>
    refine ⟨_, by simp only [Server.step, Server.go, hl, hnext]; rfl, ?_⟩
    refine h.act .poll [] hl (fun _ => conn_eq) nofun rfl (fun c' hc => Function.update_of_ne hc _ _) (by simp)
      (tells_go now c rfl nofun) rfl (.quiet rfl rfl rfl rfl rfl rfl) ⟨⟨q, ?_, ?_⟩, fun _ hup => ?_⟩ h.windows (.inl (Nat.le_refl _))
      (by simp)
    · simpa using hbuf
    · rw [hrun] at hreads
      simpa using hreads
    · simpa using hconn.sent nofun (by simpa using hup)
  | tooLong hrun =>
    refine ⟨_, by simp only [Server.step, Server.go, hl, hnext]; rfl, ?_⟩
    refine h.act (.reject c idTooLong) [.tooLong] hl (fun _ => conn_eq) (fun _ => conn_eq) rfl
      (fun c' hc => Function.update_of_ne hc _ _) rfl (tells_go now c rfl (by simp)) rfl ?_ ⟨⟨q, ?_, ?_⟩, fun _ hup => ?_⟩ h.windows
      (.inl (Nat.le_refl _)) (by simp)
    · constructor <;> simp
    · simpa using hbuf
    · rw [hrun] at hreads
      simpa [tallyOf] using hreads
    · simpa using hconn.sent nofun (by simpa using hup)
  | @line request _ hshort hrun =>
    refine ⟨_, by simp only [Server.step, Server.go, hl, hnext]; rfl, ?_⟩
    refine h.act (.processRequest c receiveTime request) [.taken request] hl (fun _ => conn_eq) (fun _ => conn_eq) rfl
      (fun c' hc => Function.update_of_ne hc _ _) rfl (tells_go now c rfl (by simp)) rfl ?_ ⟨⟨q', ?_, ?_⟩, fun _ hup => ?_⟩ ?_
      (.inl (Nat.le_refl _)) fun _ => ?_
    · cases hgood : goodRequest cfg.numThreads request with
      | none => constructor <;> simp [keyOf, hgood]
      | some p => constructor <;> simp [keyOf, hgood, coe_add_singleton]
    · simpa using hbuf
    · rw [hrun] at hreads
      simpa [tallyOf] using hreads
    · simpa using hconn.sent nofun (by simpa using hup)
    · obtain ⟨rs, hrs⟩ := h.windows
      exact ⟨rs, hrs.of_windows rfl rfl rfl⟩
    · simp [hq.readableBytes_eq, hbuf.readableBytes_eq]
      omega

theorem Inv.go_processRequest (h : Inv cfg events w) {request : List UInt8}
    (hl : w.loops l = .processRequest c receiveTime request) : Kept cfg events w (.go l now) := by
  obtain rfl := h.owner hl rfl
  have hconn := h.conn_of hl
  cases hgood : goodRequest cfg.numThreads request with
  | none =>
    refine ⟨_, by simp only [Server.step, Server.go, hl, hgood]; rfl, ?_⟩
    exact h.turn now (.reject c badRequest) hl rfl (fun _ => conn_eq) (by simp [hgood]) nofun
      (.quiet rfl rfl rfl rfl (by simp [hgood]) (by simp [keyOf, hgood])) h.windows (.inl (Nat.le_refl _)) (by simp)
  | some p =>
    by_cases hadmit : w.queue.length < 1000 * 1000 ∧ (w.conns c).hooks.throttle = false
    · refine ⟨_, by simp only [Server.step, Server.go, hl, hgood, if_pos hadmit]; rfl, ?_⟩
      exact h.turn now (.run c ⟨p.1, p.2, receiveTime⟩) hl rfl (fun _ => conn_eq) (by simp [hgood]) nofun
        (.quiet rfl rfl rfl rfl (by simp [hgood]) (by simp [keyOf, hgood])) h.windows (.inr (Nat.le_of_lt_succ hadmit.1)) (by simp)
    · refine ⟨_, by simp only [Server.step, Server.go, hl, hgood, if_neg hadmit]; rfl, ?_⟩
      exact h.turn now (.tooBusy c ⟨p.1, p.2, receiveTime⟩) hl rfl (fun _ => conn_eq) (by simp [hgood]) nofun
        (.quiet rfl rfl rfl rfl (by simp [hgood]) (by simp [keyOf, hgood])) h.windows (.inl (Nat.le_refl _)) (by simp)

theorem Inv.go_recordDropped (h : Inv cfg events w) (hl : w.loops l = .recordDropped c receiveTime) :
    Kept cfg events w (.go l now) := by
  obtain rfl := h.owner hl rfl
  refine ⟨_, by simp only [Server.step, Server.go, hl]; rfl, ?_⟩
  obtain ⟨rs, hrs⟩ := h.windows
  refine h.turn now (.onMessage c receiveTime) hl rfl (fun _ => conn_eq) (by simp) nofun ?_
    ⟨rs, hrs.of_windows rfl rfl rfl⟩ (.inl (Nat.le_refl _)) (by simp)
  constructor <;> simp

theorem Inv.go_recordBad (h : Inv cfg events w) (hl : w.loops l = .recordBad c) :
    Kept cfg events w (.go l now) := by
  obtain rfl := h.owner hl rfl
  refine ⟨_, by simp only [Server.step, Server.go, hl]; rfl, ?_⟩
  obtain ⟨rs, hrs⟩ := h.windows
  refine h.turn now .poll hl rfl nofun (by simp) nofun ?_ ⟨rs, hrs.of_windows rfl rfl rfl⟩ (.inl (Nat.le_refl _)) (by simp)
  constructor <;> simp

/-- `recordResponse` returns, and counts one response. -/
theorem recordResponse_spec {s : SudokuStat} (h : ∃ rs, s.Exact rs) {now : Int} (hnow : 1 ≤ secondsSinceEpoch now) (receive : Int)
    (solved : Bool) : ∃ t, s.call (.recordResponse now receive solved) = some t ∧ (∃ rs, t.Exact rs) ∧
      t.totalRequests = s.totalRequests ∧ t.totalResponses = s.totalResponses + 1 ∧ t.droppedRequests = s.droppedRequests ∧
      t.badRequests = s.badRequests := by
  obtain ⟨rs, hrs⟩ := h
  obtain ⟨t, ht, hexact⟩ := hrs.call (r := ⟨now, receive, solved⟩) hnow
  have hcounters := SudokuStat.recordResponse_counters ht
  simp only [SudokuStat.counters, Prod.mk.injEq] at hcounters
  exact ⟨t, ht, ⟨_, hexact⟩, hcounters⟩

theorem Inv.go_recordResponse (h : Inv cfg events w) {req : Request} {solved : Bool} (hl : w.loops l = .recordResponse c req solved)
    (hnow : 1 ≤ secondsSinceEpoch now) : Kept cfg events w (.go l now) := by
  obtain rfl := h.owner hl rfl
  obtain ⟨t, ht, hexact, h₁, h₂, h₃, h₄⟩ := recordResponse_spec h.windows hnow req.receiveTime solved
  refine ⟨_, by simp only [Server.step, Server.go, hl, Server.record, ht]; rfl, ?_⟩
  refine h.turn now (.onMessage c req.receiveTime) hl rfl (fun _ => conn_eq) (by simp) nofun ?_ hexact
    (.inl (Nat.le_refl _)) (by simp)
  constructor <;> simp [h₁, h₂, h₃, h₄]

/-- What a loop holds is a request. -/
theorem Inv.length_of_held (h : Inv cfg events w) {k : Fin n × List UInt8 × List UInt8} (hl : w.loops l = d)
    (hk : k ∈ d.held cfg.numThreads) : k.2.2.length = kCells := by
  have hgood : k ∈ w.good cfg.numThreads := by
    rw [h.ledger.held, Multiset.mem_add, Multiset.mem_add, Multiset.mem_sum]
    exact .inl (.inr ⟨l, Finset.mem_univ l, hl ▸ hk⟩)
  exact Server.length_of_good hgood

theorem Inv.go_run (h : Inv cfg events w) {req : Request} (hl : w.loops l = .run c req) :
    Kept cfg events w (.go l now) := by
  obtain rfl := h.owner hl rfl
  by_cases hzero : cfg.numThreads = 0
  · have hconn := h.conn_of hl
    obtain ⟨result, hresult⟩ := solveSudoku_returns
      (h.length_of_held hl (k := (c, req.id, req.puzzle)) (Multiset.mem_singleton_self _))
    refine ⟨_, by simp only [Server.step, Server.go, hl, if_pos hzero, Server.solve, hresult]; rfl, ?_⟩
    refine h.act (.recordResponse c req (decide (result ≠ kNoSolution))) [.answered req.id req.puzzle] hl (fun _ => conn_eq)
      (fun _ => conn_eq) rfl (fun c' hc => Function.update_of_ne hc _ _) rfl (tells_go now c rfl (by simp)) rfl ?_
      ⟨?_, fun _ hup => ?_⟩ h.windows (.inl (Nat.le_succ _)) (by simp)
    · constructor <;> simp [coe_add_singleton]
    · simpa [tallyOf] using hconn.parsed
    · have hsent := hconn.sent nofun (by simpa using hup)
      have hup' : (w.conns c).peer.connected = true := by simpa using hup
      simp [hresult, ← hsent, Peer.send_up hup']
  · refine ⟨_, by simp only [Server.step, Server.go, hl, if_neg hzero]; rfl, ?_⟩
    refine h.turn now (.onMessage c req.receiveTime) hl rfl (fun _ => conn_eq) (by simp) nofun ?_ h.windows (.inl ?_) ?_
    · constructor <;> simp [Task.key, coe_add_singleton, hzero]
    · simp
    · simp
      omega

theorem Inv.go_tooBusy (h : Inv cfg events w) {req : Request} (hl : w.loops l = .tooBusy c req) :
    Kept cfg events w (.go l now) := by
  obtain rfl := h.owner hl rfl
  have hconn := h.conn_of hl
  refine ⟨_, by simp only [Server.step, Server.go, hl]; rfl, ?_⟩
  refine h.act (.recordDropped c req.receiveTime) [.refused req.id req.puzzle] hl (fun _ => conn_eq)
    (fun _ => conn_eq) rfl (fun c' hc => Function.update_of_ne hc _ _) rfl (tells_go now c rfl (by simp)) rfl ?_
    ⟨?_, fun _ hup => ?_⟩ h.windows (.inl (Nat.le_refl _)) (by simp)
  · constructor <;> simp [coe_add_singleton]
  · simpa [tallyOf] using hconn.parsed
  · have hup' : (w.conns c).peer.connected = true := by simpa using hup
    simp [← hconn.sent nofun hup', Peer.send_up hup']

theorem Inv.go_reject (h : Inv cfg events w) {message : List UInt8} (hl : w.loops l = .reject c message) :
    Kept cfg events w (.go l now) := by
  obtain rfl := h.owner hl rfl
  have hconn := h.conn_of hl
  refine ⟨_, by simp only [Server.step, Server.go, hl]; rfl, ?_⟩
  refine h.act (.shutdown c) [] hl (fun _ => conn_eq) (fun _ => conn_eq) rfl (fun c' hc => Function.update_of_ne hc _ _) (by simp)
    (tells_go now c rfl nofun) rfl (.quiet rfl rfl rfl rfl rfl rfl) ⟨?_, fun hne => absurd rfl hne⟩ h.windows (.inl (Nat.le_refl _))
    (by simp)
  simpa using hconn.parsed

theorem Inv.go_shutdown (h : Inv cfg events w) (hl : w.loops l = .shutdown c) :
    Kept cfg events w (.go l now) := by
  obtain rfl := h.owner hl rfl
  have hconn := h.conn_of hl
  refine ⟨_, by simp only [Server.step, Server.go, hl]; rfl, ?_⟩
  refine h.act (.recordBad c) [] hl (fun _ => conn_eq) (fun _ => conn_eq) rfl (fun c' hc => Function.update_of_ne hc _ _) (by simp)
    (tells_go now c rfl nofun) rfl (.quiet rfl rfl rfl rfl rfl rfl) ⟨?_, fun _ hup => ?_⟩ h.windows (.inl (Nat.le_refl _))
    (by simp)
  · simpa using hconn.parsed
  · simp at hup

/-! ## The workers -/

/-- The step of a worker for the connection `c`. -/
theorem Inv.worked (h : Inv cfg events w) (es : List Entry) (old rest new : List (Worker n)) (hw : Worked c es old rest new w w')
    (hconns : ∀ c' ≠ c, w'.conns c' = w.conns c') (hbuf : (w'.conns c).buf = (w.conns c).buf)
    (hsent : w.loops (cfg.loopOf c) ≠ .shutdown c → (w'.conns c).peer.connected = true →
      (w'.conns c).peer.sent = (w.entries c ++ es).filterMap Entry.message)
    (hwindows : ∃ rs, w'.stat.Exact rs) (he : e.chunk = none ∧ e.isHigh = false)
    (hcost : 3 * w'.queue.length + (new.map Worker.cost).sum < 3 * w.queue.length + (old.map Worker.cost).sum) :
    Inv cfg (events ++ [e]) w' ∧ (e.isInternal = true → w'.cost < w.cost) := by
  have hledger := h.ledger.worked hw
  obtain ⟨hlog, hes, hold, hnew, hloops, -, -, -, -, -, hqueue⟩ := hw
  have hbufs (c' : Fin n) : (w'.conns c').buf = (w.conns c').buf := by
    by_cases hc : c' = c
    · rw [hc, hbuf]
    · rw [hconns c' hc]
  have hnone {α : Type} (f : Entry → Option α) (hf : ∀ id puzzle, f (.answered id puzzle) = none) : es.filterMap f = [] :=
    List.filterMap_eq_nil_iff.2 fun e he => by
      obtain ⟨id, puzzle, rfl⟩ := hes e he
      exact hf id puzzle
  have hnever {e : Entry} (hne : ∀ id puzzle, e ≠ .answered id puzzle) : e ∉ es := fun he => by
    obtain ⟨id, puzzle, heq⟩ := hes e he
    exact hne id puzzle heq
  refine ⟨?_, fun _ => ?_⟩
  · exact {
      ledger := hledger
      loopOf := fun hl => h.loopOf (hloops ▸ hl)
      conn := fun c' => by
        rw [hloops, entries_append hlog]
        by_cases hc : c' = c
        · subst hc
          rw [if_pos rfl]
          have htally : tallyOf (w.entries c' ++ es) = tallyOf (w.entries c') := by
            have htooLong : es.count .tooLong = 0 := List.count_eq_zero.2 (hnever nofun)
            simp only [tallyOf, List.filterMap_append, hnone Entry.line fun _ _ => rfl, List.count_append, htooLong, List.append_nil,
              Nat.add_zero]
          refine ⟨?_, hsent⟩
          rw [htally, List.filterMap_append, hnone _ fun _ _ => rfl, List.append_nil, hbuf]
          exact (h.conn c').parsed
        · rw [if_neg hc, List.append_nil, hconns c' hc]
          exact h.conn c'
      windows := hwindows
      limit := by
        have hlimit := h.limit
        rw [hloops]
        omega
      chunks := by
        rw [hlog, List.filterMap_append, List.filterMap_map, h.chunks, List.filterMap_append]
        refine congrArg _ ((hnone _ fun _ _ => rfl).trans ?_)
        simp [he.1]
      highs := by
        have hzero : es.countP (· = .tooHigh) = 0 :=
          List.countP_eq_zero.2 fun e he heq => hnever (e := .tooHigh) nofun (of_decide_eq_true heq ▸ he)
        rw [Server.count_append hlog, h.highs, hzero, List.countP_append]
        simp [he.2] }
  · have hworkers := (hold.map Worker.cost).sum_eq
    have hsum : ∑ l, (w.loops l).cost w'.conns = ∑ l, (w.loops l).cost w.conns :=
      Finset.sum_congr rfl fun l _ => Doing.cost_congr fun c _ => hbufs c
    simp only [List.map_append, List.sum_append] at hworkers
    simp only [Server.cost, hloops, hnew, hsum, List.map_append, List.sum_append]
    omega

theorem Inv.take (h : Inv cfg events w) (hqueue : w.queue ≠ []) :
    Kept cfg events w .take := by
  cases hq : w.queue with
  | nil => exact absurd hq hqueue
  | cons task queue =>
    refine ⟨_, by simp only [Server.step, hq]; rfl, ?_⟩
    refine h.worked (c := task.conn) [] [] w.workers [.solve task]
      ⟨by simp, by simp, .rfl, rfl, rfl, rfl, rfl, rfl, ?_, ?_, ?_⟩ (fun _ _ => rfl) rfl
      (fun hne hup => by simpa using (h.conn task.conn).sent hne hup) h.windows ⟨rfl, rfl⟩ ?_
    · simp [Worker.unrecorded]
    · simp [Worker.held, hq, coe_add_singleton]
    · simp [hq]
    · simp [hq, Worker.cost]
      omega

theorem Inv.work (h : Inv cfg events w) {i : Nat} (hi : i < w.workers.length) (hnow : 1 ≤ secondsSinceEpoch now) :
    Kept cfg events w (.work i now) := by
  have hget : w.workers[i]? = some w.workers[i] := List.getElem?_eq_getElem hi
  have hperm := List.getElem_cons_eraseIdx_perm hi
  generalize w.workers[i] = worker at hget hperm
  cases worker with
  | solve task =>
    have hkey : task.key ∈ w.good cfg.numThreads := by
      rw [h.ledger.held, ← (hperm.map Worker.held).sum_eq, Multiset.mem_add]
      right
      simp [Worker.held]
    obtain ⟨result, hresult⟩ := solveSudoku_returns (Server.length_of_good hkey)
    have hsolve : solveSudoku task.req.puzzle = some result := hresult
    refine ⟨_, by simp only [Server.step, Server.work, hget, Option.bind_eq_bind, Option.bind_some, Server.solve, hsolve]; rfl, ?_⟩
    refine h.worked (c := task.conn) [.answered task.req.id task.req.puzzle] [.solve task] (w.workers.eraseIdx i)
      [.recordResponse task (decide (result ≠ kNoSolution))] ⟨rfl, by simp, hperm, rfl, rfl, rfl, rfl, rfl, ?_, ?_, Nat.le_refl _⟩
      (fun c' hc => Function.update_of_ne hc _ _) (by simp) (fun hne hup => ?_) h.windows ⟨rfl, rfl⟩ (by simp [Worker.cost])
    · simp [Worker.unrecorded]
    · simp [Worker.held, Task.key, coe_add_singleton]
    · have hup' : (w.conns task.conn).peer.connected = true := by simpa using hup
      simp [hsolve, ← (h.conn task.conn).sent hne hup', Peer.send_up hup']
  | recordResponse task solved =>
    obtain ⟨t, ht, hexact, h₁, h₂, h₃, h₄⟩ := recordResponse_spec h.windows hnow task.req.receiveTime solved
    refine ⟨_, by simp only [Server.step, Server.work, hget, Option.bind_eq_bind, Option.bind_some, Server.record, ht]; rfl, ?_⟩
    refine h.worked (c := task.conn) [] [.recordResponse task solved] (w.workers.eraseIdx i) []
      ⟨by simp, by simp, hperm, by simp, rfl, h₁, h₃, h₄, ?_, ?_, Nat.le_refl _⟩ (fun _ _ => rfl) rfl
      (fun hne hup => by simpa using (h.conn task.conn).sent hne hup) hexact ⟨rfl, rfl⟩ (by simp [Worker.cost])
    · simp [Worker.unrecorded, h₂]
    · simp [Worker.held]

/-! ## Runs -/

/-- **One event.** No event fails, and the invariant is kept. -/
theorem Inv.step (h : Inv cfg events w) (hl : e.Legal cfg w) : Kept cfg events w e := by
  cases e with
  | read c receiveTime chunk => exact h.read hl.1 receiveTime chunk
  | close c => exact ⟨_, rfl, h.setConn hl.1 _ rfl nofun ⟨rfl, rfl⟩ rfl⟩
  | highWaterMark c tosend => exact h.highWaterMark hl tosend
  | writeComplete c => exact ⟨_, rfl, h.setConn hl _ rfl (fun _ => rfl) ⟨rfl, rfl⟩ rfl⟩
  | go l now =>
    cases hd : w.loops l with
    | poll => exact absurd hd hl.1
    | onMessage => exact h.go_onMessage now hd
    | processRequest => exact h.go_processRequest now hd
    | run => exact h.go_run now hd
    | tooBusy => exact h.go_tooBusy now hd
    | recordDropped => exact h.go_recordDropped now hd
    | recordResponse => exact h.go_recordResponse now hd hl.2
    | reject => exact h.go_reject now hd
    | shutdown => exact h.go_shutdown now hd
    | recordBad => exact h.go_recordBad now hd
  | take => exact h.take hl.1
  | work i now => exact h.work now hl.1 hl.2

theorem Inv.steps (h : Inv cfg events w) {es : List (Server.Event n L)} (hrun : Server.Steps cfg w es w') :
    Inv cfg (events ++ es) w' := by
  refine hrun.history (fun hw hl => ?_) h
  obtain ⟨w₁, hw₁, hinv, -⟩ := hw.step hl
  exact ⟨w₁, hw₁, hinv⟩

end

end SudokuProd
end ChatReactor
