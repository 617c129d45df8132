import Mathlib.Data.List.Basic
import Mathlib.Data.List.Count
import Mathlib.Data.List.Induction

/-!
# The connection to the database (`mysql_connection.h`, `mysql_connection.cc`)

| here | there |
| --- | --- |
| `MysqlConnection` | the object: `m_mysql`, `m_result`, `m_connected` |
| `init`, `fini` | `mysql_connection.cc:157-192`; the destructor is `fini` |
| `exec` | `mysql_connection.cc:206-222` |
| `freeResult` | `free_result` (`mysql_connection.h:88-95`) |
| `LibCall`, `calls` | what is asked of the client library, in order |
| `Handle`, `Answer` | its side of it |

`none` is a call on a `MYSQL` that `mysql_init` has not set up. A query on a handle without a connection fails. Results
are numbered in the order in which `mysql_store_result` gives them out.

`init` sets `m_connected` whether or not `mysql_real_connect` succeeds, and `fini` acts only if it is not set. So `fini`
does nothing on an object that has been set up (`fini_connected`), and works on a handle that has not been otherwise
(`fini_raw`): no connection is ever closed, and the last result is never freed (`lifecycle_iff`).
-/

namespace ChatReactor

/-- The state of a `MYSQL`. -/
inductive MysqlConnection.Handle
  | raw
  | ready (connected : Bool)
  deriving DecidableEq, Repr

inductive MysqlConnection.LibCall
  | realConnect (ok : Bool)
  | query (sql : List UInt8)
  | freeResult (res : Nat)
  | close
  deriving DecidableEq, Repr

/-- How the server answers a query: whether it succeeds, whether there is a result, and `mysql_field_count`. -/
structure MysqlConnection.Answer where
  ok : Bool
  result : Bool
  fieldCount : Nat
  deriving DecidableEq, Repr

structure MysqlConnection where
  mMysql : MysqlConnection.Handle
  mResult : Option Nat
  mConnected : Bool
  /-- The results given out so far. -/
  stored : Nat
  calls : List MysqlConnection.LibCall
  deriving DecidableEq, Repr

namespace MysqlConnection

def new : MysqlConnection := ⟨.raw, none, false, 0, []⟩

def connected (c : MysqlConnection) : Bool := c.mConnected

/-- `ok` is what `mysql_real_connect` does. -/
def init (c : MysqlConnection) (ok : Bool) : Int × MysqlConnection :=
  (if ok then 0 else -1,
    { c with mMysql := .ready ok, mConnected := true, calls := c.calls ++ [.realConnect ok] })

def freeResult (c : MysqlConnection) : MysqlConnection :=
  match c.mResult with
  | some res => { c with mResult := none, calls := c.calls ++ [.freeResult res] }
  | none => c

def fini (c : MysqlConnection) : Option MysqlConnection :=
  if c.mConnected = false then
    match c.mMysql with
    | .raw => none
    | .ready _ =>
      let c := c.freeResult
      some { c with mMysql := .raw, mConnected := false, calls := c.calls ++ [.close] }
  else some c

/-- `mysql_query` -/
def asked (c : MysqlConnection) (sql : List UInt8) : MysqlConnection := { c with calls := c.calls ++ [.query sql] }

/-- The end of `exec`: `mysql_store_result` has given a result or `NULL`, which takes the place of the old one. -/
def replaced (c : MysqlConnection) (result : Bool) : MysqlConnection :=
  if result then { c.freeResult with mResult := some c.stored, stored := c.stored + 1 } else c.freeResult

def exec (c : MysqlConnection) (sql : List UInt8) (answer : Answer) : Option (Int × MysqlConnection) :=
  if c.mConnected = false then some (-1, c)
  else match c.mMysql with
    | .raw => none
    | .ready link =>
      let c := c.asked sql
      if (link && answer.ok) = false then some (-1, c)
      else if answer.result = false ∧ answer.fieldCount ≠ 0 then some (-1, c)
      else some (0, c.replaced answer.result)

/-! ## The life of an object -/

inductive Op
  | init (ok : Bool)
  | exec (sql : List UInt8) (answer : Answer)
  | freeResult
  | fini
  deriving DecidableEq, Repr

def step (c : MysqlConnection) : Op → Option MysqlConnection
  | .init ok => some (c.init ok).2
  | .exec sql answer => (c.exec sql answer).map (·.2)
  | .freeResult => some c.freeResult
  | .fini => c.fini

def run (ops : List Op) : Option MysqlConnection := ops.foldlM step new

def frees (c : MysqlConnection) (res : Nat) : Nat := c.calls.count (.freeResult res)

def closes (c : MysqlConnection) : Nat := c.calls.count .close

/-- Between a successful `init` and the next `fini`. -/
def connectedAfter (ops : List Op) : Bool :=
  ops.foldl (fun connected op => match op with
    | .init true => true
    | .fini => false
    | _ => connected) false

def Op.init? : Op → Option Bool
  | .init ok => some ok
  | _ => none

/-- How each `init` has gone. -/
def inits (ops : List Op) : List Bool := ops.filterMap Op.init?

/-- What the life of an object should be like, up to its destruction if it is `destroyed` at the end. -/
structure Lifecycle (ops : List Op) (destroyed : Bool) : Prop where
  defined : ∃ c, run ops = some c
  connected_iff : ∀ before, before <+: ops → ∀ c, run before = some c → c.connected = connectedAfter before
  /-- After an `init` that has failed. -/
  no_query : ∀ before sql answer, before ++ [.exec sql answer] <+: ops → (inits before).getLast? = some false →
    ∀ c, run before = some c → ∃ c', c.exec sql answer = some (-1, c') ∧ c'.calls = c.calls
  freed_le : ∀ c, run ops = some c → ∀ res, c.frees res ≤ 1
  freed : destroyed = true → ∀ c, run ops = some c → ∃ c', c.fini = some c' ∧
    (∀ res < c'.stored, c'.frees res = 1) ∧ c'.closes = ops.count (.init true)

/-! ## One step -/

section
variable {c c' : MysqlConnection}

@[simp] theorem freeResult_mMysql (c : MysqlConnection) : c.freeResult.mMysql = c.mMysql := by
  unfold freeResult
  split <;> rfl

@[simp] theorem freeResult_mConnected (c : MysqlConnection) : c.freeResult.mConnected = c.mConnected := by
  unfold freeResult
  split <;> rfl

@[simp] theorem freeResult_stored (c : MysqlConnection) : c.freeResult.stored = c.stored := by
  unfold freeResult
  split <;> rfl

@[simp] theorem freeResult_mResult (c : MysqlConnection) : c.freeResult.mResult = none := by
  unfold freeResult
  split
  · rfl
  · assumption

@[simp] theorem freeResult_closes (c : MysqlConnection) : c.freeResult.closes = c.closes := by
  unfold freeResult closes
  split
  · simp [List.count_append]
  · rfl

@[simp] theorem replaced_mConnected (c : MysqlConnection) (result : Bool) :
    (c.replaced result).mConnected = c.mConnected := by
  cases result <;> simp [replaced]

theorem calls_replaced (c : MysqlConnection) (result : Bool) : ∃ calls, (c.replaced result).calls = c.calls ++ calls := by
  have hfree : ∃ calls, c.freeResult.calls = c.calls ++ calls := by
    unfold freeResult
    split
    · exact ⟨_, rfl⟩
    · exact ⟨[], (List.append_nil _).symm⟩
  cases result <;> exact hfree

theorem freeResult_frees (c : MysqlConnection) (res : Nat) :
    c.freeResult.frees res = c.frees res + if c.mResult = some res then 1 else 0 := by
  unfold freeResult frees
  cases hres : c.mResult with
  | none => simp
  | some r =>
    by_cases hr : r = res <;> simp [List.count_append, hr]

/-- What holds of an object after any calls: the handle is set up exactly if `m_connected` says so, nothing has been
closed, and a result has been freed once, unless it is the current one. -/
structure Inv (c : MysqlConnection) : Prop where
  raw_iff : c.mMysql = .raw ↔ c.mConnected = false
  closes_eq : c.closes = 0
  current_lt : ∀ res, c.mResult = some res → res < c.stored
  frees_eq : ∀ res, c.frees res = if res < c.stored ∧ c.mResult ≠ some res then 1 else 0

theorem inv_new : Inv new := ⟨by decide, rfl, by simp [new], by simp [new, frees]⟩

/-- On an object that has been set up, `fini` does nothing. -/
theorem fini_connected (h : c.mConnected = true) : c.fini = some c := by simp [fini, h]

/-- On an object that has not been set up, `fini` has no defined behaviour. -/
theorem fini_raw (h : Inv c) (hnot : c.mConnected = false) : c.fini = none := by
  simp [fini, hnot, h.raw_iff.2 hnot]

theorem Inv.freeResult (h : Inv c) : Inv c.freeResult := by
  refine ⟨by simpa using h.raw_iff, by simpa using h.closes_eq, by simp, fun res => ?_⟩
  rw [freeResult_frees, h.frees_eq]
  have hlt := h.current_lt res
  by_cases hres : c.mResult = some res <;> simp_all

/-- What `exec` does. -/
theorem exec_eq (h : Inv c) (sql : List UInt8) (answer : Answer) : ∃ r c', c.exec sql answer = some (r, c') ∧
    ((c.mConnected = false ∧ r = -1 ∧ c' = c) ∨
      (c.mConnected = true ∧ (c' = c.asked sql ∨ c' = (c.asked sql).replaced answer.result))) := by
  cases hconn : c.mConnected with
  | false => exact ⟨-1, c, by simp [exec, hconn], .inl ⟨rfl, rfl, rfl⟩⟩
  | true =>
    cases hmysql : c.mMysql with
    | raw => simp [h.raw_iff.1 hmysql] at hconn
    | ready link =>
      simp only [exec, hconn, hmysql, Bool.true_eq_false, if_false]
      split_ifs
      · exact ⟨_, _, rfl, .inr ⟨trivial, .inl rfl⟩⟩
      · exact ⟨_, _, rfl, .inr ⟨trivial, .inl rfl⟩⟩
      · exact ⟨_, _, rfl, .inr ⟨trivial, .inr rfl⟩⟩

/-- On an object that has been set up, `exec` issues a query. -/
theorem exec_query (h : Inv c) (hconn : c.mConnected = true) (sql : List UInt8) (answer : Answer) :
    ∃ r c' calls, c.exec sql answer = some (r, c') ∧ c'.calls = c.calls ++ .query sql :: calls := by
  obtain ⟨r, c', hexec, ⟨hnot, -⟩ | ⟨-, rfl | rfl⟩⟩ := exec_eq h sql answer
  · rw [hconn] at hnot
    cases hnot
  · exact ⟨r, _, [], hexec, rfl⟩
  · obtain ⟨calls, hcalls⟩ := calls_replaced (c.asked sql) answer.result
    refine ⟨r, _, calls, hexec, ?_⟩
    rw [hcalls]
    simp [asked]

/-- A call of another kind leaves the counts alone. -/
theorem Inv.of_calls (h : Inv c) {call : LibCall} (hcalls : c'.calls = c.calls ++ [call]) (hclose : call ≠ .close)
    (hfree : ∀ res, call ≠ .freeResult res) (hraw : c'.mMysql = .raw ↔ c'.mConnected = false)
    (hresult : c'.mResult = c.mResult) (hstored : c'.stored = c.stored) : Inv c' := by
  have hcloses : c'.closes = c.closes := by simp [closes, hcalls, List.count_append, hclose]
  have hfrees : ∀ res, c'.frees res = c.frees res := fun res => by simp [frees, hcalls, List.count_append, hfree res]
  refine ⟨hraw, hcloses.trans h.closes_eq, ?_, fun res => ?_⟩
  · rw [hresult, hstored]
    exact h.current_lt
  · rw [hfrees, hresult, hstored, h.frees_eq]

theorem Inv.asked (h : Inv c) (sql : List UInt8) : Inv (c.asked sql) :=
  h.of_calls rfl (by simp) (by simp) h.raw_iff rfl rfl

theorem Inv.init (h : Inv c) (ok : Bool) : Inv (c.init ok).2 :=
  h.of_calls rfl (by simp) (by simp) (by simp [MysqlConnection.init]) rfl rfl

theorem Inv.replaced (h : Inv c) (result : Bool) : Inv (c.replaced result) := by
  cases result
  · exact h.freeResult
  · have hfree := h.freeResult
    refine ⟨hfree.raw_iff, hfree.closes_eq, ?_, fun res => (hfree.frees_eq res).trans ?_⟩
    · intro res hres
      obtain rfl : c.stored = res := Option.some.inj hres
      exact Nat.lt_succ_self _
    · have hlt : res < c.stored ↔ res < c.stored + 1 ∧ c.stored ≠ res := by omega
      simp [MysqlConnection.replaced, hlt]

theorem Inv.step (h : Inv c) {op : Op} (hstep : c.step op = some c') :
    Inv c' ∧ c'.mConnected = (c.mConnected || op.init?.isSome) := by
  cases op with
  | init ok =>
    cases hstep
    exact ⟨h.init ok, by simp [MysqlConnection.init, Op.init?]⟩
  | exec sql answer =>
    obtain ⟨r, c₁, hexec, hcases⟩ := exec_eq h sql answer
    obtain rfl : c₁ = c' := by simpa [MysqlConnection.step, hexec] using hstep
    obtain ⟨-, -, rfl⟩ | ⟨-, rfl | rfl⟩ := hcases
    · exact ⟨h, by simp [Op.init?]⟩
    · exact ⟨h.asked sql, by simp [MysqlConnection.asked, Op.init?]⟩
    · exact ⟨(h.asked sql).replaced _, by simp [MysqlConnection.asked, Op.init?]⟩
  | freeResult =>
    cases hstep
    exact ⟨h.freeResult, by simp [Op.init?]⟩
  | fini =>
    cases hconn : c.mConnected with
    | false => simp [MysqlConnection.step, fini_raw h hconn] at hstep
    | true =>
      rw [MysqlConnection.step, fini_connected hconn] at hstep
      cases hstep
      exact ⟨h, by simp [hconn]⟩

/-! ## A whole life -/

theorem run_append (ops ops' : List Op) : run (ops ++ ops') = (run ops).bind fun c => ops'.foldlM step c := by
  simp [run, List.foldlM_append]

theorem run_concat (ops : List Op) (op : Op) : run (ops ++ [op]) = (run ops).bind fun c => c.step op := by
  simp [run_append]

variable {ops : List Op}

/-- A beginning of a defined life is defined. -/
theorem run_before {before : List Op} (hbefore : before <+: ops) (h : run ops = some c) : ∃ c', run before = some c' := by
  obtain ⟨rest, rfl⟩ := hbefore
  rw [run_append, Option.bind_eq_some_iff] at h
  obtain ⟨c', hc', -⟩ := h
  exact ⟨c', hc'⟩

theorem inits_append (ops ops' : List Op) : inits (ops ++ ops') = inits ops ++ inits ops' := List.filterMap_append

theorem inits_concat (ops : List Op) (op : Op) : inits (ops ++ [op]) = inits ops ++ op.init?.toList := by
  rw [inits_append]
  cases hop : op.init? <;> simp [inits, hop]

/-- `m_connected` says whether there has been an `init`. -/
theorem run_inv (h : run ops = some c) : Inv c ∧ c.mConnected = !(inits ops).isEmpty := by
  induction ops using List.reverseRecOn generalizing c with
  | nil =>
    cases h
    exact ⟨inv_new, rfl⟩
  | append_singleton ops op ih =>
    rw [run_concat, Option.bind_eq_some_iff] at h
    obtain ⟨c₁, hops, hstep⟩ := h
    obtain ⟨hinv, hconn⟩ := ih hops
    obtain ⟨hinv', hconn'⟩ := hinv.step hstep
    refine ⟨hinv', ?_⟩
    rw [hconn', hconn, inits_concat]
    cases op.init? <;> simp

theorem connectedAfter_concat (ops : List Op) (op : Op) : connectedAfter (ops ++ [op]) =
    match op with
    | .init true => true
    | .fini => false
    | _ => connectedAfter ops := by
  simp [connectedAfter]

/-- Without `fini`, and if the first `init` succeeds, the object should be connected from then on. -/
theorem connectedAfter_eq (hfini : .fini ∉ ops) (hfirst : (inits ops).head? ≠ some false) :
    connectedAfter ops = !(inits ops).isEmpty := by
  induction ops using List.reverseRecOn with
  | nil => rfl
  | append_singleton ops op ih =>
    obtain ⟨hfini, hop⟩ : .fini ∉ ops ∧ op ≠ .fini := by simpa [eq_comm] using hfini
    rw [inits_concat, List.head?_append] at hfirst
    have hfirst' : (inits ops).head? ≠ some false := by
      intro hfalse
      simp [hfalse] at hfirst
    specialize ih hfini hfirst'
    rw [connectedAfter_concat, inits_concat]
    cases op with
    | init ok =>
      cases ok
      · cases hinits : inits ops with
        | nil => simp [hinits, Op.init?] at hfirst
        | cons first rest => simp [ih, hinits]
      · simp [Op.init?]
    | exec sql answer => simp [ih, Op.init?]
    | freeResult => simp [ih, Op.init?]
    | fini => exact absurd rfl hop

/-- Before the first `init` it should not be. -/
theorem connectedAfter_of_inits (h : inits ops = []) : connectedAfter ops = false := by
  induction ops using List.reverseRecOn with
  | nil => rfl
  | append_singleton ops op ih =>
    rw [inits_concat, List.append_eq_nil_iff] at h
    rw [connectedAfter_concat]
    cases op with
    | init ok => simp [Op.init?] at h
    | exec sql answer => exact ih h.1
    | freeResult => exact ih h.1
    | fini => rfl

/-- Where the first `init` is. -/
theorem exists_of_inits_head {ok : Bool} (h : (inits ops).head? = some ok) :
    ∃ before, before ++ [.init ok] <+: ops ∧ inits before = [] := by
  induction ops with
  | nil => cases h
  | cons op ops ih =>
    cases hop : op.init? with
    | some ok' =>
      obtain rfl : ok' = ok := by simpa [inits, hop] using h
      cases op with
      | init ok =>
        obtain rfl : ok = ok' := Option.some.inj hop
        exact ⟨[], ⟨ops, rfl⟩, rfl⟩
      | _ => cases hop
    | none =>
      obtain ⟨before, hbefore, hinits⟩ := ih (by simpa [inits, hop] using h)
      exact ⟨op :: before, List.cons_prefix_cons.2 ⟨rfl, hbefore⟩, by simpa [inits, hop] using hinits⟩

/-- Only `fini` can be undefined. -/
theorem run_isSome (hfini : .fini ∉ ops) : ∃ c, run ops = some c := by
  induction ops using List.reverseRecOn with
  | nil => exact ⟨new, rfl⟩
  | append_singleton ops op ih =>
    obtain ⟨hfini, hop⟩ : .fini ∉ ops ∧ op ≠ .fini := by simpa [eq_comm] using hfini
    obtain ⟨c, hc⟩ := ih hfini
    rw [run_concat, hc, Option.bind_some]
    cases op with
    | init ok => exact ⟨_, rfl⟩
    | exec sql answer =>
      obtain ⟨r, c', hexec, -⟩ := exec_eq (run_inv hc).1 sql answer
      exact ⟨c', by simp [step, hexec]⟩
    | freeResult => exact ⟨_, rfl⟩
    | fini => exact absurd rfl hop

section
variable {ops : List Op} {destroyed : Bool}

theorem Lifecycle.fini_not_mem (h : Lifecycle ops destroyed) : .fini ∉ ops := by
  intro hmem
  obtain ⟨before, rest, rfl⟩ := List.append_of_mem hmem
  obtain ⟨c, hc⟩ := h.defined
  have hbegin : before ++ [.fini] <+: before ++ .fini :: rest := ⟨rest, by simp⟩
  obtain ⟨c', hc'⟩ := run_before hbegin hc
  have hconn := h.connected_iff _ hbegin c' hc'
  rw [connectedAfter_concat] at hconn
  -- the call was defined, so that there had been an `init`
  rw [run_concat, Option.bind_eq_some_iff] at hc'
  obtain ⟨c₁, hc₁, hfini⟩ := hc'
  cases hconn₁ : c₁.mConnected with
  | false => simp [step, fini_raw (run_inv hc₁).1 hconn₁] at hfini
  | true =>
    rw [step, fini_connected hconn₁] at hfini
    cases hfini
    rw [connected, hconn₁] at hconn
    cases hconn

theorem Lifecycle.first_ok (h : Lifecycle ops destroyed) : (inits ops).head? ≠ some false := by
  intro hfirst
  obtain ⟨before, hbefore, hinits⟩ := exists_of_inits_head hfirst
  obtain ⟨c, hc⟩ := h.defined
  obtain ⟨c', hc'⟩ := run_before hbefore hc
  have hconn := h.connected_iff _ hbefore c' hc'
  rw [connectedAfter_concat, connected, (run_inv hc').2, inits_concat] at hconn
  simp [connectedAfter_of_inits hinits, Op.init?] at hconn

theorem Lifecycle.not_destroyed (h : Lifecycle ops destroyed) : destroyed = false := by
  cases destroyed with
  | false => rfl
  | true =>
    obtain ⟨c, hc⟩ := h.defined
    obtain ⟨c', hfini, -, hcloses⟩ := h.freed rfl c hc
    obtain ⟨hinv, hconn⟩ := run_inv hc
    have hafter := h.connected_iff ops List.prefix_rfl c hc
    cases hconn' : c.mConnected with
    | false => simp [fini_raw hinv hconn'] at hfini
    | true =>
      rw [fini_connected hconn'] at hfini
      cases hfini
      -- the first `init` has succeeded and nothing has been closed since
      cases hinits : inits ops with
      | nil => simp [hconn', hinits] at hconn
      | cons first rest =>
        have hfirst := h.first_ok
        obtain rfl : first = true := by simpa [hinits] using hfirst
        have hhead : (inits ops).head? = some true := by rw [hinits, List.head?_cons]
        obtain ⟨before, hbefore, -⟩ := exists_of_inits_head hhead
        have hmem : .init true ∈ ops := hbefore.subset (by simp)
        have hpos := List.count_pos_iff.2 hmem
        rw [← hcloses, hinv.closes_eq] at hpos
        omega

end

/-- **The life of an object.** It is what it should be exactly as long as the object is not destroyed, `fini` is not
called, the first `init` succeeds, and `exec` is not called after one that has failed. -/
theorem lifecycle_iff (ops : List Op) (destroyed : Bool) : Lifecycle ops destroyed ↔
    destroyed = false ∧ .fini ∉ ops ∧ (inits ops).head? ≠ some false ∧
      ∀ before sql answer, before ++ [.exec sql answer] <+: ops → (inits before).getLast? ≠ some false := by
  constructor
  · intro h
    refine ⟨h.not_destroyed, h.fini_not_mem, h.first_ok, fun before sql answer hbefore hlast => ?_⟩
    obtain ⟨c, hc⟩ := h.defined
    obtain ⟨c₁, hc₁⟩ := run_before ((List.prefix_append _ _).trans hbefore) hc
    obtain ⟨c', hexec, hcalls⟩ := h.no_query before sql answer hbefore hlast c₁ hc₁
    obtain ⟨hinv, hconn⟩ := run_inv hc₁
    have hinits : inits before ≠ [] := by
      intro hnil
      simp [hnil] at hlast
    obtain ⟨r, c₂, calls, hexec', hcalls'⟩ := exec_query hinv (by simp [hconn, hinits]) sql answer
    rw [hexec] at hexec'
    cases hexec'
    simp [hcalls] at hcalls'
  · rintro ⟨rfl, hfini, hfirst, hexec⟩
    exact {
      defined := run_isSome hfini
      connected_iff := by
        rintro before ⟨rest, rfl⟩ c hc
        have hfirst' : (inits before).head? ≠ some false := by
          intro hfalse
          simp [inits_append, hfalse] at hfirst
        rw [connected, (run_inv hc).2, connectedAfter_eq (fun hmem => hfini (by simp [hmem])) hfirst']
      no_query := fun before sql answer hbefore hlast => absurd hlast (hexec before sql answer hbefore)
      freed_le := by
        intro c hc res
        rw [(run_inv hc).1.frees_eq]
        split <;> omega
      freed := by simp }

/-- After a failing `init` the object says that it is connected. After a query with a result, its destruction leaves the
connection open and the result in memory. -/
theorem never_closed : (∃ c, run [.init false] = some c ∧ c.connected = true) ∧
    ∃ c c', run [.init true, .exec [83] ⟨true, true, 1⟩] = some c ∧ c.fini = some c' ∧
      c'.closes = 0 ∧ c'.stored = 1 ∧ c'.frees 0 = 0 := by
  refine ⟨⟨_, rfl, rfl⟩, ?_⟩
  refine ⟨_, _, rfl, rfl, ?_⟩
  decide

end
end MysqlConnection
end ChatReactor
