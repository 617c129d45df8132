import ChatReactor.ChatLogin

/-!
# Which id a SignUp is told

`ChatServer::onSignUp` on several loop threads that share one `MysqlConnection`. The `INSERT`, the
`SELECT last_insert_id()` and `result_row_data` are three calls, and the row pointer of the last one is followed
three times after it, so its result has to stay in `m_result`. And the row that is inserted has the name and the
password of the message only if these can be pasted into the statement.

`SignUps` adds to the threaded server a record that the source does not have: the id of the row that the SignUp of
a thread has inserted, and what the SignUps so far were answered. `SignUpOk` is the assertion of each thread, with
one case for each place where a SignUp can stand; it is kept in a run whose events are all `Serial`.
-/

namespace ChatReactor

/-- What a SignUp was answered. -/
structure Answer where
  message : SignUp
  /-- The id of the row that the handler has inserted. -/
  inserted : Option Nat
  /-- The id in the `Success`. -/
  uid : Int
  deriving Repr, DecidableEq

structure SignUps (n : Nat) where
  pool : ServerPool n
  inserted : Fin n → Option Nat
  answered : List Answer

def Query.isInsert : Query → Bool
  | .insert _ _ => true
  | .lastInsertId | .select _ | .update _ _ => false

/-- What the statement pastes is stored as it is. -/
def Query.verbatim : Query → Bool
  | .insert name passwd => Verbatim name && Verbatim passwd
  | .lastInsertId | .select _ | .update _ _ => true

/-- The two statements of `onSignUp`. -/
def Query.ofSignUp : Query → Bool
  | .insert _ _ | .lastInsertId => true
  | .select _ | .update _ _ => false

namespace SignUps
variable {n : Nat}

def init (n : Nat) (s₀ : Server) : SignUps n := { pool := Pool.idle n s₀, inserted := fun _ => none, answered := [] }

/-- The row that a thread is responsible for, after its next command. -/
def tally (s : Server) (o : Outcome) (id : Option Nat) : Option (Request × Handler Unit) → Option Nat
  | some (.signUp _ _, .call (.exec (.insert name passwd)) _) =>
    if Executes s o (.insert name passwd) then some s.nextId else id
  | some (.signUp _ _, .call (.send _ (.success _)) _) => none
  | _ => id

/-- The answer that the next command of a thread is. -/
def answer (id : Option Nat) : Option (Request × Handler Unit) → List Answer
  | some (.signUp _ message, .call (.send _ (.success uid)) _) => [⟨message, id, uid⟩]
  | _ => []

/-- One event of the threaded server, and what is recorded of it. -/
def step (w : SignUps n) (e : ServerEvent n) : Option (SignUps n) :=
  (poolStep w.pool e).map fun pool => match e with
    | .start i _ => { w with pool, inserted := Function.update w.inserted i none }
    | .step i o =>
      { pool
        inserted := Function.update w.inserted i (tally w.pool.state o (w.inserted i) (w.pool.thread i))
        answered := w.answered ++ answer (w.inserted i) (w.pool.thread i) }

/-- The statement, if it succeeds, comes in the way of a SignUp: an `INSERT` before the id of the last one has been
asked for, any statement while the answer is in `m_result`. -/
def disturbs (query : Query) : Option (Request × Handler Unit) → Bool
  | some (.signUp _ _, .call (.exec .lastInsertId) _) => query.isInsert
  | some (.signUp _ _, .call (.exec _) _) => false
  -- str points into m_result
  | some (.signUp _ _, .call _ _) => true
  | _ => false

/-- The statements of a SignUp succeed, its name and password can be pasted, the ids fit an `int`, and no statement of
another thread comes in the way. -/
def Serial (w : SignUps n) : ServerEvent n → Prop
  | .start _ _ => True
  | .step i o => ∀ query ∈ issuing (w.pool.thread i),
      (query.ofSignUp = true → o = .ok ∧ query.verbatim = true) ∧ (query.isInsert = true → w.pool.state.nextId < 2 ^ 31) ∧
        (Executes w.pool.state o query → ∀ j, j ≠ i → disturbs query (w.pool.thread j) = false)

instance (w : SignUps n) : (e : ServerEvent n) → Decidable (Serial w e)
  | .start _ _ => .isTrue trivial
  | .step i _ => inferInstanceAs (Decidable (∀ query ∈ issuing _, (_ → _ ∧ _) ∧ (_ → _) ∧ (_ → ∀ j, j ≠ i → _ = _)))

/-- The table has the row of a SignUp under the id. -/
def Row (s : Server) (message : SignUp) (id : Nat) : Prop :=
  id < s.nextId ∧ ∃ status, ⟨id, message.name, message.passwd, status⟩ ∈ s.userinfo

/-- Each SignUp was told the id of the row that it has inserted, and no two were told the same. -/
def Honest (w : SignUps n) : Prop :=
  (∀ a ∈ w.answered, ∃ id : Nat, a.inserted = some id ∧ a.uid = id ∧
    ∃ status, ⟨id, a.message.name, a.message.passwd, status⟩ ∈ w.pool.state.userinfo) ∧
  (w.answered.map Answer.uid).Nodup

/-! ## The id as a text -/

theorem digits_eq : ∀ {l : List Char}, (∀ c ∈ l, c.isDigit = true) → ∀ acc, digits acc l = Nat.ofDigitChars 10 l acc
  | [], _, _ => rfl
  | c :: l, h, acc => by
    unfold digits
    rw [if_pos (h c List.mem_cons_self), digits_eq fun c hc => h c (List.mem_cons_of_mem _ hc)]
    rfl

theorem isDigit_toDigits (n : Nat) : ∀ c ∈ Nat.toDigits 10 n, c.isDigit = true := fun _ hc =>
  Nat.isDigit_of_mem_toDigits (by decide) (by decide) hc

theorem digits_toDigits (n : Nat) : digits 0 (Nat.toDigits 10 n) = n := by
  rw [digits_eq (isDigit_toDigits n), Nat.ofDigitChars_toDigits (by decide) (by decide)]

theorem not_isSpace_of_isDigit {c : Char} (h : c.isDigit = true) : isSpace c = false := by
  have hlow : 48 ≤ c.toNat := by
    simp only [Char.isDigit, Bool.and_eq_true, decide_eq_true_eq] at h
    exact UInt32.le_iff_toNat_le.1 h.1
  simp only [isSpace, decide_eq_false_iff_not]
  rintro (rfl | ⟨_, hhigh⟩)
  · exact absurd hlow (by decide)
  · omega

/-- A text that begins with a digit has neither blanks nor a sign. -/
theorem number_eq : ∀ {l : List Char}, (∀ c ∈ l, c.isDigit = true) → number l = digits 0 l
  | [], _ => rfl
  | c :: l, h => by
    have hc : c.isDigit = true := h c List.mem_cons_self
    unfold number
    rw [List.dropWhile_cons_of_neg (by simp [not_isSpace_of_isDigit hc])]
    split
    · rename_i heq
      cases heq
      exact absurd hc (by decide)
    · rename_i heq
      cases heq
      exact absurd hc (by decide)
    · rfl

/-- An id that fits an `int` is read back. -/
theorem atoi_toDigits {id : Nat} (h : id < 2 ^ 31) : atoi (Nat.toDigits 10 id) = id := by
  have hnumber : number (Nat.toDigits 10 id) = id := by
    rw [number_eq (isDigit_toDigits id), digits_toDigits]
  have hstrtol : strtol (Nat.toDigits 10 id) = id := by
    unfold strtol
    rw [hnumber]
    omega
  unfold atoi
  rw [hstrtol]
  exact Int.bmod_eq_of_le (by omega) (by omega)

/-! ## What the commands keep -/

variable {s s' : Server} {o : Outcome} {c : Cmd} {r : c.Res}

theorem nextId_run (hrun : s.run o c = some (r, s')) : s.nextId ≤ s'.nextId := by
  obtain ⟨query, s₁, result, -, hquery, rfl⟩ | hsame := run_tables hrun
  · obtain ⟨_, _, added, -, rfl, -⟩ | ⟨-, -, rfl, -⟩ | ⟨_, -, -, rfl, -⟩ | ⟨_, _, -, rfl⟩ := query_cases hquery
    · exact Nat.le_add_right _ _
    all_goals exact Nat.le_refl _
  · exact Nat.le_of_eq hsame.nextId.symm

/-- A row that was inserted stays. -/
theorem Row.run {message : SignUp} {id : Nat} (h : Row s message id) (hrun : s.run o c = some (r, s')) :
    Row s' message id := by
  obtain ⟨hid, status, hrow⟩ := h
  refine ⟨Nat.lt_of_lt_of_le hid (nextId_run hrun), ?_⟩
  obtain ⟨query, s₁, result, -, hquery, rfl⟩ | hsame := run_tables hrun
  · obtain ⟨_, _, added, -, rfl, -⟩ | ⟨-, -, rfl, -⟩ | ⟨_, -, -, rfl, -⟩ | ⟨status', uid, -, rfl⟩ := query_cases hquery
    · exact ⟨status, List.mem_append_left _ hrow⟩
    · exact ⟨status, hrow⟩
    · exact ⟨status, hrow⟩
    · -- the row may be the one whose status changes
      by_cases huid : (id : Int) = uid
      · exact ⟨status', List.mem_map.2 ⟨_, hrow, by simp [huid]⟩⟩
      · exact ⟨status, List.mem_map.2 ⟨_, hrow, by simp [huid]⟩⟩
  · exact ⟨status, hsame.userinfo ▸ hrow⟩

/-- Only an `INSERT` that succeeds changes what `last_insert_id()` gives. -/
theorem insertId_run (hrun : s.run o c = some (r, s'))
    (hc : ∀ query, c = .exec query → Executes s o query → query.isInsert = false) : s'.insertId = s.insertId := by
  obtain ⟨query, s₁, result, rfl, hquery, rfl⟩ | hsame := run_tables hrun
  · have hinsert := hc query rfl (Option.isSome_of_eq_some hquery)
    obtain ⟨_, _, added, rfl, -, -⟩ | ⟨-, -, rfl, -⟩ | ⟨_, -, -, rfl, -⟩ | ⟨_, _, -, rfl⟩ := query_cases hquery
    · cases hinsert
    all_goals rfl
  · exact hsame.insertId

/-- A row of the result that is in `m_result`. -/
theorem field_there (s : Server) (o : Outcome) (t : Text) : s.run o (.field ⟨s.results, t⟩) = some (t, s) := if_pos rfl

/-! ## Where a SignUp can stand -/

/-- The three uses of the row, the last one first. -/
def tell (conn : Conn) (str : RowPtr) : Handler Unit :=
  .call (.field str) fun t => issue (.send conn (.success (atoi t)))

def enter (conn : Conn) (str : RowPtr) : Handler Unit :=
  .call (.field str) fun t => .call (.insertRecord (atoi t) 0) fun _ => tell conn str

def register (conn : Conn) (str : RowPtr) : Handler Unit :=
  .call (.field str) fun t => .call (.insertConn (atoi t) conn) fun _ => enter conn str

/-- `onSignUp` once `result_row_data` has returned. -/
def readId (conn : Conn) (row : Option RowPtr) : Handler Unit := deref row >>= register conn

theorem onSignUp_eq (conn : Conn) (message : SignUp) : onSignUp conn message =
    .call (.exec (.insert message.name message.passwd)) fun _ => .call (.exec .lastInsertId) fun _ =>
      .call .resultRowData (readId conn) := rfl

/-- The id is known, and it is left to write the two maps and to answer. -/
inductive Telling (conn : Conn) (str : RowPtr) (id : Nat) : Handler Unit → Prop
  | register : Telling conn str id (register conn str)
  | bind {n : Int} (hn : n = id) : Telling conn str id (.call (.insertConn n conn) fun _ => enter conn str)
  | enter : Telling conn str id (enter conn str)
  | record {n : Int} (hn : n = id) : Telling conn str id (.call (.insertRecord n 0) fun _ => tell conn str)
  | tell : Telling conn str id (tell conn str)
  | success {n : Int} (hn : n = id) : Telling conn str id (issue (.send conn (.success n)))

/-- Any statement comes in its way. -/
theorem Telling.disturbed {conn : Conn} {str : RowPtr} {id : Nat} {p : Handler Unit} (h : Telling conn str id p) (query : Query)
    (message : SignUp) : disturbs query (some (.signUp conn message, p)) = true := by
  cases h <;> rfl

/-- The command is not one of a SignUp. -/
def Silent (q : Request) : Cmd → Prop
  | .exec query => query.ofSignUp = false
  | .send _ (.success _) => ∀ conn message, q ≠ .signUp conn message
  | _ => True

/-- A SignUp is before its `INSERT`, before its `SELECT` with its row as the last one inserted, between the `SELECT`
and `result_row_data` with the id of its row in `m_result`, or about to tell that id with a row that is still there; or it
has done so, or the request is another one. -/
inductive SignUpOk (s : Server) : Option Nat → Request → Handler Unit → Prop
  | start (id : Option Nat) (conn : Conn) (message : SignUp) :
      SignUpOk s id (.signUp conn message) (onSignUp conn message)
  | inserted {id : Nat} (conn : Conn) {message : SignUp} (hint : id < 2 ^ 31) (hrow : Row s message id)
      (hid : s.insertId = id) : SignUpOk s (some id) (.signUp conn message)
        (.call (.exec .lastInsertId) fun _ => .call .resultRowData (readId conn))
  | selected {id : Nat} (conn : Conn) {message : SignUp} (hint : id < 2 ^ 31) (hrow : Row s message id)
      (hid : s.result = some [Nat.toDigits 10 id]) :
      SignUpOk s (some id) (.signUp conn message) (.call .resultRowData (readId conn))
  | telling {id : Nat} {conn : Conn} {message : SignUp} {p : Handler Unit} (hint : id < 2 ^ 31) (hrow : Row s message id)
      (hp : Telling conn ⟨s.results, Nat.toDigits 10 id⟩ id p) : SignUpOk s (some id) (.signUp conn message) p
  | silent (id : Option Nat) {q : Request} {p : Handler Unit} (hp : p.All (Silent q)) : SignUpOk s id q p

variable {q : Request}

/-- Other requests have nothing of a SignUp. -/
theorem handle_silent (hq : ∀ conn message, q ≠ .signUp conn message) : (handle q).All (Silent q) := by
  refine (handle_issues q).mono fun c hc => ?_
  cases c with
  | exec query =>
    cases query with
    | insert name passwd => obtain ⟨conn, message, heq⟩ := hc; exact absurd heq (hq conn message)
    | lastInsertId => obtain ⟨conn, message, heq⟩ := hc; exact absurd heq (hq conn message)
    | select _ | update _ _ => rfl
  | send conn m =>
    cases m with
    | success uid => exact hq
    | pmessage _ | failure _ _ => trivial
  | _ => trivial

theorem SignUpOk.handle (s : Server) (id : Option Nat) : ∀ q, SignUpOk s id q (handle q)
  | .signUp conn message => .start id conn message
  | .login _ _ => .silent id (handle_silent nofun)
  | .quit _ _ => .silent id (handle_silent nofun)
  | .pmessage _ _ => .silent id (handle_silent nofun)

variable {k : c.Res → Handler Unit}

/-- The own command of a SignUp that is about to tell its id. -/
theorem Telling.own {conn : Conn} {id : Nat} {message : SignUp} (hint : id < 2 ^ 31) (hrow : Row s message id)
    (h : Telling conn ⟨s.results, Nat.toDigits 10 id⟩ id (.call c k)) (hrun : s.run o c = some (r, s')) :
    SignUpOk s' (tally s o (some id) (some (.signUp conn message, .call c k))) (.signUp conn message) (k r) := by
  have hrow' := hrow.run hrun
  have hatoi := atoi_toDigits hint
  generalize hp : Prog.call c k = p at h
  cases h with
  | register =>
    cases hp
    cases (field_there s o _).symm.trans hrun
    exact .telling hint hrow (.bind hatoi)
  | bind =>
    cases hp
    cases hrun
    exact .telling hint hrow' .enter
  | enter =>
    cases hp
    cases (field_there s o _).symm.trans hrun
    exact .telling hint hrow (.record hatoi)
  | record =>
    cases hp
    cases hrun
    exact .telling hint hrow' .tell
  | tell =>
    cases hp
    cases (field_there s o _).symm.trans hrun
    exact .telling hint hrow (.success hatoi)
  | success =>
    cases hp
    exact .silent _ trivial

/-- An `INSERT` of what can be pasted. -/
theorem executes_insert {name passwd : Text} (h : (Query.insert name passwd).verbatim = true) :
    s.query .ok (.insert name passwd) = some (s.insert [(name, passwd)], none) := if_pos h

/-- The thread's own command. -/
theorem SignUpOk.own {id : Option Nat} (h : SignUpOk s id q (.call c k)) (hrun : s.run o c = some (r, s'))
    (hok : ∀ query, c = .exec query → query.ofSignUp = true → o = .ok ∧ query.verbatim = true)
    (hint : ∀ query, c = .exec query → query.isInsert = true → s.nextId < 2 ^ 31) :
    SignUpOk s' (tally s o id (some (q, .call c k))) q (k r) := by
  generalize hp : Prog.call c k = p at h
  cases h with
  | start id conn message =>
    rw [onSignUp_eq] at hp
    cases hp
    obtain ⟨rfl, hverbatim⟩ := hok _ rfl rfl
    have hid := hint _ rfl rfl
    have hquery := executes_insert (s := s) hverbatim
    simp only [Server.run, Server.exec, hquery] at hrun
    cases hrun
    have htally : tally s .ok id (some (.signUp conn message, onSignUp conn message)) = some s.nextId :=
      if_pos (Option.isSome_of_eq_some hquery)
    rw [htally]
    exact .inserted conn hid ⟨Nat.lt_succ_self _, .offline, List.mem_append_right _ List.mem_cons_self⟩ rfl
  | inserted conn hid hrow hlast =>
    cases hp
    obtain ⟨rfl, -⟩ := hok _ rfl rfl
    have hrow' := hrow.run hrun
    cases hrun
    exact .selected conn hid hrow' (by rw [← hlast])
  | @selected id conn message hid hrow hres =>
    cases hp
    cases hrun
    have hdata : s.resultRowData = some ⟨s.results, Nat.toDigits 10 id⟩ := by rw [Server.resultRowData, hres]; rfl
    rw [hdata]
    exact .telling hid hrow .register
  | telling hint hrow hp' =>
    subst hp
    exact hp'.own hint hrow hrun
  | silent id hp' =>
    subst hp
    exact .silent _ (hp'.2 r)

/-- The command of another thread, if it does not come in the way. -/
theorem SignUpOk.other {id : Option Nat} {p : Handler Unit} (h : SignUpOk s id q p) (hrun : s.run o c = some (r, s'))
    (hquiet : ∀ query, c = .exec query → Executes s o query → disturbs query (some (q, p)) = false) :
    SignUpOk s' id q p := by
  cases h with
  | start id conn message => exact .start id conn message
  | inserted conn hint hrow hid =>
    exact .inserted conn hint (hrow.run hrun) ((insertId_run hrun hquiet).trans hid)
  | selected conn hint hrow hid =>
    obtain ⟨query, s₁, result, rfl, hquery, -⟩ | hsame := run_tables hrun
    · cases hquiet query rfl (Option.isSome_of_eq_some hquery)
    · exact .selected conn hint (hrow.run hrun) (hsame.result.trans hid)
  | telling hint hrow hp =>
    obtain ⟨query, s₁, result, rfl, hquery, -⟩ | hsame := run_tables hrun
    · cases (hp.disturbed query _).symm.trans (hquiet query rfl (Option.isSome_of_eq_some hquery))
    · exact .telling hint (hrow.run hrun) (hsame.results ▸ hp)
  | silent id hp => exact .silent id hp

/-- What the own command of a thread adds to the record: a new row, nothing, or the id of the thread's row as an answer. -/
theorem SignUpOk.recorded {id : Option Nat} (h : SignUpOk s id q (.call c k)) (hrun : s.run o c = some (r, s'))
    (hok : ∀ query, c = .exec query → query.ofSignUp = true → o = .ok ∧ query.verbatim = true) :
    (tally s o id (some (q, .call c k)) = some s.nextId ∧ answer id (some (q, .call c k)) = [] ∧
      s'.nextId = s.nextId + 1) ∨
    (tally s o id (some (q, .call c k)) = id ∧ answer id (some (q, .call c k)) = []) ∨
    ∃ row message, id = some row ∧ Row s message row ∧ tally s o id (some (q, .call c k)) = none ∧
      answer id (some (q, .call c k)) = [⟨message, some row, row⟩] := by
  generalize hp : Prog.call c k = p at h ⊢
  cases h with
  | start id conn message =>
    rw [onSignUp_eq] at hp
    cases hp
    obtain ⟨rfl, hverbatim⟩ := hok _ rfl rfl
    have hquery := executes_insert (s := s) hverbatim
    simp only [Server.run, Server.exec, hquery] at hrun
    cases hrun
    exact .inl ⟨if_pos (Option.isSome_of_eq_some hquery), rfl, rfl⟩
  | inserted conn hint hrow hid => exact .inr (.inl ⟨rfl, rfl⟩)
  | selected conn hint hrow hid => exact .inr (.inl ⟨rfl, rfl⟩)
  | telling hint hrow hp' =>
    cases hp' with
    | register | bind | enter | record | tell => exact .inr (.inl ⟨rfl, rfl⟩)
    | success hn =>
      subst hn
      exact .inr (.inr ⟨_, _, rfl, hrow, rfl, rfl⟩)
  | silent id hp' =>
    subst hp
    refine .inr (.inl ?_)
    -- only a SignUp is recorded, and of its commands only the two that are not silent
    cases q with
    | signUp conn message =>
      cases c with
      | exec query =>
        cases query with
        | insert name passwd => cases hp'.1
        | lastInsertId | select _ | update _ _ => exact ⟨rfl, rfl⟩
      | send conn' m =>
        cases m with
        | success uid => exact absurd rfl (hp'.1 conn message)
        | pmessage _ | failure _ _ => exact ⟨rfl, rfl⟩
      | _ => exact ⟨rfl, rfl⟩
    | login _ _ | quit _ _ | pmessage _ _ => exact ⟨rfl, rfl⟩

theorem SignUpOk.answers {id : Option Nat} (h : SignUpOk s id q (.call c k)) (hrun : s.run o c = some (r, s'))
    (hok : ∀ query, c = .exec query → query.ofSignUp = true → o = .ok ∧ query.verbatim = true) {a : Answer}
    (ha : a ∈ answer id (some (q, .call c k))) :
    ∃ row : Nat, a.inserted = some row ∧ a.uid = row ∧ Row s a.message row := by
  obtain ⟨-, hanswer, -⟩ | ⟨-, hanswer⟩ | ⟨row, message, -, hrow, -, hanswer⟩ := h.recorded hrun hok
  · rw [hanswer] at ha
    cases ha
  · rw [hanswer] at ha
    cases ha
  · rw [hanswer] at ha
    obtain rfl := List.mem_singleton.1 ha
    exact ⟨row, rfl, rfl, hrow⟩

/-! ## The record -/

/-- The rows that are still to be told are below `nextId`, different, and not among those told so far. -/
structure Distinct (nextId : Nat) (inserted : Fin n → Option Nat) (answered : List Answer) : Prop where
  fresh : ∀ {i id}, inserted i = some id → id < nextId
  apart : ∀ {i j id}, inserted i = some id → inserted j = some id → i = j
  untold : ∀ {i} {id : Nat}, inserted i = some id → (id : Int) ∉ answered.map Answer.uid
  told : ∀ uid ∈ answered.map Answer.uid, uid < nextId
  nodup : (answered.map Answer.uid).Nodup

section
variable {nextId nextId' : Nat} {inserted : Fin n → Option Nat} {answered : List Answer}

theorem Distinct.mono (h : Distinct nextId inserted answered) (hle : nextId ≤ nextId') :
    Distinct nextId' inserted answered where
  fresh hi := Nat.lt_of_lt_of_le (h.fresh hi) hle
  apart := h.apart
  untold := h.untold
  told uid huid := by
    have := h.told uid huid
    omega
  nodup := h.nodup

theorem Distinct.forget (h : Distinct nextId inserted answered) (i : Fin n) :
    Distinct nextId (Function.update inserted i none) answered := by
  have hold : ∀ {j id}, Function.update inserted i none j = some id → inserted j = some id := by
    intro j id hj
    obtain ⟨_, hx⟩ | ⟨_, hj⟩ := of_update_eq hj
    · cases hx
    · exact hj
  exact { fresh := fun hj => h.fresh (hold hj), apart := fun hj hk => h.apart (hold hj) (hold hk),
          untold := fun hj => h.untold (hold hj), told := h.told, nodup := h.nodup }

/-- An `INSERT` takes an id that nobody has. -/
theorem Distinct.insert (h : Distinct nextId inserted answered) (i : Fin n) :
    Distinct (nextId + 1) (Function.update inserted i (some nextId)) answered where
  fresh hj := by
    obtain ⟨_, hx⟩ | ⟨_, hj⟩ := of_update_eq hj
    · cases hx
      exact Nat.lt_succ_self _
    · exact Nat.lt_succ_of_lt (h.fresh hj)
  apart hj hk := by
    obtain ⟨rfl, hx⟩ | ⟨_, hj'⟩ := of_update_eq hj <;> obtain ⟨rfl, hy⟩ | ⟨_, hk'⟩ := of_update_eq hk
    · rfl
    · cases hx
      exact absurd (h.fresh hk') (Nat.lt_irrefl _)
    · cases hy
      exact absurd (h.fresh hj') (Nat.lt_irrefl _)
    · exact h.apart hj' hk'
  untold hj := by
    obtain ⟨_, hx⟩ | ⟨_, hj⟩ := of_update_eq hj
    · cases hx
      intro htold
      exact absurd (h.told _ htold) (Int.lt_irrefl _)
    · exact h.untold hj
  told uid huid := by
    have := h.told uid huid
    omega
  nodup := h.nodup

/-- A thread tells its row, and is done with it. -/
theorem Distinct.answer (h : Distinct nextId inserted answered) {i : Fin n} {id : Nat} (hi : inserted i = some id)
    (message : SignUp) :
    Distinct nextId (Function.update inserted i none) (answered ++ [⟨message, some id, id⟩]) where
  fresh := (h.forget i).fresh
  apart := (h.forget i).apart
  untold {j} id' hj := by
    obtain ⟨_, hx⟩ | ⟨hji, hj⟩ := of_update_eq hj
    · cases hx
    · rw [List.map_append, List.mem_append]
      rintro (htold | hnew)
      · exact h.untold hj htold
      · obtain rfl : id' = id := Int.ofNat.inj (by simpa using hnew)
        exact hji (h.apart hj hi)
  told uid huid := by
    rw [List.map_append, List.mem_append] at huid
    obtain huid | hnew := huid
    · exact h.told uid huid
    · have hid := h.fresh hi
      simp only [List.map_cons, List.map_nil, List.mem_singleton] at hnew
      omega
  nodup := by
    rw [List.map_append]
    refine List.nodup_append.2 ⟨h.nodup, by simp, ?_⟩
    rintro uid htold uid' hnew rfl
    obtain rfl : uid = id := by simpa using hnew
    exact h.untold hi htold

end

/-! ## Runs -/

/-- A run of the threaded server, each event meeting `ok`. -/
abbrev Steps (ok : SignUps n → ServerEvent n → Prop) := Run step fun w e => e.Legal w.pool ∧ ok w e

structure Inv (w : SignUps n) : Prop where
  threads : ∀ i q p, w.pool.thread i = some (q, p) → SignUpOk w.pool.state (w.inserted i) q p
  distinct : Distinct w.pool.state.nextId w.inserted w.answered
  answered : ∀ a ∈ w.answered, ∃ id : Nat, a.inserted = some id ∧ a.uid = id ∧ Row w.pool.state a.message id

theorem Inv.init (s₀ : Server) : Inv (init n s₀) where
  threads _ _ _ h := nomatch h
  distinct := { fresh := nofun, apart := nofun, untold := nofun, told := nofun, nodup := List.nodup_nil }
  answered := nofun

theorem Inv.honest {w : SignUps n} (h : Inv w) : Honest w := by
  refine ⟨fun a ha => ?_, h.distinct.nodup⟩
  obtain ⟨id, hins, huid, -, hrow⟩ := h.answered a ha
  exact ⟨id, hins, huid, hrow⟩

/-- One thread and its row have changed. -/
theorem threads_update {thread : Fin n → Option (Request × Handler Unit)} {inserted : Fin n → Option Nat} {i : Fin n}
    {x : Option (Request × Handler Unit)} {id : Option Nat} (hx : ∀ q p, x = some (q, p) → SignUpOk s id q p)
    (hthread : ∀ j q p, j ≠ i → thread j = some (q, p) → SignUpOk s (inserted j) q p) (j : Fin n) (q : Request)
    (p : Handler Unit) (hj : Function.update thread i x j = some (q, p)) :
    SignUpOk s (Function.update inserted i id j) q p := by
  by_cases hji : j = i
  · subst hji
    rw [Function.update_self] at hj ⊢
    exact hx q p hj
  · rw [Function.update_of_ne hji] at hj ⊢
    exact hthread j q p hji hj

/-- **One event keeps the assertions and the record.** -/
theorem Inv.step {w w' : SignUps n} {e : ServerEvent n} (h : Inv w) (hserial : Serial w e)
    (hw' : w.step e = some w') : Inv w' := by
  obtain ⟨pool, hpool, rfl⟩ := Option.map_eq_some_iff.1 hw'
  cases Pool.step_moves hpool with
  | start i q =>
    refine ⟨threads_update ?_ fun j q' p' _ hj => h.threads j q' p' hj, h.distinct.forget i, h.answered⟩
    rintro q' p' ⟨⟩
    exact SignUpOk.handle _ _ q
  | ret i o hi =>
    simp only [hi]
    refine ⟨threads_update nofun fun j q' p' _ hj => h.threads j q' p' hj, ?_, ?_⟩
    · simpa [tally, answer] using h.distinct
    · simpa [answer] using h.answered
  | @call i o q c k r s' hi hrun =>
    have hissue : ∀ query, c = .exec query → query ∈ issuing (w.pool.thread i) := by
      rintro query rfl
      rw [hi]
      rfl
    have hown := h.threads i q _ hi
    have hok : ∀ query, c = .exec query → query.ofSignUp = true → o = .ok ∧ query.verbatim = true := fun query hc =>
      (hserial query (hissue query hc)).1
    simp only [hi]
    refine ⟨threads_update ?_ fun j q' p' hji hj => ?_, ?_, ?_⟩
    · rintro q' p' ⟨⟩
      exact hown.own hrun hok fun query hc => (hserial query (hissue query hc)).2.1
    · refine (h.threads j q' p' hj).other hrun fun query hc hsucc => ?_
      rw [← hj]
      exact (hserial query (hissue query hc)).2.2 hsucc j hji
    · obtain ⟨htally, hanswer, hnext⟩ | ⟨htally, hanswer⟩ | ⟨row, message, hins, hrow, htally, hanswer⟩ :=
        hown.recorded hrun hok
      · rw [htally, hanswer, List.append_nil, hnext]
        exact h.distinct.insert i
      · rw [htally, hanswer, List.append_nil, Function.update_eq_self]
        exact h.distinct.mono (nextId_run hrun)
      · rw [htally, hanswer]
        exact (h.distinct.answer hins message).mono (nextId_run hrun)
    · intro a ha
      have hwas : ∃ id : Nat, a.inserted = some id ∧ a.uid = id ∧ Row w.pool.state a.message id := by
        obtain ha | ha := List.mem_append.1 ha
        · exact h.answered a ha
        · exact hown.answers hrun hok ha
      obtain ⟨id, hins, huid, hrow⟩ := hwas
      exact ⟨id, hins, huid, hrow.run hrun⟩

/-- **A SignUp is told the id of its own row, and no two are told the same**, in every interleaving of the handlers on
any number of threads, as long as no statement comes in the way of a SignUp and names and passwords can be pasted. -/
theorem sign_up_honest (s₀ : Server) {events : List (ServerEvent n)} {w : SignUps n}
    (hrun : Steps Serial (init n s₀) events w) : Honest w :=
  (hrun.invariant Inv (fun h hok he => h.step hok.2 he) (Inv.init s₀)).honest

/-- Two SignUps with the same name and password that overlap: the second begins to insert when the first has answered. -/
theorem sign_up_honest_two : ∃ w : SignUps 2,
    Steps Serial (init 2 twoUsers) ([.start 0 (.signUp 5 ⟨['n'], ['p']⟩), .start 1 (.signUp 6 ⟨['n'], ['p']⟩)] ++
        List.replicate 9 (.step 0 .ok) ++ List.replicate 9 (.step 1 .ok)) w ∧
      w.answered.map Answer.uid = [3, 4] ∧ Honest w :=
  have hrun := Run.of_exec _ _ (by decide +kernel)
  ⟨_, hrun, by decide +kernel, sign_up_honest twoUsers hrun⟩

/-- Without the condition it does not hold, even if no statement fails: when the second SignUp inserts before the first
one has asked for its id, both are told the id of the second row. -/
theorem sign_up_told_other_id : ∃ w : SignUps 2,
    Steps (fun _ e => Succeeds e) (init 2 twoUsers)
      ([.start 0 (.signUp 5 ⟨['n'], ['p']⟩), .start 1 (.signUp 6 ⟨['m'], ['q']⟩), .step 0 .ok, .step 1 .ok] ++
        List.replicate 8 (.step 0 .ok) ++ List.replicate 8 (.step 1 .ok)) w ∧
      w.answered = [⟨⟨['n'], ['p']⟩, some 3, 4⟩, ⟨⟨['m'], ['q']⟩, some 4, 4⟩] ∧ ¬Honest w := by
  refine ⟨_, Run.of_exec _ _ (by decide +kernel), by decide +kernel, fun h => ?_⟩
  exact absurd h.2 (by decide +kernel)

end SignUps
end ChatReactor
