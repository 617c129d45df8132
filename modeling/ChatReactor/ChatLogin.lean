import ChatReactor.ChatServer

/-!
# Who a Login binds

The handlers run on several loop threads and share one `MysqlConnection`. `onLogin` gets the row of its
`SELECT` with a second call, `result_row_data`, and does not look at the return code of the first: the row is
one of whatever `m_result` holds by then. A `SELECT` that failed leaves the result of somebody else's query
there, and another thread's query can replace the result between the two calls, or free it before the
password is read through the row, of which a NUL is the end.

`LoginOk` is the assertion of each thread, with one case for each place where a Login can stand. It is kept
as long as none of this happens (`Undisturbed`), and it says that a connection is bound only by a
Login that knows the password.
-/

namespace ChatReactor

abbrev ServerPool (n : Nat) := Pool n Server Cmd Cmd.Res Request
abbrev ServerEvent (n : Nat) := Pool.Event n Outcome Request

/-- One event of the threaded server. -/
def poolStep {n : Nat} (w : ServerPool n) (e : ServerEvent n) : Option (ServerPool n) :=
  w.step (fun s o c => s.run o c) handle e

/-! ## What the commands keep -/

/-- A status does not matter to the passwords. -/
theorem passwords_update (rows : List UserInfo) (status : UserStaus) (uid uid' : Int) :
    ((rows.map fun row => if (row.userId : Int) = uid then { row with status := status } else row).filter fun row =>
        (row.userId : Int) = uid').map UserInfo.password =
      (rows.filter fun row => (row.userId : Int) = uid').map UserInfo.password := by
  induction rows with
  | nil => rfl
  | cons row rows ih =>
    simp only [List.map_cons, List.filter_cons] at ih ⊢
    by_cases h : (row.userId : Int) = uid' <;> by_cases h' : (row.userId : Int) = uid <;> simp_all

variable {s s' : Server} {o : Outcome}

/-- What a statement that succeeds can do to the tables. -/
theorem query_cases {q : Query} {result : Option (List Text)} (h : s.query o q = some (s', result)) :
    (∃ name passwd added, q = .insert name passwd ∧ s' = s.insert added ∧
      (o = .ok → (Verbatim name && Verbatim passwd) = true ∧ added = [(name, passwd)])) ∨
    (o = .ok ∧ q = .lastInsertId ∧ s' = s ∧ result = some [Nat.toDigits 10 s.insertId]) ∨
    (∃ uid, o = .ok ∧ q = .select uid ∧ s' = s ∧ result = some ((s.passwords uid).map cText)) ∨
    ∃ status uid, q = .update status uid ∧ s' = { s with userinfo := s.userinfo.map fun row =>
      if (row.userId : Int) = uid then { row with status := status } else row } := by
  unfold Server.query at h
  split at h
  case h_1 name passwd =>
    split at h
    case isTrue hverbatim =>
      cases h
      exact .inl ⟨name, passwd, _, rfl, rfl, fun _ => ⟨hverbatim, rfl⟩⟩
    case isFalse => cases h
  case h_2 added name passwd =>
    split at h
    case isTrue => cases h
    case isFalse =>
      cases h
      exact .inl ⟨name, passwd, added, rfl, rfl, nofun⟩
  case h_3 =>
    cases h
    exact .inr (.inl ⟨rfl, rfl, rfl, rfl⟩)
  case h_4 uid =>
    cases h
    exact .inr (.inr (.inl ⟨uid, rfl, rfl, rfl, rfl⟩))
  case h_5 status uid =>
    cases h
    exact .inr (.inr (.inr ⟨status, uid, rfl, rfl⟩))
  case h_6 => cases h

theorem stored_query {q : Query} {result : Option (List Text)} (h : s.query o q = some (s', result)) {uid : Int}
    {pwd : Text} (hpwd : s.stored uid = some pwd) : s'.stored uid = some pwd := by
  unfold Server.stored Server.passwords at *
  obtain ⟨name, passwd, added, -, rfl, -⟩ | ⟨-, -, rfl, -⟩ | ⟨_, -, -, rfl, -⟩ | ⟨status, uid', -, rfl⟩ := query_cases h
  · simp only [Server.insert, List.filter_append, List.map_append]
    rw [List.head?_append, hpwd]
    rfl
  · exact hpwd
  · exact hpwd
  · rw [passwords_update, hpwd]

/-- The tables and the result set are the same. -/
structure SameTables (s s' : Server) : Prop where
  userinfo : s'.userinfo = s.userinfo
  nextId : s'.nextId = s.nextId
  insertId : s'.insertId = s.insertId
  result : s'.result = s.result
  results : s'.results = s.results

/-- `exec` returns 0. -/
def Executes (s : Server) (o : Outcome) (q : Query) : Prop := (s.query o q).isSome = true

instance (s : Server) (o : Outcome) (q : Query) : Decidable (Executes s o q) := inferInstanceAs (Decidable (_ = _))

/-- A command is a statement that succeeds, or leaves the tables and the result set alone. -/
theorem run_tables {c : Cmd} {r : c.Res} (hrun : s.run o c = some (r, s')) :
    (∃ query s₁ result, c = .exec query ∧ s.query o query = some (s₁, result) ∧
      s' = { s₁ with result := result, results := s.results + 1 }) ∨ SameTables s s' := by
  cases c with
  | exec query =>
    cases hquery : s.query o query with
    | none =>
      simp only [Server.run, Server.exec, hquery] at hrun
      cases hrun
      exact .inr ⟨rfl, rfl, rfl, rfl, rfl⟩
    | some x =>
      simp only [Server.run, Server.exec, hquery] at hrun
      cases hrun
      exact .inl ⟨query, _, _, rfl, hquery, rfl⟩
  | lpush uid m => cases o <;> cases hrun <;> exact .inr ⟨rfl, rfl, rfl, rfl, rfl⟩
  | field row =>
    obtain rfl := field_run hrun
    exact .inr ⟨rfl, rfl, rfl, rfl, rfl⟩
  | abort => cases hrun
  | _ =>
    cases hrun
    exact .inr ⟨rfl, rfl, rfl, rfl, rfl⟩

/-- A password that is stored stays. -/
theorem stored_run {c : Cmd} {r : c.Res} (hrun : s.run o c = some (r, s')) {uid : Int} {pwd : Text}
    (h : s.stored uid = some pwd) : s'.stored uid = some pwd := by
  obtain ⟨query, s₁, result, -, hquery, rfl⟩ | hsame := run_tables hrun
  · exact stored_query hquery h
  · unfold Server.stored Server.passwords at *
    rw [hsame.userinfo, h]

/-! ## Where a Login can stand -/

/-- The command binds nobody but `uid`, to `conn`. -/
def Cmd.Binds (uid : Int) (conn : Conn) : Cmd → Prop
  | .setConn uid' conn' => uid' = uid ∧ conn' = conn
  | _ => True

/-- The command is not an assignment to `userconnections_`. -/
def Cmd.Free : Cmd → Prop
  | .setConn _ _ => False
  | _ => True

/-- A Login is before its `SELECT`, between the `SELECT` and `result_row_data` with the rows of its user in
`m_result`, before the comparison with a row that is still there and shows the password of its user, past the comparison
with the password it was sent, or will not bind anybody. -/
inductive LoginOk (s : Server) : Request → Handler Unit → Prop
  | start (conn : Conn) (message : Login) : LoginOk s (.login conn message) (onLogin conn message)
  | selected (conn : Conn) (message : Login) (h : s.result = some ((s.passwords message.uid).map cText)) :
      LoginOk s (.login conn message) (.call .resultRowData (checkPasswd conn message))
  | pointing (conn : Conn) (message : Login) {passwd : Text} (h : s.stored message.uid = some passwd) :
      LoginOk s (.login conn message) (.call (.field ⟨s.results, cText passwd⟩) (comparePasswd conn message))
  | right (conn : Conn) (message : Login) {p : Handler Unit} (h : s.stored message.uid = some message.passwd)
      (hp : p.All (Cmd.Binds message.uid conn)) : LoginOk s (.login conn message) p
  | free (q : Request) {p : Handler Unit} (hp : p.All Cmd.Free) : LoginOk s q p

theorem onLogin_eq (conn : Conn) (message : Login) : onLogin conn message =
    .call (.exec (.select message.uid)) fun _ => .call .resultRowData (checkPasswd conn message) := rfl

theorem welcome_binds (conn : Conn) (message : Login) :
    (welcome conn message.uid).All (Cmd.Binds message.uid conn) := by
  refine (welcome_issues conn message).mono fun c hc => ?_
  cases c with
  | setConn uid conn' =>
    obtain ⟨_, heq, rfl⟩ := hc
    cases heq
    exact ⟨rfl, rfl⟩
  | _ => trivial

/-- The row of its user, or the null pointer. -/
theorem checkPasswd_ok {conn : Conn} {message : Login} (h : s.result = some ((s.passwords message.uid).map cText)) :
    LoginOk s (.login conn message) (checkPasswd conn message s.resultRowData) := by
  have hrow : s.resultRowData = (s.stored message.uid).map fun passwd => ⟨s.results, cText passwd⟩ := by
    rw [Server.resultRowData, h, Option.bind_some, List.head?_map, Option.map_map]
    rfl
  rw [hrow]
  cases hstored : s.stored message.uid with
  | none => exact .free _ ⟨trivial, nofun⟩
  | some passwd => exact .pointing conn message hstored

/-- No password has a NUL. -/
def Server.NoNul (s : Server) : Prop := ∀ row ∈ s.userinfo, cText row.password = row.password

instance (s : Server) : Decidable s.NoNul := inferInstanceAs (Decidable (∀ row ∈ s.userinfo, _))

theorem Server.NoNul.cText_stored (h : s.NoNul) {uid : Int} {passwd : Text} (hpwd : s.stored uid = some passwd) :
    cText passwd = passwd := by
  obtain ⟨row, hrow, rfl⟩ := List.mem_map.1 (List.mem_of_mem_head? hpwd)
  exact h row (List.mem_filter.1 hrow).1

/-- The comparison: a Login goes on only if the password it was sent is the one stored. -/
theorem comparePasswd_ok {conn : Conn} {message : Login} {passwd : Text} (h : s.stored message.uid = some passwd) (hnul : s.NoNul) :
    LoginOk s (.login conn message) (comparePasswd conn message (cText passwd)) := by
  unfold comparePasswd
  split
  case isTrue hpwd =>
    rw [hnul.cText_stored h] at hpwd
    subst hpwd
    exact .right conn message h (welcome_binds conn message)
  case isFalse => exact .free _ trivial

/-- Only a Login assigns. -/
theorem handle_free {q : Request} (hq : ∀ conn message, q ≠ .login conn message) : (handle q).All Cmd.Free := by
  refine (handle_issues q).mono fun c hc => ?_
  cases c with
  | setConn uid conn =>
    obtain ⟨message, heq, _⟩ := hc
    exact absurd heq (hq conn message)
  | _ => trivial

/-- A handler begins as it should. -/
theorem LoginOk.handle (s : Server) : ∀ q, LoginOk s q (handle q)
  | .signUp _ _ => .free _ (handle_free nofun)
  | .login conn message => .start conn message
  | .quit _ _ => .free _ (handle_free nofun)
  | .pmessage _ _ => .free _ (handle_free nofun)

def Query.isSelect : Query → Bool
  | .select _ => true
  | .insert _ _ | .lastInsertId | .update _ _ => false

/-- The thread's own command, if no `SELECT` fails and a password is shown whole. -/
theorem LoginOk.own {q : Request} {c : Cmd} {k : c.Res → Handler Unit} (h : LoginOk s q (.call c k)) {r : c.Res}
    (hrun : s.run o c = some (r, s')) (hok : ∀ query, c = .exec query → query.isSelect = true → o = .ok)
    (hnul : s.NoNul) : LoginOk s' q (k r) := by
  generalize hp : Prog.call c k = p at h
  cases h with
  | start conn message =>
    rw [onLogin_eq] at hp
    cases hp
    obtain rfl := hok _ rfl rfl
    cases hrun
    exact .selected conn message rfl
  | selected conn message h =>
    cases hp
    cases hrun
    exact checkPasswd_ok h
  | pointing conn message h =>
    cases hp
    simp only [Server.run, if_true] at hrun
    cases hrun
    exact comparePasswd_ok h hnul
  | right conn message h hp' =>
    subst hp
    exact .right conn message (stored_run hrun h) (hp'.2 r)
  | free q hp' =>
    subst hp
    exact .free q (hp'.2 r)

/-- Between its `SELECT` and the comparison of a Login. -/
def reading : Option (Request × Handler Unit) → Bool
  | some (.login _ _, .call .resultRowData _) => true
  | some (.login _ _, .call (.field _) _) => true
  | _ => false

/-- The command of another thread, if it does not replace a result that is about to be read. -/
theorem LoginOk.other {q : Request} {p : Handler Unit} (h : LoginOk s q p) {c : Cmd} {r : c.Res}
    (hrun : s.run o c = some (r, s'))
    (hread : ∀ query, c = .exec query → Executes s o query → reading (some (q, p)) = false) : LoginOk s' q p := by
  cases h with
  | start conn message => exact .start conn message
  | selected conn message h =>
    obtain ⟨query, s₁, result, rfl, hquery, -⟩ | hsame := run_tables hrun
    · cases hread query rfl (Option.isSome_of_eq_some hquery)
    · refine .selected conn message ?_
      unfold Server.passwords at *
      rw [hsame.result, hsame.userinfo, h]
  | pointing conn message h =>
    obtain ⟨query, s₁, result, rfl, hquery, -⟩ | hsame := run_tables hrun
    · cases hread query rfl (Option.isSome_of_eq_some hquery)
    · rw [← hsame.results]
      exact .pointing conn message (stored_run hrun h)
  | right conn message h hp => exact .right conn message (stored_run hrun h) hp
  | free q hp => exact .free q hp

/-! ## Runs of the threaded server -/

/-- The statement a thread is about to execute. -/
def issuing : Option (Request × Handler Unit) → Option Query
  | some (_, .call (.exec query) _) => some query
  | _ => none

/-- No password has a NUL, no `SELECT` fails, and no statement of another thread succeeds while a Login is between its `SELECT` and
the comparison. -/
def Undisturbed {n : Nat} (w : ServerPool n) : ServerEvent n → Prop
  | .start _ _ => True
  | .step i o => w.state.NoNul ∧ ∀ query ∈ issuing (w.thread i),
      (query.isSelect = true → o = .ok) ∧ (Executes w.state o query → ∀ j, j ≠ i → reading (w.thread j) = false)

instance {n : Nat} (w : ServerPool n) : (e : ServerEvent n) → Decidable (Undisturbed w e)
  | .start _ _ => .isTrue trivial
  | .step i _ => inferInstanceAs (Decidable (_ ∧ ∀ query ∈ issuing _, (_ → _) ∧ (_ → ∀ j, j ≠ i → _ = _)))

/-- A run of the server on `n` threads, each event meeting `ok`. -/
abbrev ServerRun {n : Nat} (ok : ServerPool n → ServerEvent n → Prop) :=
  Run poolStep fun w e => e.Legal w ∧ ok w e

theorem LoginOk.step {n : Nat} {w w' : ServerPool n} {e : ServerEvent n} (h : Pool.Holds LoginOk w)
    (hquiet : Undisturbed w e) (hw' : poolStep w e = some w') : Pool.Holds LoginOk w' := by
  refine h.step hw' (fun _ q _ => LoginOk.handle _ q) ?_ ?_
  · rintro i o q c k r s' rfl hi hrun
    refine (h i q _ hi).own hrun ?_ hquiet.1
    rintro query rfl hselect
    have hquery : query ∈ issuing (w.thread i) := by rw [hi]; rfl
    exact (hquiet.2 query hquery).1 hselect
  · rintro i o q c k r s' rfl hi hrun j q' p' hji hj
    refine (h j q' p' hj).other hrun ?_
    rintro query rfl hok
    have hquery : query ∈ issuing (w.thread i) := by rw [hi]; rfl
    rw [← hj]
    exact (hquiet.2 query hquery).2 hok j hji

/-- What the assertion says where a connection is about to be bound. -/
theorem LoginOk.bound {q : Request} {uid : Int} {conn : Conn} {k : Unit → Handler Unit}
    (h : LoginOk s q (.call (.setConn uid conn) k)) :
    ∃ message, q = .login conn message ∧ message.uid = uid ∧ s.stored uid = some message.passwd := by
  generalize hp : (Prog.call (Cmd.setConn uid conn) k : Handler Unit) = p at h
  cases h with
  | start conn' message =>
    rw [onLogin_eq] at hp
    cases hp
  | selected conn' message h => cases hp
  | pointing conn' message h => cases hp
  | right conn' message h hp' =>
    subst hp
    obtain ⟨⟨rfl, rfl⟩, -⟩ := hp'
    exact ⟨message, rfl, rfl, h⟩
  | free q hp' =>
    subst hp
    exact hp'.1.elim

/-- A thread that is about to assign `userconnections_[uid]` is serving a Login of `uid` on that connection,
with the password stored for `uid`. -/
def Authentic {n : Nat} (w : ServerPool n) : Prop :=
  ∀ (i : Fin n) (q : Request) (uid : Int) (conn : Conn) (k : Unit → Handler Unit),
    w.thread i = some (q, .call (.setConn uid conn) k) →
      ∃ message, q = .login conn message ∧ message.uid = uid ∧ w.state.stored uid = some message.passwd

/-- **Only who knows the password is bound**, in every undisturbed run, on any number of threads. -/
theorem login_authentic {n : Nat} (s₀ : Server) {events : List (ServerEvent n)} {w : ServerPool n}
    (hrun : ServerRun Undisturbed (Pool.idle n s₀) events w) : Authentic w := by
  intro i q uid conn k hi
  have hw : Pool.Holds LoginOk w :=
    hrun.invariant (Pool.Holds LoginOk) (fun h hok he => LoginOk.step h hok.2 he) (Pool.Holds.idle s₀)
  exact (hw i q _ hi).bound

/-- Two Logins that overlap, up to the point where both are about to be bound. -/
theorem login_authentic_two : ∃ w : ServerPool 2,
    ServerRun Undisturbed (Pool.idle 2 twoUsers)
      ([.start 0 (.login 5 ⟨1, ['a']⟩), .step 0 .ok, .start 1 (.login 6 ⟨2, ['b']⟩), .step 0 .ok, .step 0 .ok] ++
        List.replicate 7 (.step 1 .ok) ++ List.replicate 4 (.step 0 .ok)) w ∧
      (∃ k, w.thread 0 = some (.login 5 ⟨1, ['a']⟩, .call (.setConn 1 5) k)) ∧
      (∃ k, w.thread 1 = some (.login 6 ⟨2, ['b']⟩, .call (.setConn 2 6) k)) ∧ Authentic w :=
  have hrun := Run.of_exec _ _ (by decide +kernel)
  ⟨_, hrun, ⟨_, rfl⟩, ⟨_, rfl⟩, login_authentic twoUsers hrun⟩

/-- MySQL and Redis do what they are asked to; freed memory can hold anything. -/
def Succeeds {n : Nat} : ServerEvent n → Prop
  | .start _ _ => True
  | .step _ o => o ≠ .fail ∧ o ≠ .error

instance {n : Nat} : (e : ServerEvent n) → Decidable (Succeeds e)
  | .start _ _ => .isTrue trivial
  | .step _ o => inferInstanceAs (Decidable (o ≠ .fail ∧ o ≠ .error))

/-- User 2 is about to be bound with a password that is not the one stored. -/
theorem not_authentic {n : Nat} {w : ServerPool n} {i : Fin n} {k : Unit → Handler Unit}
    (hi : w.thread i = some (.login 6 ⟨2, ['a']⟩, .call (.setConn 2 6) k)) (hpw : w.state.stored 2 ≠ some ['a']) :
    ¬ Authentic w := by
  intro h
  obtain ⟨message, hq, -, hstored⟩ := h i _ 2 6 _ hi
  cases hq
  exact hpw hstored

/-- Without a condition it does not hold. A `SELECT` that fails is enough, even with one thread: a Login of user 1 with a
wrong password has left the right one in `m_result`. A second thread is enough as well, even if nothing fails: its `SELECT`
comes before the `result_row_data` of the first, or frees the row before the comparison. And of a password with a NUL the text
before it is enough. -/
theorem login_authentic_stale :
    (∃ w : ServerPool 1, ServerRun (fun _ _ => True) (Pool.idle 1 twoUsers)
      ([.start 0 (.login 5 ⟨1, ['z']⟩)] ++ List.replicate 4 (.step 0 .ok) ++
        [.start 0 (.login 6 ⟨2, ['a']⟩), .step 0 .fail] ++ List.replicate 6 (.step 0 .ok)) w ∧ ¬ Authentic w) ∧
    (∃ w : ServerPool 2, ServerRun (fun _ e => Succeeds e) (Pool.idle 2 twoUsers)
      ([.start 0 (.login 6 ⟨2, ['a']⟩), .step 0 .ok, .start 1 (.login 5 ⟨1, ['a']⟩), .step 1 .ok] ++
        List.replicate 6 (.step 0 .ok)) w ∧ ¬ Authentic w) ∧
    (∃ w : ServerPool 2, ServerRun (fun _ e => Succeeds e) (Pool.idle 2 twoUsers)
      ([.start 0 (.login 6 ⟨2, ['a']⟩), .step 0 .ok, .step 0 .ok, .start 1 (.login 5 ⟨1, ['a']⟩), .step 1 .ok,
        .step 0 (.stray ['a'])] ++ List.replicate 4 (.step 0 .ok)) w ∧ ¬ Authentic w) ∧
    ∃ w : ServerPool 1, ServerRun (fun _ e => Succeeds e)
      (Pool.idle 1 { twoUsers with userinfo := [⟨2, ['v'], ['a', Char.ofNat 0, 'b'], .offline⟩] })
      (.start 0 (.login 6 ⟨2, ['a']⟩) :: List.replicate 7 (.step 0 .ok)) w ∧ ¬ Authentic w :=
  ⟨⟨_, Run.of_exec _ _ (by decide +kernel), not_authentic (i := 0) rfl (by decide)⟩,
    ⟨_, Run.of_exec _ _ (by decide +kernel), not_authentic (i := 0) rfl (by decide)⟩,
    ⟨_, Run.of_exec _ _ (by decide +kernel), not_authentic (i := 0) rfl (by decide)⟩,
    ⟨_, Run.of_exec _ _ (by decide +kernel), not_authentic (i := 0) rfl (by decide)⟩⟩

end ChatReactor
