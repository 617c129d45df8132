import ChatReactor.ChatLogin

/-!
# The replay loop stays in bounds

`onLogin` takes `lastestRecord_[uid]`, then the length of the user's Redis list, then the list from that index on, with
three commands, and follows `element[i]` for each `i` below the difference of the first two. Between the commands the
handlers of other threads can push to the list, and Quits and SignUps can write `lastestRecord_`.

| here | there |
| --- | --- |
| `fetch` | `onLogin` from the reply of `LLEN` on |
| `replayFrom` | `onLogin` from the reply of `LRANGE` on, with `count = currentIndex - lastestIndex` |
| `leave` | `onQuit` from the reply of `LLEN` on |

A list only grows, so what a handler knows of its length stays true: `BoundsOk` is the assertion of each thread, and
`RecordOk` that of `lastestRecord_`. The handlers do not look at the type of a reply: an error has the integer 0 and no
elements, and where `onLogin` is given one (`Answered`) the bounds are lost.
-/

namespace ChatReactor

/-! ## The bound -/

/-- `LLEN` -/
def Server.llen (s : Server) (uid : Int) : Int := (s.lists uid).length

/-- `lastestRecord_[uid]`, which is 0 where there is no entry. -/
def Server.record (s : Server) (uid : Int) : Int := (s.lastestRecord uid).getD 0

/-- `lastestRecord_` does not run ahead of the lists. -/
def RecordOk (s : Server) : Prop := ∀ uid, 0 ≤ s.record uid ∧ s.record uid ≤ s.llen uid

/-- `onLogin` once `LRANGE` has returned. -/
def replayFrom (conn : Conn) (uid lastestIndex currentIndex : Int) (reply1 : Option (List PMessage)) : Handler Unit := do
  unlessNull reply1 fun element => replay conn element 0 (currentIndex - lastestIndex).toNat
  issue (.setConn uid conn)

/-- `onLogin` once `LLEN` has returned. -/
def fetch (conn : Conn) (uid lastestIndex : Int) (reply : Option Int) : Handler Unit := do
  let currentIndex ← deref reply
  replayFrom conn uid lastestIndex currentIndex (← issue (.lrange uid lastestIndex))

/-- `onQuit` once `LLEN` has returned. -/
def leave (uid : Int) (reply : Option Int) : Handler Unit :=
  unlessNull reply fun integer => issue (.setRecord uid integer)

theorem welcome_eq (conn : Conn) (uid : Int) : welcome conn uid =
    .call (.exec (.update .online uid)) fun _ => .call (.record uid) fun lastestIndex =>
      .call (.llen uid) (fetch conn uid lastestIndex) := rfl

theorem onQuit_eq (conn : Conn) (message : Quit) : onQuit conn message =
    .call (.exec (.update .offline message.uid)) fun _ => .call (.llen message.uid) (leave message.uid) := rfl

/-! ## Where the handlers can stand -/

/-- The command neither takes a range nor writes `lastestRecord_`, unless with the 0 of a SignUp. -/
def Cmd.Quiet : Cmd → Prop
  | .lrange _ _ | .setRecord _ _ => False
  | .insertRecord _ n => n = 0
  | _ => True

/-- What a Login and a Quit know of the list at each place where they can stand; the other handlers need not know
anything. -/
inductive BoundsOk (s : Server) : Request → Handler Unit → Prop
  | login (conn : Conn) (message : Login) : BoundsOk s (.login conn message) (onLogin conn message)
  | selected (conn : Conn) (message : Login) :
      BoundsOk s (.login conn message) (.call .resultRowData (checkPasswd conn message))
  | pointing (conn : Conn) (message : Login) (pwd : RowPtr) :
      BoundsOk s (.login conn message) (.call (.field pwd) (comparePasswd conn message))
  | welcome (conn : Conn) (message : Login) : BoundsOk s (.login conn message) (welcome conn message.uid)
  | updated (conn : Conn) (message : Login) : BoundsOk s (.login conn message)
      (.call (.record message.uid) fun lastestIndex => .call (.llen message.uid) (fetch conn message.uid lastestIndex))
  | recorded (conn : Conn) (message : Login) {lastestIndex : Int} (h0 : 0 ≤ lastestIndex)
      (hle : lastestIndex ≤ s.llen message.uid) :
      BoundsOk s (.login conn message) (.call (.llen message.uid) (fetch conn message.uid lastestIndex))
  | counted (q : Request) (conn : Conn) {uid lastestIndex currentIndex : Int} (h0 : 0 ≤ lastestIndex)
      (hlen : currentIndex ≤ s.llen uid) :
      BoundsOk s q (.call (.lrange uid lastestIndex) (replayFrom conn uid lastestIndex currentIndex))
  | quit (conn : Conn) (message : Quit) : BoundsOk s (.quit conn message) (onQuit conn message)
  | quitting (q : Request) (uid : Int) : BoundsOk s q (.call (.llen uid) (leave uid))
  | leaving (q : Request) {uid integer : Int} (h0 : 0 ≤ integer) (hle : integer ≤ s.llen uid) :
      BoundsOk s q (issue (.setRecord uid integer))
  | quiet (q : Request) {p : Handler Unit} (hp : p.All Cmd.Quiet) : BoundsOk s q p

theorem replayFrom_quiet (conn : Conn) (uid lastestIndex currentIndex : Int) (reply1 : Option (List PMessage)) :
    (replayFrom conn uid lastestIndex currentIndex reply1).All Cmd.Quiet := by
  have hset : (issue (.setConn uid conn)).All Cmd.Quiet := ⟨trivial, fun _ => trivial⟩
  cases reply1 with
  | none => exact hset
  | some element => exact Prog.All.bind (fun _ => hset) (replay_all (fun _ => trivial) trivial element _ 0)

/-- A SignUp and a PMessage are quiet. -/
theorem handle_quiet {q : Request} (hlogin : ∀ conn message, q ≠ .login conn message)
    (hquit : ∀ conn message, q ≠ .quit conn message) : (handle q).All Cmd.Quiet := by
  refine (handle_issues q).mono fun c hc => ?_
  cases c with
  | lrange uid start =>
    obtain ⟨conn, message, heq, -⟩ := hc
    exact absurd heq (hlogin conn message)
  | setRecord uid n =>
    obtain ⟨conn, message, heq, -⟩ := hc
    exact absurd heq (hquit conn message)
  | insertRecord uid n => exact hc.2
  | _ => trivial

theorem BoundsOk.handle (s : Server) : ∀ q, BoundsOk s q (handle q)
  | .signUp _ _ => .quiet _ (handle_quiet nofun nofun)
  | .login conn message => .login conn message
  | .quit conn message => .quit conn message
  | .pmessage _ _ => .quiet _ (handle_quiet nofun nofun)

/-! ## What a command does -/

section
variable {s s' : Server} {q : Request} {o : Outcome} {c : Cmd} {k : c.Res → Handler Unit} {r : c.Res}

/-- A list only grows. -/
theorem llen_run (hrun : s.run o c = some (r, s')) (uid : Int) :
    s.llen uid ≤ s'.llen uid := by
  cases c with
  | lpush uid' m =>
    cases o with
    | ok =>
      cases hrun
      unfold Server.llen
      by_cases huid : uid = uid'
      · subst huid
        simp only [Function.update_self, List.length_cons]
        omega
      · simp [huid]
    | fail | error | rows _ | stray _ =>
      cases hrun
      exact Int.le_refl _
  | exec query =>
    obtain rfl := exec_run hrun
    exact Int.le_of_eq (by rw [Server.llen, Server.llen, (s.exec_frame o query).2.2.2])
  | field row =>
    obtain rfl := field_run hrun
    exact Int.le_refl _
  | abort => cases hrun
  | _ =>
    cases hrun
    exact Int.le_refl _

/-- An entry of `lastestRecord_` is as it was, or is written by the command. -/
theorem record_run (hrun : s.run o c = some (r, s')) (uid : Int) :
    s'.record uid = s.record uid ∨ c = .setRecord uid (s'.record uid) ∨ c = .insertRecord uid (s'.record uid) := by
  unfold Server.record
  cases c with
  | record uid' =>
    cases hrun
    by_cases huid : uid = uid' <;> simp [huid]
  | setRecord uid' n =>
    cases hrun
    by_cases huid : uid = uid' <;> simp [huid]
  | insertRecord uid' n =>
    cases hrun
    by_cases huid : uid = uid'
    · subst huid
      cases s.lastestRecord uid <;> simp
    · simp [huid]
  | exec query =>
    obtain rfl := exec_run hrun
    exact .inl (by rw [(s.exec_frame o query).2.1])
  | lpush uid' m => cases o <;> cases hrun <;> exact .inl rfl
  | field row =>
    obtain rfl := field_run hrun
    exact .inl rfl
  | abort => cases hrun
  | _ =>
    cases hrun
    exact .inl rfl

/-! ## The assertions are kept -/

/-- A Login waits for the length or the elements of its list. -/
def asking : Option (Request × Handler Unit) → Bool
  | some (.login _ _, .call (.llen _) _) => true
  | some (_, .call (.lrange _ _) _) => true
  | _ => false

/-- The thread's own command. -/
theorem BoundsOk.own (h : BoundsOk s q (.call c k)) (hs : RecordOk s)
    (ho : o = .error → asking (some (q, .call c k)) = false) (hrun : s.run o c = some (r, s')) : BoundsOk s' q (k r) := by
  generalize hp : Prog.call c k = p at h ho
  cases h with
  | login conn message =>
    rw [onLogin_eq] at hp
    cases hp
    exact .selected conn message
  | selected conn message =>
    cases hp
    cases r with
    | none => exact .quiet _ ⟨trivial, nofun⟩
    | some pwd => exact .pointing conn message pwd
  | pointing conn message pwd =>
    cases hp
    unfold comparePasswd
    split
    · exact .welcome conn message
    · exact .quiet _ trivial
  | welcome conn message =>
    rw [welcome_eq] at hp
    cases hp
    exact .updated conn message
  | updated conn message =>
    cases hp
    cases hrun
    exact .recorded conn message (hs message.uid).1 (hs message.uid).2
  | recorded conn message h0 hle =>
    cases hp
    cases o with
    | ok =>
      cases hrun
      exact .counted _ conn h0 (Int.le_refl _)
    | error => cases ho rfl
    | fail | rows _ | stray _ =>
      cases hrun
      exact .quiet _ ⟨trivial, nofun⟩
  | counted q conn h0 hlen =>
    cases hp
    exact .quiet _ (replayFrom_quiet _ _ _ _ r)
  | quit conn message =>
    rw [onQuit_eq] at hp
    cases hp
    exact .quitting _ message.uid
  | quitting q uid =>
    cases hp
    cases o with
    | ok =>
      cases hrun
      exact .leaving _ (Int.natCast_nonneg _) (Int.le_refl _)
    | error =>
      cases hrun
      exact .leaving _ (Int.le_refl _) (Int.natCast_nonneg _)
    | fail | rows _ | stray _ =>
      cases hrun
      exact .quiet _ trivial
  | leaving q h0 hle =>
    cases hp
    exact .quiet _ trivial
  | quiet q hp' =>
    subst hp
    exact .quiet _ (hp'.2 r)

/-- The command of another thread. -/
theorem BoundsOk.other {p : Handler Unit} (h : BoundsOk s q p) (hrun : s.run o c = some (r, s')) : BoundsOk s' q p := by
  cases h with
  | login conn message => exact .login conn message
  | selected conn message => exact .selected conn message
  | pointing conn message pwd => exact .pointing conn message pwd
  | welcome conn message => exact .welcome conn message
  | updated conn message => exact .updated conn message
  | recorded conn message h0 hle => exact .recorded conn message h0 (Int.le_trans hle (llen_run hrun _))
  | counted q conn h0 hlen => exact .counted q conn h0 (Int.le_trans hlen (llen_run hrun _))
  | quit conn message => exact .quit conn message
  | quitting q uid => exact .quitting q uid
  | leaving q h0 hle => exact .leaving q h0 (Int.le_trans hle (llen_run hrun _))
  | quiet q hp => exact .quiet q hp

theorem fetch_injective {conn conn' : Conn} {uid uid' l l' : Int} (h : fetch conn uid l = fetch conn' uid' l') : l = l' := by
  have hcall : (Prog.call (.lrange uid l) (replayFrom conn uid l 0) : Handler Unit) =
      .call (.lrange uid' l') (replayFrom conn' uid' l' 0) := congrFun h (some 0)
  injection hcall with hcmd
  cases hcmd
  rfl

/-- What is known of the list where `lastestRecord_` is about to be written, where a Login is about to take the length, and
where a range is about to be taken. -/
def Bounded (s : Server) (q : Request) : (c : Cmd) → (c.Res → Handler Unit) → Prop
  | .setRecord uid n, _ => 0 ≤ n ∧ n ≤ s.llen uid
  | .insertRecord _ n, _ => n = 0
  | .llen uid, k => ∀ conn lastestIndex, k = fetch conn uid lastestIndex →
      lastestIndex ≤ s.llen uid ∧ ∃ conn message, q = .login conn message
  | .lrange uid start, k => ∃ conn currentIndex, k = replayFrom conn uid start currentIndex ∧
      0 ≤ start ∧ currentIndex ≤ s.llen uid
  | _, _ => True

theorem BoundsOk.bounded (h : BoundsOk s q (.call c k)) : Bounded s q c k := by
  generalize hp : Prog.call c k = p at h
  cases h with
  | recorded conn message h0 hle =>
    cases hp
    intro conn' lastestIndex hk
    rw [← fetch_injective hk]
    exact ⟨hle, conn, message, rfl⟩
  | counted q conn h0 hlen =>
    cases hp
    exact ⟨conn, _, rfl, h0, hlen⟩
  | quitting q uid =>
    cases hp
    intro conn lastestIndex hk
    cases congrFun hk none
  | leaving q h0 hle =>
    cases hp
    exact ⟨h0, hle⟩
  | quiet q hp' =>
    subst hp
    cases c with
    | setRecord uid n | lrange uid start => exact hp'.1.elim
    | insertRecord uid n => exact hp'.1
    | llen uid =>
      rintro conn lastestIndex rfl
      exact (hp'.2 (some 0)).1.elim
    | _ => trivial
  | login conn message =>
    rw [onLogin_eq] at hp
    cases hp
    trivial
  | welcome conn message =>
    rw [welcome_eq] at hp
    cases hp
    trivial
  | quit conn message =>
    rw [onQuit_eq] at hp
    cases hp
    trivial
  | selected | pointing | updated =>
    cases hp
    trivial

/-- `lastestRecord_` stays behind the lists. -/
theorem RecordOk.run (hs : RecordOk s) (h : BoundsOk s q (.call c k)) (hrun : s.run o c = some (r, s')) : RecordOk s' := by
  intro uid
  have hgrow := llen_run hrun uid
  obtain hsame | rfl | rfl := record_run hrun uid
  · rw [hsame]
    exact ⟨(hs uid).1, Int.le_trans (hs uid).2 hgrow⟩
  · obtain ⟨h0, hle⟩ := h.bounded
    exact ⟨h0, Int.le_trans hle hgrow⟩
  · have hzero : s'.record uid = 0 := h.bounded
    rw [hzero]
    exact ⟨Int.le_refl _, Int.natCast_nonneg _⟩

end

/-! ## Runs -/

/-- The range that begins at an index has all that follows it. -/
theorem lt_length_lrange {l : List PMessage} {start currentIndex : Int} (h0 : 0 ≤ start)
    (hlen : currentIndex ≤ l.length) {i : Nat} (hi : (i : Int) < currentIndex - start) :
    i < (Server.lrange l start).length := by
  unfold Server.lrange
  rw [if_neg (Int.not_lt.2 h0), List.length_drop]
  omega

/-- The same with the index cut to an `int`, in a list as long as Redis allows: an index that becomes negative is taken
from the end, and the range is only longer. -/
theorem lt_length_lrange_bmod {l : List PMessage} (hmax : l.length < 2 ^ 32) {start currentIndex : Int} (h0 : 0 ≤ start)
    (hlen : currentIndex ≤ l.length) {i : Nat} (hi : (i : Int) < currentIndex - start) :
    i < (Server.lrange l (start.bmod (2 ^ 32))).length := by
  have hcut : start.bmod (2 ^ 32) = start ∨ start.bmod (2 ^ 32) = start - 2 ^ 32 := by
    rw [Int.bmod_def, Int.emod_eq_of_lt h0 (by omega)]
    split
    · exact .inl rfl
    · exact .inr rfl
  obtain hcut | hcut := hcut
  · rw [hcut]
    exact lt_length_lrange h0 hlen hi
  · unfold Server.lrange
    rw [hcut, if_pos (by omega), List.length_drop]
    omega

/-- Redis does not answer a Login that waits for its list with an error. -/
def Answered {n : Nat} (w : ServerPool n) : ServerEvent n → Prop
  | .start _ _ => True
  | .step i o => o = .error → asking (w.thread i) = false

instance {n : Nat} (w : ServerPool n) : (e : ServerEvent n) → Decidable (Answered w e)
  | .start _ _ => .isTrue trivial
  | .step _ _ => inferInstanceAs (Decidable (_ → _))

/-- The reply of `LRANGE`, if there is one, has an element at each index below `count`. -/
def Reaches (s : Server) (o : Outcome) (uid start count : Int) : Prop :=
  ∀ element s', s.run o (.lrange uid start) = some (some element, s') → ∀ j : Nat, (j : Int) < count → j < element.length

/-- `lastestRecord_` does not exceed the length of a list; where a Login is about to execute `LLEN`, its count will not be
negative; and where it is about to execute `LRANGE`, each index below the count is one of the reply, also if `%d` cuts the
start to an `int`: after any step that meets `ok`. -/
def InBounds {n : Nat} (ok : ServerPool n → ServerEvent n → Prop) (w : ServerPool n) : Prop :=
  (∀ uid, w.state.record uid ≤ w.state.llen uid) ∧
  (∀ (i : Fin n) (q : Request) (conn : Conn) (uid lastestIndex : Int),
    w.thread i = some (q, .call (.llen uid) (fetch conn uid lastestIndex)) →
      ∀ o currentIndex s', ok w (.step i o) → w.state.run o (.llen uid) = some (some currentIndex, s') →
        0 ≤ currentIndex - lastestIndex) ∧
  ∀ (i : Fin n) (q : Request) (uid lastestIndex : Int) (k : Option (List PMessage) → Handler Unit),
    w.thread i = some (q, .call (.lrange uid lastestIndex) k) →
      ∃ conn currentIndex, k = replayFrom conn uid lastestIndex currentIndex ∧ ∀ o, ok w (.step i o) →
        Reaches w.state o uid lastestIndex (currentIndex - lastestIndex) ∧
        ((w.state.lists uid).length < 2 ^ 32 →
          Reaches w.state o uid (lastestIndex.bmod (2 ^ 32)) (currentIndex - lastestIndex))

/-- The assertions of all threads, and that of `lastestRecord_`. -/
structure Bounds {n : Nat} (w : ServerPool n) : Prop where
  record : RecordOk w.state
  threads : Pool.Holds BoundsOk w

theorem Bounds.step {n : Nat} {w w' : ServerPool n} {e : ServerEvent n} (h : Bounds w) (hok : Answered w e)
    (hw' : poolStep w e = some w') : Bounds w' where
  record := by
    cases Pool.step_moves hw' with
    | start i q => exact h.record
    | ret i o hi => exact h.record
    | call i o hi hrun => exact h.record.run (h.threads i _ _ hi) hrun
  threads := by
    refine h.threads.step hw' (fun _ q _ => BoundsOk.handle _ q) ?_ ?_
    · rintro i o q c k r s' rfl hi hrun
      exact (h.threads i q _ hi).own h.record (fun ho => hi ▸ hok ho) hrun
    · rintro i o q c k r s' rfl hi hrun j q' p' hji hj
      exact (h.threads j q' p' hj).other hrun

/-- The elements that a range must have are those of the list, unless the reply is an error. -/
theorem reaches_of_lrange {s : Server} {o : Outcome} {uid start count : Int} (ho : o ≠ .error)
    (h : ∀ j : Nat, (j : Int) < count → j < (Server.lrange (s.lists uid) start).length) : Reaches s o uid start count := by
  intro element s' hrun
  cases o with
  | ok =>
    cases hrun
    exact h
  | error => exact absurd rfl ho
  | fail | rows _ | stray _ => cases hrun

theorem Bounds.inBounds {n : Nat} {w : ServerPool n} (h : Bounds w) : InBounds Answered w := by
  refine ⟨fun uid => (h.record uid).2, fun i q conn uid lastestIndex hi => ?_, fun i q uid lastestIndex k hi => ?_⟩
  · obtain ⟨hle, conn', message, rfl⟩ := (h.threads i q _ hi).bounded conn lastestIndex rfl
    intro o currentIndex s' hok hrun
    rw [Answered, hi] at hok
    cases o with
    | ok =>
      cases hrun
      exact Int.sub_nonneg.2 hle
    | error => cases hok rfl
    | fail | rows _ | stray _ => cases hrun
  · obtain ⟨conn, currentIndex, hk, h0, hlen⟩ := (h.threads i q _ hi).bounded
    refine ⟨conn, currentIndex, hk, fun o hok => ?_⟩
    have ho : o ≠ .error := by
      intro ho
      have hasking := hok ho
      rw [hi] at hasking
      cases q <;> cases hasking
    exact ⟨reaches_of_lrange ho fun j hj => lt_length_lrange h0 hlen hj,
      fun hmax => reaches_of_lrange ho fun j hj => lt_length_lrange_bmod hmax h0 hlen hj⟩

/-- **The replay loop stays in bounds**, in every interleaving of the handlers on any number of threads, whichever
statements and commands fail, as long as Redis does not answer the `LLEN` of a Login or a `LRANGE` with an error. -/
theorem replay_in_bounds {n : Nat} {s₀ : Server} (h₀ : ∀ uid, s₀.lastestRecord uid = none)
    {events : List (ServerEvent n)} {w : ServerPool n} (hrun : ServerRun Answered (Pool.idle n s₀) events w) :
    InBounds Answered w := by
  have hinit : RecordOk s₀ := by
    intro uid
    rw [Server.record, h₀ uid]
    exact ⟨Int.le_refl _, Int.natCast_nonneg _⟩
  have hbounds : Bounds w := hrun.invariant Bounds (fun h hok he => h.step hok.2 he) ⟨hinit, Pool.Holds.idle s₀⟩
  exact hbounds.inBounds

/-- A message is pushed, user 1 logs in and has the list counted, and a second message is pushed before the range is
taken. -/
theorem replay_in_bounds_pushed : ∃ w : ServerPool 2,
    ServerRun Answered (Pool.idle 2 twoUsers)
      ([.start 1 (.pmessage 6 ⟨2, 1, ['h']⟩)] ++ List.replicate 3 (.step 1 .ok) ++
        [.start 0 (.login 5 ⟨1, ['a']⟩)] ++ List.replicate 6 (.step 0 .ok) ++
        [.start 1 (.pmessage 6 ⟨2, 1, ['i']⟩)] ++ List.replicate 3 (.step 1 .ok)) w ∧
      w.thread 0 = some (.login 5 ⟨1, ['a']⟩, .call (.lrange 1 0) (replayFrom 5 1 0 1)) ∧
      w.state.llen 1 = 2 ∧ InBounds Answered w :=
  have hrun := Run.of_exec _ _ (by decide +kernel)
  ⟨_, hrun, rfl, rfl, replay_in_bounds (fun _ => rfl) hrun⟩

/-- With any reply it does not hold. There is a message for user 1, who has logged in and quit. The next Login is about to
execute `LLEN`: if that is answered with an error, the count is -1. And a Login of user 1 who has not quit has counted one
message: if `LRANGE` is answered with an error, it follows `element[0]`, which is no element. -/
theorem replay_out_of_bounds :
    (∃ w : ServerPool 1, ServerRun (fun _ _ => True) (Pool.idle 1 twoUsers)
      ([.start 0 (.pmessage 6 ⟨2, 1, ['h']⟩)] ++ List.replicate 3 (.step 0 .ok) ++ [.start 0 (.quit 5 ⟨1⟩)] ++
        List.replicate 4 (.step 0 .ok) ++ [.start 0 (.login 5 ⟨1, ['a']⟩)] ++ List.replicate 5 (.step 0 .ok)) w ∧
      ¬ InBounds (fun _ _ => True) w) ∧
    ∃ w : ServerPool 1, ServerRun (fun _ _ => True) (Pool.idle 1 twoUsers)
      ([.start 0 (.pmessage 6 ⟨2, 1, ['h']⟩)] ++ List.replicate 3 (.step 0 .ok) ++
        [.start 0 (.login 5 ⟨1, ['a']⟩)] ++ List.replicate 6 (.step 0 .ok) ++ [.step 0 .error]) w ∧
      ∃ k, w.thread 0 = some (.login 5 ⟨1, ['a']⟩, .call .abort k) := by
  refine ⟨⟨_, Run.of_exec _ _ (by decide +kernel), fun h => ?_⟩, _, Run.of_exec _ _ (by decide +kernel), _, rfl⟩
  have hcount := h.2.1 0 (.login 5 ⟨1, ['a']⟩) 5 1 1 rfl .error 0 _ trivial rfl
  omega

end ChatReactor
