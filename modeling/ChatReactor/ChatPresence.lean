import ChatReactor.ChatServer

/-!
# Who is online

`ChatServer::onConnection` of `excercises/chatServer/server_threaded.cc` together with the handlers of the four
requests that touch `userconnections_`, in any order.

| here | there |
| --- | --- |
| `Chat.link` | whether `onConnection` has reported a connection UP, and then DOWN |
| `Event.up`, `Event.down` | `ChatServer::onConnection`, whose two branches are commented out |
| `Event.request` | the handler of a message that came on a connection which is up |
| `Chat.signedIn` | not in the source: the SignUps and Logins that no Quit has followed |

An entry of `userconnections_` is written by SignUp and Login, and nothing takes it out again: not the end of the
connection, and not a Quit. `Present` is what the entries are meant to say. A step keeps it exactly if it is
`Careful`: the connection that goes down and the user who quits have no entry.
-/

namespace ChatReactor

/-- What `onConnection` has reported of a connection. -/
inductive Link
  | unused | up | down
  deriving Repr, DecidableEq

structure Chat where
  server : Server
  link : Conn → Link
  /-- The connection has signed up or logged in as the user, who has not quit since. -/
  signedIn : Conn → Int → Bool

namespace Chat

/-- A server that has just been started. -/
def init (server : Server) : Chat := { server, link := fun _ => .unused, signedIn := fun _ _ => false }

/-- A SignUp or a Login takes effect where it writes its entry. -/
def note (s : Chat) : Cmd → Chat
  | .setConn uid conn | .insertConn uid conn =>
    { s with signedIn := Function.update s.signedIn conn (Function.update (s.signedIn conn) uid true) }
  | _ => s

/-- A command on the server. MySQL and Redis do as the list says, and succeed once it has run out. -/
def run (x : Chat × List Outcome) (c : Cmd) : Option (c.Res × Chat × List Outcome) :=
  (x.1.server.run (x.2.headD .ok) c).map fun y => (y.1, { x.1.note c with server := y.2 }, x.2.tail)

/-- A Quit of a user is received. -/
def receive (s : Chat) : Request → Chat
  | .quit _ message => { s with signedIn := fun conn uid => s.signedIn conn uid && uid ≠ message.uid }
  | _ => s

inductive Event
  | up (conn : Conn)
  | down (conn : Conn)
  | request (q : Request) (oks : List Outcome)

/-- One event; `none` is a null pointer that a handler follows. -/
def step (s : Chat) : Event → Option Chat
  -- connections_.insert(conn) and connections_.erase(conn) are comments
  | .up conn => some { s with link := Function.update s.link conn .up }
  | .down conn => some { s with link := Function.update s.link conn .down }
  | .request q oks => ((handle q).run run (s.receive q, oks)).map fun x => x.2.1

/-- A connection comes up once and goes down once, and brings its requests in between. -/
def Event.Legal (s : Chat) : Event → Prop
  | .up conn => s.link conn = .unused
  | .down conn => s.link conn = .up
  | .request q _ => s.link q.conn = .up

/-- Every entry of `userconnections_` that is not null is a connection that is up, and signed in as the user. -/
def Present (s : Chat) : Prop :=
  ∀ uid conn, s.server.userconnections uid = some (some conn) → s.link conn = .up ∧ s.signedIn conn uid = true

/-- The connection that goes down and the user who quits have no entry. -/
def Event.Careful (s : Chat) : Event → Prop
  | .down conn => ∀ uid, s.server.userconnections uid ≠ some (some conn)
  | .request (.quit _ message) _ => ∀ conn, s.server.userconnections message.uid ≠ some (some conn)
  | _ => True

/-- `onPMessage` answers `Success` only if it has sent the message to a connection that is up and signed in as
the peer. -/
def Truthful (s : Chat) : Prop :=
  ∀ conn message oks s', s.step (.request (.pmessage conn message) oks) = some s' →
    ∃ sent, s'.server.sent = s.server.sent ++ sent ∧ ((conn, .success message.uid) ∈ sent →
      ∃ peercon, (peercon, .pmessage message) ∈ sent ∧ s.link peercon = .up ∧ s.signedIn peercon message.peerid = true)

/-! ## What a command does to the entries -/

variable {conn : Conn}

/-- An entry that is not null was there, or is the one that the command writes. -/
theorem entry_run {s s' : Server} {o : Outcome} {c : Cmd} {r : c.Res} (hrun : s.run o c = some (r, s')) {uid : Int}
    (h : s'.userconnections uid = some (some conn)) :
    s.userconnections uid = some (some conn) ∨ c = .setConn uid conn ∨ c = .insertConn uid conn := by
  cases c with
  | conn uid' =>
    cases hrun
    obtain ⟨rfl, h⟩ | ⟨_, h⟩ := of_update_eq h
    · cases hold : s.userconnections uid with
      | none => simp [hold] at h
      | some entry => exact .inl (by simpa [hold] using h)
    · exact .inl h
  | setConn uid' conn' =>
    cases hrun
    obtain ⟨rfl, h⟩ | ⟨_, h⟩ := of_update_eq h
    · obtain rfl : conn' = conn := by simpa using h
      exact .inr (.inl rfl)
    · exact .inl h
  | insertConn uid' conn' =>
    cases hrun
    obtain ⟨rfl, h⟩ | ⟨_, h⟩ := of_update_eq h
    · cases hold : s.userconnections uid with
      | none =>
        rw [hold] at h
        cases h
        exact .inr (.inr rfl)
      | some entry => exact .inl (by simpa [hold] using h)
    · exact .inl h
  | exec q =>
    obtain rfl := exec_run hrun
    rw [(s.exec_frame o q).1] at h
    exact .inl h
  | lpush uid' m => cases o <;> cases hrun <;> exact .inl h
  | field row =>
    obtain rfl := field_run hrun
    exact .inl h
  | abort => cases hrun
  | _ =>
    cases hrun
    exact .inl h

/-- The command leaves `userconnections_` alone. -/
def Unbound : Cmd → Prop
  | .conn _ | .setConn _ _ | .insertConn _ _ => False
  | _ => True

theorem unbound_run {s s' : Server} {o : Outcome} {c : Cmd} {r : c.Res} (hrun : s.run o c = some (r, s'))
    (hc : Unbound c) : s'.userconnections = s.userconnections := by
  cases c with
  | conn _ | setConn _ _ | insertConn _ _ => exact hc.elim
  | exec q =>
    obtain rfl := exec_run hrun
    exact (s.exec_frame o q).1
  | lpush uid' m => cases o <;> cases hrun <;> rfl
  | field row =>
    obtain rfl := field_run hrun
    rfl
  | abort => cases hrun
  | _ =>
    cases hrun
    rfl

/-! ## What an event does to them -/

@[simp] theorem note_link (s : Chat) (c : Cmd) : (s.note c).link = s.link := by cases c <;> rfl

@[simp] theorem receive_link (s : Chat) (q : Request) : (s.receive q).link = s.link := by cases q <;> rfl

theorem receive_server (s : Chat) (q : Request) : (s.receive q).server = s.server := by cases q <;> rfl

variable {s : Chat}

/-- A sign-in is forgotten only when a Quit is received. -/
theorem note_signedIn {uid : Int} (h : s.signedIn conn uid = true) (c : Cmd) : (s.note c).signedIn conn uid = true := by
  cases c with
  | setConn uid' conn' | insertConn uid' conn' =>
    by_cases hconn : conn = conn'
    · subst hconn
      by_cases huid : uid = uid' <;> simp [note, huid, h]
    · simp [note, hconn, h]
  | _ => exact h

/-- A command that writes a connection which is up keeps the entries right. -/
theorem Present.run {x y : Chat × List Outcome} {c : Cmd} {r : c.Res} (h : Present x.1)
    (hup : ∀ uid conn, c = .setConn uid conn ∨ c = .insertConn uid conn → x.1.link conn = .up)
    (hrun : Chat.run x c = some (r, y)) : Present y.1 ∧ y.1.link = x.1.link := by
  obtain ⟨⟨r', server⟩, hserver, heq⟩ := Option.map_eq_some_iff.1 hrun
  cases heq
  refine ⟨fun uid conn hentry => ?_, note_link x.1 c⟩
  simp only [note_link]
  obtain hold | hnew := entry_run hserver hentry
  · obtain ⟨hlink, hsigned⟩ := h uid conn hold
    exact ⟨hlink, note_signedIn hsigned c⟩
  · refine ⟨hup uid conn hnew, ?_⟩
    obtain rfl | rfl := hnew <;> simp [note]

/-- A handler writes the connection that its request came on, and no other. -/
theorem issues_conn {q : Request} {c : Cmd} (h : q.Issues c) {uid : Int}
    (hc : c = .setConn uid conn ∨ c = .insertConn uid conn) : conn = q.conn := by
  obtain rfl | rfl := hc
  · obtain ⟨message, rfl, -⟩ := h
    rfl
  · obtain ⟨message, rfl⟩ := h
    rfl

variable {oks : List Outcome}

/-- **A handler keeps the entries right** from the moment its request has been received. -/
theorem Present.handle {s' : Chat} {q : Request} (h : Present (s.receive q)) (hup : s.link q.conn = .up)
    (hs' : s.step (.request q oks) = some s') : Present s' := by
  obtain ⟨⟨a, x⟩, hrun, rfl⟩ := Option.map_eq_some_iff.1 hs'
  have hstart : Present (s.receive q) ∧ (s.receive q).link = s.link := ⟨h, receive_link s q⟩
  refine ((handle_issues q).run (I := fun x => Present x.1 ∧ x.1.link = s.link) ?_ hstart hrun).1
  rintro x c r y hc ⟨hx, hlink⟩ hrun
  obtain ⟨hy, hlink'⟩ := hx.run (fun uid conn hwrite => by rw [hlink, issues_conn hc hwrite, hup]) hrun
  exact ⟨hy, hlink'.trans hlink⟩

/-- `onQuit` does not look at the entries. -/
theorem quit_frame {s' : Chat} {message : Quit} (hs' : s.step (.request (.quit conn message) oks) = some s') :
    s'.server.userconnections = s.server.userconnections ∧ s'.link = s.link ∧
      s'.signedIn = (s.receive (.quit conn message)).signedIn := by
  obtain ⟨⟨a, x⟩, hrun, rfl⟩ := Option.map_eq_some_iff.1 hs'
  have hunbound : (ChatReactor.handle (.quit conn message)).All Unbound := by
    refine (handle_issues _).mono fun c hc => ?_
    cases c with
    | conn uid => obtain ⟨_, _, hq, -⟩ := hc; cases hq
    | setConn uid conn' => obtain ⟨_, hq, -⟩ := hc; cases hq
    | insertConn uid conn' => obtain ⟨_, hq⟩ := hc; cases hq
    | _ => trivial
  refine hunbound.run (I := fun x => x.1.server.userconnections = s.server.userconnections ∧ x.1.link = s.link ∧
      x.1.signedIn = (s.receive (.quit conn message)).signedIn) ?_ ⟨rfl, rfl, rfl⟩ hrun
  rintro x c r y hc ⟨hentries, hlink, hsigned⟩ hrun
  obtain ⟨⟨r', server⟩, hserver, heq⟩ := Option.map_eq_some_iff.1 hrun
  cases heq
  have hnote : (x.1.note c).signedIn = x.1.signedIn := by
    cases c with
    | setConn _ _ | insertConn _ _ => exact hc.elim
    | _ => rfl
  exact ⟨(unbound_run hserver hc).trans hentries, (note_link x.1 c).trans hlink, hnote.trans hsigned⟩

/-- The end of a connection keeps the entries right exactly if the connection has none. -/
theorem Present.down_iff (h : Present s) (conn : Conn) :
    Present { s with link := Function.update s.link conn .down } ↔ (Event.down conn).Careful s := by
  constructor
  · intro h' uid hentry
    obtain ⟨hlink, -⟩ := h' uid conn hentry
    simp at hlink
  · intro hcare uid conn' hentry
    obtain ⟨hlink, hsigned⟩ := h uid conn' hentry
    have hne : conn' ≠ conn := by
      rintro rfl
      exact hcare uid hentry
    exact ⟨(Function.update_of_ne hne _ _).trans hlink, hsigned⟩

/-- A Quit keeps them right exactly if the user has none. -/
theorem Present.quit_iff {s' : Chat} (h : Present s) {message : Quit}
    (hs' : s.step (.request (.quit conn message) oks) = some s') :
    Present s' ↔ (Event.request (.quit conn message) oks).Careful s := by
  obtain ⟨hentries, hlink, hsigned⟩ := quit_frame hs'
  unfold Present
  rw [hentries, hlink, hsigned]
  constructor
  · intro h' conn' hentry
    obtain ⟨-, hsigned'⟩ := h' message.uid conn' hentry
    simp [receive] at hsigned'
  · intro hcare uid conn' hentry
    obtain ⟨hup, hold⟩ := h uid conn' hentry
    have hne : uid ≠ message.uid := by
      rintro rfl
      exact hcare conn' hentry
    exact ⟨hup, by simp [receive, hold, hne]⟩

/-- **An event keeps the entries right exactly if it is careful.** -/
theorem Present.step_iff {s' : Chat} {e : Event} (h : Present s) (hl : e.Legal s) (hs' : s.step e = some s') :
    Present s' ↔ e.Careful s := by
  cases e with
  | up conn =>
    cases hs'
    refine iff_of_true (fun uid conn' hentry => ?_) trivial
    obtain ⟨hlink, hsigned⟩ := h uid conn' hentry
    refine ⟨?_, hsigned⟩
    by_cases hconn : conn' = conn <;> simp [hconn, hlink]
  | down conn =>
    cases hs'
    exact h.down_iff conn
  | request q oks =>
    cases q with
    | quit conn message => exact h.quit_iff hs'
    | signUp conn message => exact iff_of_true (Present.handle (q := .signUp conn message) h hl hs') trivial
    | login conn message => exact iff_of_true (Present.handle (q := .login conn message) h hl hs') trivial
    | pmessage conn message => exact iff_of_true (Present.handle (q := .pmessage conn message) h hl hs') trivial

/-! ## The answer to a private message -/

/-- What `onPMessage` sends. -/
def answers (s : Chat) (conn : Conn) (message : PMessage) : List (Conn × Reply) :=
  match (s.server.userconnections message.peerid).getD none with
  | some peercon => [(peercon, .pmessage message), (conn, .success message.uid)]
  | none => []

theorem sent_pmessage {s' : Chat} {message : PMessage}
    (hs' : s.step (.request (.pmessage conn message) oks) = some s') :
    s'.server.sent = s.server.sent ++ s.answers conn message := by
  simp only [step, ChatReactor.handle, onPMessage, issue, receive, Prog.call_bind, Prog.ret_bind, Prog.run, Chat.run,
    Server.run, Option.map_some, Option.bind_some] at hs'
  unfold answers
  cases hpeer : (s.server.userconnections message.peerid).getD none with
  | none =>
    rw [hpeer] at hs'
    simp only [unlessNull, Prog.ret_bind, Prog.run, Chat.run, Server.run] at hs'
    split at hs' <;> cases hs' <;> simp
  | some peercon =>
    rw [hpeer] at hs'
    simp only [unlessNull, Prog.call_bind, Prog.ret_bind, Prog.run, Chat.run, Server.run, Option.map_some,
      Option.bind_some] at hs'
    split at hs' <;> cases hs' <;> simp

theorem Present.truthful (h : Present s) : Truthful s := by
  intro conn message oks s' hs'
  refine ⟨_, sent_pmessage hs', fun hmem => ?_⟩
  unfold answers at hmem ⊢
  cases hentry : s.server.userconnections message.peerid with
  | none => simp [hentry] at hmem
  | some entry =>
    cases entry with
    | none => simp [hentry] at hmem
    | some peercon => exact ⟨peercon, by simp, h message.peerid peercon hentry⟩

/-! ## Runs -/

abbrev Steps := Run step fun s e => e.Legal s

abbrev CarefulSteps := Run step fun s e => e.Legal s ∧ e.Careful s

theorem Present.init {s₀ : Server} (h₀ : ∀ uid, s₀.userconnections uid = none) : Present (Chat.init s₀) := by
  intro uid conn hentry
  cases (h₀ uid).symm.trans hentry

/-- **Every entry is a connection that is up and signed in, all along a run, exactly if every step is careful**; and then
`onPMessage` answers `Success` only if it has sent the message to such a connection. -/
theorem presence_iff {s₀ : Server} (h₀ : ∀ uid, s₀.userconnections uid = none) {es : List Event} {s : Chat}
    (h : Steps (init s₀) es s) :
    ((∀ es₁ es₂ s₁, es = es₁ ++ es₂ → Steps (init s₀) es₁ s₁ → Present s₁) ↔ CarefulSteps (init s₀) es s) ∧
    (CarefulSteps (init s₀) es s → Truthful s) := by
  have hiff := h.always_iff (I := Present) (fun hs hl hs' => hs.step_iff hl hs') (Present.init h₀)
  exact ⟨hiff, fun hcare => (hiff.2 hcare es [] s (List.append_nil es).symm h).truthful⟩

/-- A connection signs up, and another one that has not goes down. -/
theorem presence_iff_signed_up : ∃ s, Steps (init twoUsers) [.up 1, .up 2, .request (.signUp 1 ⟨['n'], ['p']⟩) [], .down 2] s ∧
    s.server.userconnections 3 = some (some 1) ∧ Present s ∧ Truthful s := by
  have h : Steps (init twoUsers) [.up 1, .up 2, .request (.signUp 1 ⟨['n'], ['p']⟩) [], .down 2] _ :=
    .cons rfl rfl (.cons rfl rfl (.cons rfl rfl (.cons rfl rfl (.nil _))))
  obtain ⟨hiff, htruthful⟩ := presence_iff (fun _ => rfl) h
  suffices hcare : CarefulSteps (init twoUsers) _ _ from ⟨_, h, rfl, hiff.2 hcare _ [] _ rfl h, htruthful hcare⟩
  refine .cons ⟨rfl, trivial⟩ rfl (.cons ⟨rfl, trivial⟩ rfl (.cons ⟨rfl, trivial⟩ rfl (.cons ⟨rfl, ?_⟩ rfl (.nil _))))
  intro uid hentry
  obtain ⟨_, hentry⟩ | ⟨_, hentry⟩ := of_update_eq hentry
  · cases hentry
  · cases hentry

/-- User 1 logs in; then the connection goes down, or the user quits. Both times the entry stays, and a private message to
user 1 is answered with `Success`. -/
theorem presence_lost :
    (∃ s, Steps (init twoUsers) [.up 1, .up 2, .request (.login 1 ⟨1, ['a']⟩) [], .down 1] s ∧
      ¬Present s ∧ ¬Truthful s) ∧
    ∃ s, Steps (init twoUsers) [.up 1, .up 2, .request (.login 1 ⟨1, ['a']⟩) [], .request (.quit 1 ⟨1⟩) []] s ∧
      ¬Present s ∧ ¬Truthful s := by
  constructor
  · refine ⟨_, .cons rfl rfl (.cons rfl rfl (.cons rfl rfl (.cons rfl rfl (.nil _)))), fun h => ?_, fun h => ?_⟩
    · cases (h 1 1 rfl).1
    · obtain ⟨sent, heq, himp⟩ := h 2 ⟨2, 1, ['h']⟩ [] _ rfl
      cases heq
      obtain ⟨peercon, hmem, hlink, -⟩ := himp (by decide)
      obtain rfl : peercon = 1 := by simpa using hmem
      cases hlink
  · refine ⟨_, .cons rfl rfl (.cons rfl rfl (.cons rfl rfl (.cons rfl rfl (.nil _)))), fun h => ?_, fun h => ?_⟩
    · cases (h 1 1 rfl).2
    · obtain ⟨sent, heq, himp⟩ := h 2 ⟨2, 1, ['h']⟩ [] _ rfl
      cases heq
      obtain ⟨peercon, hmem, -, hsigned⟩ := himp (by decide)
      obtain rfl : peercon = 1 := by simpa using hmem
      cases hsigned

end Chat
end ChatReactor
