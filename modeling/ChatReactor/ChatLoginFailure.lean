import ChatReactor.ChatLogin
import ChatReactor.ChatReachable

/-!
# Logins that fail

`msg.proto` has a message `Failure`, and the README says that a client whose Login fails gets an error. No handler of
`server_threaded.cc` sends one: `onLogin` does nothing if the password is wrong, and if the user does not exist it reads
`pwd[0]` through the null pointer that `result_row_data` returns for an empty result.
-/

namespace ChatReactor

def Reply.isFailure : Reply → Bool
  | .failure _ _ => true
  | .success _ | .pmessage _ => false

/-- The `Failure`s among the messages sent. -/
def Server.failures (s : Server) : List (Conn × Reply) := s.sent.filter fun e => e.2.isFailure

/-- A command that is not the sending of a `Failure` sends none. -/
theorem Server.failures_run {s s' : Server} {o : Outcome} {c : Cmd} {r : c.Res} (hrun : s.run o c = some (r, s'))
    (hc : ∀ conn uid erro, c ≠ .send conn (.failure uid erro)) : s'.failures = s.failures := by
  cases c with
  | exec query =>
    obtain rfl := exec_run hrun
    exact congrArg (List.filter _) (s.exec_frame o query).2.2.1
  | field row =>
    obtain rfl := field_run hrun
    rfl
  | send conn m =>
    cases hrun
    cases m with
    | failure uid erro => exact absurd rfl (hc conn uid erro)
    | success _ | pmessage _ => simp [failures, Reply.isFailure]
  | lpush uid m => cases o <;> cases hrun <;> rfl
  | abort => cases hrun
  | _ =>
    cases hrun
    rfl

namespace Chat

/-- **No request is answered with a `Failure`**, whatever MySQL and Redis do. -/
theorem request_failures {s s' : Chat} {q : Request} {oks : List Outcome} (hs' : s.step (.request q oks) = some s') :
    s'.server.failures = s.server.failures := by
  simp only [step, Option.map_eq_some_iff] at hs'
  obtain ⟨⟨_, x⟩, hrun, rfl⟩ := hs'
  refine (handle_issues q).run (I := fun x : Chat × List Outcome => x.1.server.failures = s.server.failures) ?_ ?_ hrun
  · rintro ⟨s1, oks1⟩ c r ⟨s2, oks2⟩ hissue hs1 hcmd
    simp only [Chat.run, Option.map_eq_some_iff] at hcmd
    obtain ⟨⟨r', server⟩, hserver, heq⟩ := hcmd
    cases heq
    refine (Server.failures_run hserver ?_).trans hs1
    rintro conn uid erro rfl
    exact hissue
  · show (s.receive q).server.failures = s.server.failures
    rw [receive_server]

/-! ## A Login that fails -/

/-- The uid is not in `userinfo`, or the password is not the one stored for it. -/
def Failing (s : Chat) (message : Login) : Prop :=
  s.server.stored message.uid = none ∨ ∃ pwd, s.server.stored message.uid = some pwd ∧ pwd ≠ message.passwd

theorem not_failing_iff {s : Chat} {message : Login} :
    ¬ s.Failing message ↔ s.server.stored message.uid = some message.passwd := by
  unfold Failing
  cases s.server.stored message.uid <;> simp

/-- The handler returns, the two maps and the status of the user are as before, and one `Failure` is sent. -/
def FailureHandled (s : Chat) (conn : Conn) (message : Login) (oks : List Outcome) : Prop :=
  ∃ s', s.step (.request (.login conn message) oks) = some s' ∧
    s'.server.userconnections = s.server.userconnections ∧ s'.server.lastestRecord = s.server.lastestRecord ∧
    (∀ row ∈ s'.server.userinfo, (row.userId : Int) = message.uid → row ∈ s.server.userinfo) ∧
    ∃ erro, s'.server.sent = s.server.sent ++ [(conn, .failure message.uid erro)]

/-- **A failing Login is never handled**: for every state, whatever MySQL does. -/
theorem failed_login_handled_iff (s : Chat) (conn : Conn) (message : Login) (oks : List Outcome) :
    (s.Failing message → s.FailureHandled conn message oks) ↔ s.server.stored message.uid = some message.passwd := by
  rw [← not_failing_iff]
  constructor
  · intro h hfail
    obtain ⟨s', hs', -, -, -, erro, hsent⟩ := h hfail
    have hsame := request_failures hs'
    simp [Server.failures, hsent, Reply.isFailure] at hsame
  · intro h hfail
    exact absurd hfail h

/-- Users 1 and 2, with everything a success: a Login of the uid 3 follows the null pointer, and a Login of user 1 with a
wrong password is not answered. -/
theorem failed_login_ignored : ∃ s, Steps (init twoUsers) [.up 1] s ∧ s.Failing ⟨3, ['a']⟩ ∧ s.Failing ⟨1, ['z']⟩ ∧
    s.step (.request (.login 1 ⟨3, ['a']⟩) []) = none ∧
    ∃ s', s.step (.request (.login 1 ⟨1, ['z']⟩) []) = some s' ∧ s'.server.sent = [] :=
  ⟨_, .cons rfl rfl (.nil _), .inl rfl, .inr ⟨['a'], rfl, by decide⟩, rfl, _, rfl, rfl⟩

end Chat
end ChatReactor
