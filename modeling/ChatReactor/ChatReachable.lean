import ChatReactor.ChatPresence

/-!
# Whether a new user can be reached

`ChatServer::onSignUp` enters the new user with `insert`, which keeps an entry that is there already. The other
handlers create entries for any uid that a message names: `onPMessage` reads `userconnections_[peerid]`, which puts in
a null pointer, `onLogin` reads `lastestRecord_[uid]`, and `onQuit` writes it. A uid that was named before MySQL has
given it out stays as these have left it.
-/

namespace ChatReactor

namespace Chat

/-- What `onSignUp` does to the two maps for the uid that it answers. -/
theorem signUp_entries {s s' : Chat} {conn : Conn} {message : SignUp} {oks : List Outcome}
    (hs' : s.step (.request (.signUp conn message) oks) = some s') :
    ∃ uid, s'.server.sent = s.server.sent ++ [(conn, .success uid)] ∧
      s'.server.userconnections uid = some ((s.server.userconnections uid).getD (some conn)) ∧
      s'.server.lastestRecord uid = some ((s.server.lastestRecord uid).getD 0) := by
  simp only [step, ChatReactor.handle, onSignUp, issue, receive, Prog.call_bind, Prog.ret_bind, Prog.run, Chat.run,
    Server.run, Option.map_some, Option.bind_some] at hs'
  obtain ⟨hconns, hrecords, hsent, -⟩ := s.server.exec_frame (oks.headD .ok) (.insert message.name message.passwd)
  generalize (s.server.exec (oks.headD .ok) (.insert message.name message.passwd)).2 = db at hs' hconns hrecords hsent
  obtain ⟨hconns', hrecords', hsent', -⟩ := db.exec_frame (oks.tail.headD .ok) .lastInsertId
  generalize (db.exec (oks.tail.headD .ok) .lastInsertId).2 = db' at hs' hconns' hrecords' hsent'
  rw [hconns] at hconns'
  rw [hrecords] at hrecords'
  rw [hsent] at hsent'
  cases hrow : db'.result.bind List.head? with
  | none => simp [Server.resultRowData, hrow, deref, Prog.run, Chat.run, Server.run] at hs'
  | some text =>
    simp only [Server.resultRowData, hrow, deref, Prog.ret_bind, Prog.run, Chat.run, Server.run, if_true,
      Option.map_some, Option.bind_some] at hs'
    cases hs'
    refine ⟨atoi text, by rw [hsent'], ?_, ?_⟩
    · simp [hconns']
    · simp [hrecords']

/-- **A SignUp that is told `uid` can be reached and starts at the first message exactly if** neither map has an entry
of `uid`, or only the entry that it would make. -/
theorem signUp_reachable_iff {s s' : Chat} {conn : Conn} {message : SignUp} {oks : List Outcome} {uid : Int}
    (hs' : s.step (.request (.signUp conn message) oks) = some s')
    (htold : s'.server.sent = s.server.sent ++ [(conn, .success uid)]) :
    (s'.server.userconnections uid = some (some conn) ∧ s'.server.lastestRecord uid = some 0) ↔
      (s.server.userconnections uid = none ∨ s.server.userconnections uid = some (some conn)) ∧
      (s.server.lastestRecord uid = none ∨ s.server.lastestRecord uid = some 0) := by
  obtain ⟨uid', hsent, hconn, hrecord⟩ := signUp_entries hs'
  obtain rfl : uid' = uid := by simpa [hsent] using htold
  rw [hconn, hrecord]
  cases s.server.userconnections uid' <;> cases s.server.lastestRecord uid' <;> simp

/-- Users 1 and 2 are there, and a private message goes from 1 to 2; the next user can be reached. -/
theorem signUp_reachable_third : ∃ s s',
    Steps (init twoUsers) [.up 1, .up 2, .request (.pmessage 1 ⟨1, 2, ['h']⟩) []] s ∧
      s.step (.request (.signUp 2 ⟨['n'], ['p']⟩) []) = some s' ∧
      s'.server.userconnections 3 = some (some 2) ∧ s'.server.lastestRecord 3 = some 0 := by
  obtain ⟨s, hsteps, hconn, hrecord, s', hs', htold⟩ :
      ∃ s, Steps (init twoUsers) [.up 1, .up 2, .request (.pmessage 1 ⟨1, 2, ['h']⟩) []] s ∧
        s.server.userconnections 3 = none ∧ s.server.lastestRecord 3 = none ∧
        ∃ s', s.step (.request (.signUp 2 ⟨['n'], ['p']⟩) []) = some s' ∧
          s'.server.sent = s.server.sent ++ [(2, .success 3)] :=
    ⟨_, .cons rfl rfl (.cons rfl rfl (.cons rfl rfl (.nil _))), rfl, rfl, _, rfl, rfl⟩
  exact ⟨s, s', hsteps, hs', (signUp_reachable_iff hs' htold).2 ⟨.inl hconn, .inl hrecord⟩⟩

/-- A private message to the uid 3 that nobody has yet, and a Quit of it: the SignUp that is told 3 has a null pointer
for its connection and is taken to have read the message. -/
theorem signUp_unreachable : ∃ s s',
    Steps (init twoUsers) [.up 1, .up 2, .request (.pmessage 1 ⟨1, 3, ['h']⟩) [], .request (.quit 1 ⟨3⟩) []] s ∧
      s.step (.request (.signUp 2 ⟨['n'], ['p']⟩) []) = some s' ∧
      s'.server.sent = s.server.sent ++ [(2, .success 3)] ∧
      s'.server.userconnections 3 = some none ∧ s'.server.lastestRecord 3 = some 1 :=
  ⟨_, _, .cons rfl rfl (.cons rfl rfl (.cons rfl rfl (.cons rfl rfl (.nil _)))), rfl, rfl, rfl, rfl⟩

end Chat
end ChatReactor
