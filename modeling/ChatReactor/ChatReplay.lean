import Mathlib.Data.List.Basic
import ChatReactor.ChatServer

/-!
# What a Login replays

`onPMessage` puts every message at the front of its addressee's Redis list (`LPUSH`), `onQuit` saves the
length of the list in `lastestRecord_`, and `onLogin` sends what `LRANGE` gives from that index to the end:
so many messages as came in since, but those at the *end* of the list, which are the oldest ones, newest
first.

The reference is a `Mailbox` for each user, computed from the requests alone: what was stored before the
last Quit and what was stored after it, in the order of arrival. `Filed` relates the server to it, and is
kept by every request.
-/

namespace ChatReactor

/-! ## The mailbox of a user -/

structure Mailbox where
  /-- stored before the last Quit -/
  old : List PMessage
  /-- stored since -/
  unread : List PMessage
  deriving Repr, DecidableEq

namespace Mailbox

/-- Every message ever stored, in the order of arrival. -/
def all (b : Mailbox) : List PMessage := b.old ++ b.unread

def after (u : Int) (b : Mailbox) : Request → Mailbox
  | .pmessage _ message => if message.peerid = u then { b with unread := b.unread ++ [message] } else b
  | .quit _ message => if message.uid = u then ⟨b.all, []⟩ else b
  | .login _ _ | .signUp _ _ => b

end Mailbox

def mailbox (u : Int) (requests : List Request) : Mailbox := requests.foldl (Mailbox.after u) ⟨[], []⟩

/-- The server's store is the mailboxes: a list in reverse, and how much of it had been there at the Quit. -/
structure Filed (s : Server) (b : Int → Mailbox) : Prop where
  lists : ∀ u, s.lists u = (b u).all.reverse
  record : ∀ u, (s.lastestRecord u).getD 0 = (b u).old.length

variable {s : Server} {b : Int → Mailbox}

theorem Filed.of_eq {s' : Server} (h : Filed s b) (hl : s'.lists = s.lists)
    (hr : ∀ u, (s'.lastestRecord u).getD 0 = (s.lastestRecord u).getD 0) : Filed s' b where
  lists u := by rw [hl, h.lists]
  record u := by rw [hr, h.record]

/-- The index that `onLogin` starts from is one of the list, or its end. -/
theorem Filed.record_le (h : Filed s b) (u : Int) : (b u).old.length ≤ (s.lists u).length := by
  rw [h.lists, List.length_reverse, Mailbox.all, List.length_append]
  exact Nat.le_add_right _ _

/-! ## Each handler, run alone with MySQL and Redis succeeding -/

theorem serve_quit (s : Server) (conn : Conn) (message : Quit) :
    ∃ s', serve s (.quit conn message) = some s' ∧ s'.lists = s.lists ∧
      s'.lastestRecord = Function.update s.lastestRecord message.uid (some (s.lists message.uid).length) :=
  ⟨_, rfl, rfl, rfl⟩

theorem serve_pmessage (s : Server) (conn : Conn) (message : PMessage) :
    ∃ s', serve s (.pmessage conn message) = some s' ∧ s'.lastestRecord = s.lastestRecord ∧
      s'.lists = Function.update s.lists message.peerid (message :: s.lists message.peerid) := by
  cases h : (s.userconnections message.peerid).getD none with
  | none => simp [serve, handle, onPMessage, issue, unlessNull, Prog.run, Server.succeed, Server.run, h]
  | some peercon => simp [serve, handle, onPMessage, issue, unlessNull, Prog.run, Server.succeed, Server.run, h]

/-- The messages have been handed to `codec_.send`, one after the other. -/
def Server.sendAll (s : Server) (l : List (Conn × Reply)) : Server := { s with sent := s.sent ++ l }

theorem Server.sendAll_append (s : Server) (l l' : List (Conn × Reply)) :
    (s.sendAll l).sendAll l' = s.sendAll (l ++ l') := by
  simp [Server.sendAll, List.append_assoc]

/-- The replay of some messages on a connection. -/
def replies (conn : Conn) (l : List PMessage) : List (Conn × Reply) := l.map fun m => (conn, .pmessage m)

/-- The loop sends the elements of its range, in their order. -/
theorem run_replay (conn : Conn) (element : List PMessage) (count i : Nat) (s : Server)
    (h : i + count ≤ element.length) : (replay conn element i count).run Server.succeed s =
      some ((), s.sendAll (replies conn ((element.drop i).take count))) := by
  induction count generalizing i s with
  | zero => simp [replay, replies, Server.sendAll]
  | succ count ih =>
    have hi : i < element.length := by omega
    have hsend : s.succeed (.send conn (.pmessage element[i])) =
      some ((), s.sendAll [(conn, .pmessage element[i])]) := rfl
    simp only [replay, List.getElem?_eq_getElem hi, deref, issue, Prog.ret_bind, Prog.call_bind]
    rw [Prog.run_call hsend, ih (i + 1) _ (by omega), Server.sendAll_append, List.drop_eq_getElem_cons hi]
    rfl

theorem run_welcome (conn : Conn) {uid : Int} {k : Nat} (hk : (s.lastestRecord uid).getD 0 = k)
    (hkn : k ≤ (s.lists uid).length) :
    ∃ s', (welcome conn uid).run Server.succeed s = some ((), s') ∧ s'.lists = s.lists ∧
      s'.lastestRecord = Function.update s.lastestRecord uid (some k) ∧
      s'.sent = s.sent ++ replies conn ((s.lists uid).drop k) := by
  have hcount : (((s.lists uid).length : Int) - k).toNat = (s.lists uid).length - k := by omega
  have hrange : Server.lrange (s.lists uid) k = (s.lists uid).drop k := by
    simp [Server.lrange, show ¬ (k : Int) < 0 by omega]
  have htake : ((s.lists uid).drop k).take ((s.lists uid).length - k) = (s.lists uid).drop k :=
    List.take_of_length_le (by simp)
  simp only [welcome, issue, deref, unlessNull, Prog.call_bind, Prog.ret_bind, Prog.run, Server.succeed, Server.run, Server.exec,
    Server.query, Option.bind_some, hk, hrange, Prog.run_bind, hcount]
  rw [run_replay conn _ _ _ _ (by simp)]
  refine ⟨_, rfl, rfl, rfl, ?_⟩
  simp [Server.sendAll, htake]

/-- The row of a user has been selected. -/
def Server.selected (s : Server) (uid : Int) : Server :=
  { s with result := some ((s.passwords uid).map cText), results := s.results + 1 }

/-- Its text is there. -/
theorem succeed_field (s : Server) (uid : Int) (text : Text) :
    (s.selected uid).succeed (.field ⟨s.results + 1, text⟩) = some (text, s.selected uid) := if_pos rfl

/-- A Login that runs alone compares the password with the row of its user. -/
theorem serve_login (s : Server) (conn : Conn) (message : Login) : serve s (.login conn message) =
    ((checkPasswd conn message ((s.shown message.uid).map (⟨s.results + 1, ·⟩))).run Server.succeed (s.selected message.uid)).map
      Prod.snd := by
  rw [Server.shown, Server.stored, ← List.head?_map]
  rfl

/-- A Login whose password is right sends what `LRANGE` gives, and leaves the store as it is. -/
theorem serve_login_right (conn : Conn) {message : Login} {k : Nat} (hpw : s.shown message.uid = some message.passwd)
    (hk : (s.lastestRecord message.uid).getD 0 = k) (hkn : k ≤ (s.lists message.uid).length) :
    ∃ s', serve s (.login conn message) = some s' ∧ s'.lists = s.lists ∧
      s'.lastestRecord = Function.update s.lastestRecord message.uid (some k) ∧
      s'.sent = s.sent ++ replies conn ((s.lists message.uid).drop k) := by
  obtain ⟨s', hrun, hs'⟩ := run_welcome (s := s.selected message.uid) conn hk hkn
  refine ⟨s', ?_, hs'⟩
  simp only [serve_login, hpw, Option.map_some, checkPasswd, deref, issue, Prog.ret_bind, Prog.call_bind,
    Prog.run_call (succeed_field s _ _), comparePasswd, if_true, hrun]

/-- A Login with another password only leaves a result set behind. -/
theorem serve_login_wrong {s' : Server} {conn : Conn} {message : Login}
    (hpw : s.shown message.uid ≠ some message.passwd) (hs' : serve s (.login conn message) = some s') :
    s' = s.selected message.uid := by
  rw [serve_login] at hs'
  cases h : s.shown message.uid with
  | none => simp [h, checkPasswd, deref, Prog.run, Server.succeed, Server.run] at hs'
  | some pwd =>
    have hne : pwd ≠ message.passwd := by
      rintro rfl
      exact hpw h
    simp only [h, Option.map_some, checkPasswd, deref, issue, Prog.ret_bind, Prog.call_bind,
      Prog.run_call (succeed_field s _ _), comparePasswd, if_neg hne, Prog.pure_eq, Prog.run_ret, Option.some.injEq] at hs'
    exact hs'.symm

/-! ## The store along a run -/

/-- Login, Quit and PMessage. -/
def Request.Talk : Request → Bool
  | .signUp _ _ => false
  | .login _ _ | .quit _ _ | .pmessage _ _ => true

/-- A run of such requests, one after the other. -/
abbrev Talks := Run serve fun _ q => q.Talk = true

/-- Nothing has been stored for anybody, as when the users have signed up. -/
def Server.Fresh (s : Server) : Prop := (∀ u, s.lists u = []) ∧ ∀ u, (s.lastestRecord u).getD 0 = 0

section
variable {s s' : Server} {b : Int → Mailbox} (h : Filed s b)
include h

theorem Filed.login {conn : Conn} {message : Login} (hs' : serve s (.login conn message) = some s') : Filed s' b := by
  by_cases hpw : s.shown message.uid = some message.passwd
  · obtain ⟨s'', hserve, hl, hr, -⟩ := serve_login_right conn hpw (h.record message.uid) (h.record_le message.uid)
    obtain rfl : s'' = s' := Option.some.inj (hserve.symm.trans hs')
    refine h.of_eq hl fun u => ?_
    rw [hr]
    by_cases hu : u = message.uid
    · subst hu
      rw [Function.update_self, h.record]
      rfl
    · rw [Function.update_of_ne hu]
  · rw [serve_login_wrong hpw hs']
    exact h.of_eq rfl fun _ => rfl

theorem Filed.quit {conn : Conn} {message : Quit} (hs' : serve s (.quit conn message) = some s') :
    Filed s' fun u => (b u).after u (.quit conn message) := by
  obtain ⟨s'', hserve, hl, hr⟩ := serve_quit s conn message
  obtain rfl : s'' = s' := Option.some.inj (hserve.symm.trans hs')
  refine ⟨fun u => ?_, fun u => ?_⟩
  · rw [hl, h.lists]
    simp only [Mailbox.after]
    split <;> simp [Mailbox.all]
  · rw [hr]
    by_cases hu : u = message.uid
    · subst hu
      simp [Mailbox.after, h.lists]
    · simp [Mailbox.after, Function.update_of_ne hu, Ne.symm hu, h.record]

theorem Filed.pmessage {conn : Conn} {message : PMessage} (hs' : serve s (.pmessage conn message) = some s') :
    Filed s' fun u => (b u).after u (.pmessage conn message) := by
  obtain ⟨s'', hserve, hr, hl⟩ := serve_pmessage s conn message
  obtain rfl : s'' = s' := Option.some.inj (hserve.symm.trans hs')
  refine ⟨fun u => ?_, fun u => ?_⟩
  · rw [hl]
    by_cases hu : u = message.peerid
    · subst hu
      simp [Mailbox.after, Mailbox.all, h.lists]
    · simp [Mailbox.after, Function.update_of_ne hu, Ne.symm hu, h.lists]
  · rw [hr, h.record]
    simp only [Mailbox.after]
    split <;> rfl

/-- One request. -/
theorem Filed.step {q : Request} (hq : q.Talk = true) (hs' : serve s q = some s') :
    Filed s' fun u => (b u).after u q := by
  cases q with
  | signUp conn message => cases hq
  | login conn message => exact h.login hs'
  | quit conn message => exact h.quit hs'
  | pmessage conn message => exact h.pmessage hs'

end

/-- A run of requests. -/
theorem Filed.run {s' : Server} {requests : List Request} (hrun : Talks s requests s') (h : Filed s b) :
    Filed s' fun u => requests.foldl (Mailbox.after u) (b u) := by
  induction hrun generalizing b with
  | nil => exact h
  | cons hq hs' _ ih => exact ih (h.step hq hs')

theorem Server.Fresh.filed {s' : Server} {requests : List Request} (h : s.Fresh) (hrun : Talks s requests s') :
    Filed s' fun u => mailbox u requests :=
  Filed.run hrun { lists := h.1, record := h.2 }

/-! ## When the replay is right -/

/-- As far as there are unread messages, everything stored reads the same from both ends. -/
def Mailbox.Mirrored (b : Mailbox) : Prop := ∀ i, i < b.unread.length → b.all[i]? = b.all.reverse[i]?

instance (b : Mailbox) : Decidable b.Mirrored := Nat.decidableBallLT _ fun i _ => b.all[i]? = b.all.reverse[i]?

/-- What the code takes from the list is what came in since the Quit exactly in a mirrored mailbox. -/
theorem Mailbox.drop_reverse_eq_iff (b : Mailbox) : b.all.reverse.drop b.old.length = b.unread ↔ b.Mirrored := by
  have hsent : b.all.reverse.drop b.old.length = (b.all.take b.unread.length).reverse := by
    rw [List.drop_reverse]
    simp [Mailbox.all]
  have hunread : b.unread = (b.all.reverse.take b.unread.length).reverse := by simp [Mailbox.all]
  constructor
  · intro h i hi
    have htake : b.all.take b.unread.length = b.all.reverse.take b.unread.length :=
      List.reverse_injective (by rw [← hsent, h, ← hunread])
    rw [← List.getElem?_take_of_lt hi, htake, List.getElem?_take_of_lt hi]
  · intro h
    have htake : b.all.take b.unread.length = b.all.reverse.take b.unread.length := by
      ext1 i
      by_cases hi : i < b.unread.length
      · rw [List.getElem?_take_of_lt hi, List.getElem?_take_of_lt hi, h i hi]
      · rw [List.getElem?_take, List.getElem?_take, if_neg hi, if_neg hi]
    rw [hsent, htake, ← hunread]

/-- **When a Login replays what it should**: after any Logins, Quits and PMessages, a Login with the right
password sends the messages stored since the last Quit, oldest first, exactly when the mailbox is mirrored. -/
theorem login_replays_iff {s₀ s : Server} {requests : List Request} (hfresh : s₀.Fresh)
    (hrun : Talks s₀ requests s) (conn : Conn) (message : Login)
    (hpw : s.shown message.uid = some message.passwd) :
    ∃ s', serve s (.login conn message) = some s' ∧
      (s'.sent = s.sent ++ replies conn (mailbox message.uid requests).unread ↔
        (mailbox message.uid requests).Mirrored) := by
  have hfiled := hfresh.filed hrun
  have hlist := hfiled.lists message.uid
  obtain ⟨s', hserve, -, -, hsent⟩ :=
    serve_login_right conn hpw (hfiled.record message.uid) (hfiled.record_le message.uid)
  refine ⟨s', hserve, ?_⟩
  have hinj : Function.Injective (replies conn) := List.map_injective_iff.2 fun m m' h => by cases h; rfl
  rw [hsent, List.append_cancel_left_eq, hinj.eq_iff, hlist]
  exact Mailbox.drop_reverse_eq_iff _

theorem twoUsers_fresh : twoUsers.Fresh := ⟨fun _ => rfl, fun _ => rfl⟩

/-- One message, ever: it is replayed. -/
theorem login_replays_iff_single :
    ∃ s s', serve twoUsers (.pmessage 7 ⟨2, 1, ['x']⟩) = some s ∧ serve s (.login 5 ⟨1, ['a']⟩) = some s' ∧
      s'.sent = s.sent ++ replies 5 [⟨2, 1, ['x']⟩] := by
  have hrun : Talks twoUsers [.pmessage 7 ⟨2, 1, ['x']⟩] _ := Run.of_exec _ _ rfl
  obtain ⟨s', hs', hiff⟩ := login_replays_iff twoUsers_fresh hrun 5 ⟨1, ['a']⟩ rfl
  exact ⟨_, s', rfl, hs', hiff.2 (by decide)⟩

/-- A message to user 1, the Quit of user 1, another message: the Login replays the first one, and the second
one is never sent. -/
theorem login_replays_old : ¬ ∀ {s₀ s : Server} {requests : List Request}, s₀.Fresh → Talks s₀ requests s →
    ∀ (conn : Conn) (message : Login), s.shown message.uid = some message.passwd →
      ∃ s', serve s (.login conn message) = some s' ∧
        s'.sent = s.sent ++ replies conn (mailbox message.uid requests).unread := by
  intro h
  have hrun : Talks twoUsers [.pmessage 7 ⟨2, 1, ['x']⟩, .quit 5 ⟨1⟩, .pmessage 7 ⟨2, 1, ['y']⟩] _ :=
    Run.of_exec _ _ rfl
  obtain ⟨s', hs', hsent⟩ := h twoUsers_fresh hrun 5 ⟨1, ['a']⟩ rfl
  cases hs'
  exact absurd hsent (by decide)

end ChatReactor
