import Mathlib.Data.List.Nodup
import ChatReactor.ChatServer
import ChatReactor.Lib.Runs

/-!
# Groups

`ChatServer::onGMessage`, `onCreateGroup` and `onAddGroup` (`server_threaded.cc:239-265`).

| here | there |
| --- | --- |
| `Groups.groupconnections` | `groupconnections_`, an `unordered_multimap`: its entries, one for each `insert` |
| `order` in `gMessage` | the order in which the loop of `onGMessage` meets the entries: any, each of them once |
| `Groups.sent` | what was given to `codec_.send` |

`onGMessage` goes through all entries and does not look at the group, so what reaches a connection depends on how
often it has joined any group.
-/

namespace ChatReactor

structure CreateGroup where
  gid : Int
  deriving Repr, DecidableEq

structure AddGroup where
  gid : Int
  deriving Repr, DecidableEq

structure GMessage where
  gid : Int
  content : Text
  deriving Repr, DecidableEq

structure Groups where
  groupconnections : List (Int × Conn)
  sent : List (Conn × GMessage)
  deriving Repr, DecidableEq

namespace Groups

def init : Groups := ⟨[], []⟩

/-- `groupconnections_.insert` -/
def insert (s : Groups) (gid : Int) (conn : Conn) : Groups :=
  { s with groupconnections := s.groupconnections ++ [(gid, conn)] }

def onCreateGroup (s : Groups) (conn : Conn) (message : CreateGroup) : Groups := s.insert message.gid conn

def onAddGroup (s : Groups) (conn : Conn) (message : AddGroup) : Groups := s.insert message.gid conn

def onGMessage (s : Groups) (order : List (Int × Conn)) (_conn : Conn) (message : GMessage) : Groups :=
  { s with sent := s.sent ++ order.map fun iter => (iter.2, message) }

inductive Event
  | createGroup (conn : Conn) (message : CreateGroup)
  | addGroup (conn : Conn) (message : AddGroup)
  | gMessage (conn : Conn) (message : GMessage) (order : List (Int × Conn))
  deriving Repr, DecidableEq

def step (s : Groups) : Event → Option Groups
  | .createGroup conn message => some (s.onCreateGroup conn message)
  | .addGroup conn message => some (s.onAddGroup conn message)
  | .gMessage conn message order => some (s.onGMessage order conn message)

def Event.Legal (s : Groups) : Event → Prop
  | .gMessage _ _ order => order.Perm s.groupconnections
  | _ => True

instance (s : Groups) : ∀ e : Event, Decidable (e.Legal s)
  | .gMessage _ _ order => inferInstanceAs (Decidable (order.Perm s.groupconnections))
  | .createGroup .. | .addGroup .. => .isTrue trivial

abbrev Steps : Groups → List Event → Groups → Prop := Run step fun s e => e.Legal s

/-- The groups that were created or joined, with the connections. -/
def joins : List Event → List (Int × Conn)
  | [] => []
  | .createGroup conn message :: es => (message.gid, conn) :: joins es
  | .addGroup conn message :: es => (message.gid, conn) :: joins es
  | .gMessage .. :: es => joins es

/-- What a group message is for: each connection of the group gets it once, no other gets it. -/
def Delivered (history : List Event) (message : GMessage) (sent : List (Conn × GMessage)) : Prop :=
  ∀ conn, sent.count (conn, message) = if (message.gid, conn) ∈ joins history then 1 else 0

variable {s s' : Groups} {es : List Event}

/-- The multimap holds the joins. -/
theorem groupconnections_steps (h : Steps s es s') : s'.groupconnections = s.groupconnections ++ joins es := by
  induction h with
  | nil => simp [joins]
  | @cons s s1 s2 e es _ hs _ ih =>
    rw [ih]
    cases e with
    | createGroup conn message =>
      cases hs
      simp [onCreateGroup, insert, joins]
    | addGroup conn message =>
      cases hs
      simp [onAddGroup, insert, joins]
    | gMessage conn message order =>
      cases hs
      rfl

/-- The message reaches a connection once for each of its entries. -/
theorem count_sent (order : List (Int × Conn)) (message : GMessage) (conn : Conn) :
    (order.map fun iter => (iter.2, message)).count (conn, message) = (order.map Prod.snd).count conn := by
  induction order with
  | nil => rfl
  | cons iter order ih => simp [List.count_cons, ih]

/-- Entries for one group and of different connections are just what is needed. -/
theorem count_eq_iff (l : List (Int × Conn)) (gid : Int) :
    (∀ conn, (l.map Prod.snd).count conn = if (gid, conn) ∈ l then 1 else 0) ↔ (∀ x ∈ l, x.1 = gid) ∧ l.Nodup := by
  constructor
  · intro h
    have hle : ∀ conn, (l.map Prod.snd).count conn ≤ 1 := by
      intro conn
      rw [h conn]
      split <;> decide
    have hnodup := List.nodup_iff_count_le_one.2 hle
    refine ⟨fun x hx => ?_, hnodup.of_map⟩
    have hpos : 0 < (l.map Prod.snd).count x.2 := List.count_pos_iff.2 (List.mem_map_of_mem hx)
    have hmem : (gid, x.2) ∈ l := by
      by_contra hnot
      rw [h x.2, if_neg hnot] at hpos
      exact absurd hpos (Nat.lt_irrefl 0)
    -- an entry of another group would be a second one of this connection
    exact congrArg Prod.fst (List.inj_on_of_nodup_map hnodup hx hmem rfl)
  · rintro ⟨hgid, hnodup⟩ conn
    have hsnd : (l.map Prod.snd).Nodup := by
      refine List.Nodup.map_on (fun x hx y hy heq => ?_) hnodup
      exact Prod.ext ((hgid x hx).trans (hgid y hy).symm) heq
    split
    · rename_i hmem
      exact List.count_eq_one_of_mem hsnd (List.mem_map_of_mem (f := Prod.snd) hmem)
    · rename_i hnot
      refine List.count_eq_zero.2 fun hin => hnot ?_
      obtain ⟨⟨g, c⟩, hx, rfl⟩ := List.mem_map.1 hin
      cases hgid _ hx
      exact hx

/-- **A group message is delivered as it should be exactly if there is one group**: after any run, in any order of the
multimap, if and only if every `CreateGroup` and `AddGroup` so far named the group of the message, and no
connection made two of them. -/
theorem group_delivery_iff (h : Steps init es s) {conn : Conn} {message : GMessage} {order : List (Int × Conn)}
    (hl : (Event.gMessage conn message order).Legal s) :
    (∃ sent, (s.onGMessage order conn message).sent = s.sent ++ sent ∧ Delivered es message sent) ↔
      (∀ x ∈ joins es, x.1 = message.gid) ∧ (joins es).Nodup := by
  have hentries : s.groupconnections = joins es := groupconnections_steps h
  have hperm : order.Perm (joins es) := hentries ▸ hl
  have hdelivered : Delivered es message (order.map fun iter => (iter.2, message)) ↔
      (∀ x ∈ joins es, x.1 = message.gid) ∧ (joins es).Nodup := by
    rw [← count_eq_iff]
    refine forall_congr' fun c => ?_
    rw [count_sent, (hperm.map Prod.snd).count_eq]
  rw [← hdelivered]
  constructor
  · rintro ⟨sent, heq, hsent⟩
    cases List.append_cancel_left heq
    exact hsent
  · exact fun hsent => ⟨_, rfl, hsent⟩

/-- Two connections in one group. -/
theorem group_delivery_iff_two : ∃ s, Steps init [.createGroup 1 ⟨7⟩, .addGroup 2 ⟨7⟩] s ∧
    ∃ sent, (s.onGMessage [(7, 2), (7, 1)] 1 ⟨7, ['h']⟩).sent = s.sent ++ sent ∧
      Delivered [.createGroup 1 ⟨7⟩, .addGroup 2 ⟨7⟩] ⟨7, ['h']⟩ sent := by
  have h : Steps init [.createGroup 1 ⟨7⟩, .addGroup 2 ⟨7⟩] _ := Run.of_exec _ _ rfl
  have hl : (Event.gMessage 1 ⟨7, ['h']⟩ [(7, 2), (7, 1)]).Legal ⟨[(7, 1), (7, 2)], []⟩ := by decide
  exact ⟨_, h, (group_delivery_iff h hl).2 (by decide)⟩

/-- A message to group 7 reaches connection 2, which has only joined group 8. -/
theorem group_message_reaches_other_group : ∃ s, Steps init [.createGroup 1 ⟨7⟩, .createGroup 2 ⟨8⟩] s ∧
    (Event.gMessage 1 ⟨7, ['h']⟩ [(7, 1), (8, 2)]).Legal s ∧
    (s.onGMessage [(7, 1), (8, 2)] 1 ⟨7, ['h']⟩).sent = [(1, ⟨7, ['h']⟩), (2, ⟨7, ['h']⟩)] ∧
    ¬∃ sent, (s.onGMessage [(7, 1), (8, 2)] 1 ⟨7, ['h']⟩).sent = s.sent ++ sent ∧
      Delivered [.createGroup 1 ⟨7⟩, .createGroup 2 ⟨8⟩] ⟨7, ['h']⟩ sent := by
  refine ⟨_, .cons trivial rfl (.cons trivial rfl (.nil _)), by decide, rfl, ?_⟩
  rintro ⟨sent, heq, hsent⟩
  cases heq
  exact absurd (hsent 2) (by decide)

end Groups
end ChatReactor
