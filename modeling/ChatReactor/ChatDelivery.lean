import ChatReactor.CodecProofs
import ChatReactor.ChatServer
import ChatReactor.TcpTrace

/-!
# Private messages from one connection to another

The way of a private message through the chat server: the sender's loop reads a piece of its byte stream, the codec
decodes what is complete, `onPMessage` looks the peer up in `userconnections_` and has the codec send the message on the
peer's connection, whose own loop writes it.

| here | there |
| --- | --- |
| `Setup.peerid` | `peerid()` of an `im.PMessage`; a message of another type has none |
| `Setup.thread` | the thread of the loop that a connection belongs to |
| `Delivery.world` | the peer's connection in its loop |
| `Delivery.input`, `Event.arrive` | `inputBuffer_` of each connection; `handleRead` with `ProtobufCodec::onMessage` (`codec.cc:113-145`) |
| `Delivery.calls`, `Event.call` | the rounds of `onMessage`'s loop: each hands a message to its handler |
| `onPMessage` | `ChatServer::onPMessage` up to the first `codec_.send` (`server_threaded.cc:204-214`) |
| `Event.bind` | a SignUp or a Login writes an entry of `userconnections_` |
| `Event.peer` | anything that happens to the peer's connection, what others send on it included |
| `arrived`, `handled`, `record` | not in the source: the bytes read, the messages handled, all that was sent on the peer's connection |

The calls of one `onMessage` are events of their own, so that other loops can come between them.
-/

namespace ChatReactor
open World Framing

/-- `ProtobufCodec::send`: what it hands to the connection. -/
def Protobuf.encoding {M : Type} (P : Protobuf M) (message : M) : List UInt8 :=
  ((P.fillEmptyBuffer Buffer.new message).map Buffer.content).getD []

structure Setup (M : Type) where
  protobuf : Protobuf M
  peerid : M → Option Int
  thread : Conn → Nat
  /-- The peer's user and connection. -/
  uid : Int
  peer : Conn

/-- A send on the peer's connection, with the connection and the message it comes from if it is one of `onPMessage`. -/
abbrev Sent (M : Type) := Tagged (Option (Conn × M))

structure Delivery (M : Type) where
  world : World
  userconnections : Int → Option Conn
  input : Conn → Buffer
  calls : Conn → List M
  arrived : Conn → List UInt8
  handled : Conn → List M
  record : List (Sent M)

namespace Delivery
variable {M : Type} (S : Setup M)

/-- Something has happened to the peer's connection; what was sent on it is recorded with the tag. -/
def note (d : Delivery M) (world : World) (tag : Option (Conn × M)) : Delivery M :=
  let sent := world.accepted.drop d.world.accepted.length
  { d with world, record := d.record ++ sent.map (tagWith tag) }

/-- `onPMessage` on the loop of `conn`; what is sent on other connections than the peer's is not modelled. -/
def onPMessage (d : Delivery M) (conn : Conn) (message : M) (peerid : Int) (r : WriteResult) : Option (Delivery M) :=
  match d.userconnections peerid with
  | some peercon =>
    if peercon = S.peer then do
      let buf ← S.protobuf.fillEmptyBuffer Buffer.new message
      let world ← d.world.send (S.thread conn) buf.content r
      return d.note world (some (conn, message))
    else some d
  | none => some d

inductive Event
  | arrive (conn : Conn) (chunk : List UInt8)
  | call (conn : Conn) (r : WriteResult)
  | bind (uid : Int) (conn : Conn)
  | peer (e : World.Event)

def step (d : Delivery M) : Event → Option (Delivery M)
  | .arrive conn chunk => do
    let (_, buf) ← (d.input conn).readFd (some chunk)
    let received ← S.protobuf.onMessage buf
    return { d with
      input := Function.update d.input conn received.buf
      calls := Function.update d.calls conn (d.calls conn ++ received.messages)
      arrived := Function.update d.arrived conn (d.arrived conn ++ chunk) }
  | .call conn r => match d.calls conn with
    | message :: rest =>
      let d := { d with calls := Function.update d.calls conn rest
                        handled := Function.update d.handled conn (d.handled conn ++ [message]) }
      match S.peerid message with
      | some peerid => d.onPMessage S conn message peerid r
      | none => some d
    | [] => none
  | .bind uid conn => some { d with userconnections := Function.update d.userconnections uid (some conn) }
  | .peer e => do
    let world ← d.world.step e
    return d.note world none

/-- A connection is read again when its `onMessage` has returned; a thread handles the next message when it is out of
`queueInLoop`. -/
def Event.Legal (d : Delivery M) : Event → Prop
  | .arrive conn chunk => d.calls conn = [] ∧ chunk ≠ []
  | .call conn r => d.world.half (S.thread conn) = none ∧
      ∀ message ∈ (d.calls conn).head?, r.Legal (S.protobuf.encoding message).length
  | .bind _ _ => True
  | .peer e => e.Legal d.world

/-- No direct write to the peer's socket fails with `EPIPE` or `ECONNRESET`. -/
def Event.NoFault : Event → Prop
  | .call _ r => r ≠ .fault
  | .peer e => e.NoFault
  | .arrive _ _ | .bind _ _ => True

/-- The peer's entry is its connection, which is connected. -/
def Stays (d : Delivery M) : Prop := d.userconnections S.uid = some S.peer ∧ d.world.conn.state = .kConnected

/-- What is on the way to the peer: in the kernel, in `outputBuffer_`, or queued. -/
def outputStream (w : World) : List UInt8 :=
  w.conn.wire ++ w.conn.outputBuffer.content ++ ((w.queue.all.flatMap sends).map Prod.snd).flatten

end Delivery

/-- The message is one for the peer. -/
def Setup.toPeer {M : Type} (S : Setup M) (message : M) : Bool := S.peerid message = some S.uid

/-- The message for the peer that was sent for a connection. -/
def Setup.forwarded {M : Type} (S : Setup M) (conn : Conn) (x : Sent M) : Option M := match x.tag with
  | some (conn', message) => if conn' = conn ∧ S.toPeer message then some message else none
  | none => none

namespace Delivery
variable {M : Type} {S : Setup M} {base : List UInt8} {d d' : Delivery M} {e : Event}

/-! ## The peer's connection -/

/-- What a tag says is true. -/
def Authentic (S : Setup M) (x : Sent M) : Prop :=
  ∀ conn message, x.tag = some (conn, message) → x.sender = S.thread conn ∧ x.message = S.protobuf.encoding message

/-- Everything recorded is in the stream or about to be queued, once, and in the order of its thread. -/
structure Kept (S : Setup M) (base : List UInt8) (d : Delivery M) : Prop where
  wf : d.world.conn.outputBuffer.WF
  order : d.world.Order
  authentic : ∀ x ∈ d.record, Authentic S x
  traced : ∃ ran queued next, Traced base d.world ran queued next ∧
    ∀ t, sentBy t (ran ++ queued) ++ next t = sentBy t d.record

/-- One event of the peer's connection. -/
theorem Kept.note (h : Kept S base d) {world : World} {noFault : Prop} (hm : Moves d.world world noFault)
    (hnf : noFault) (hup : d.world.conn.state ≠ .kDisconnected) {tag : Option (Conn × M)}
    (htag : ∀ x ∈ world.accepted.drop d.world.accepted.length, Authentic S (tagWith tag x)) :
    Kept S base (d.note world tag) := by
  obtain ⟨sent, hacc⟩ := hm.flow.accepted
  have hdrop : world.accepted.drop d.world.accepted.length = sent := by rw [hacc, List.drop_left]
  rw [hdrop] at htag
  obtain ⟨ran, queued, next, htraced, hrecord⟩ := h.traced
  have hnew : world.accepted = d.world.accepted ++ (sent.map (tagWith tag)).map Tagged.send := by
    rw [hacc, map_send_tagWith]
  obtain ⟨ran', queued', next', htraced', hgrow⟩ := htraced.step h.order hm hnf hup hnew
  refine ⟨hm.wf, h.order.moves hm, fun x hx => ?_, ran', queued', next', htraced', fun t => ?_⟩
  · simp only [Delivery.note, hdrop] at hx
    obtain hx | hx := List.mem_append.1 hx
    · exact h.authentic x hx
    · obtain ⟨y, hy, rfl⟩ := List.mem_map.1 hx
      exact htag y hy
  · simp only [Delivery.note, hdrop]
    rw [hgrow, hrecord, sentBy_append]

theorem encoding_eq {P : Protobuf M} {message : M} {buf : Buffer} (h : P.fillEmptyBuffer Buffer.new message = some buf) :
    P.encoding message = buf.content := by
  simp [Protobuf.encoding, h]

/-- The next message of a connection is handled. -/
def handle (d : Delivery M) (conn : Conn) (message : M) (rest : List M) : Delivery M :=
  { d with calls := Function.update d.calls conn rest
           handled := Function.update d.handled conn (d.handled conn ++ [message]) }

/-- A call hands on the first message, and sends it if it is for the peer. -/
theorem call_cases (hstays : Stays S d) {conn : Conn} {r : WriteResult} (h : d.step S (.call conn r) = some d') :
    ∃ message rest, d.calls conn = message :: rest ∧
      ((S.toPeer message = false ∧ d' = d.handle conn message rest) ∨
       ∃ buf world, S.protobuf.fillEmptyBuffer Buffer.new message = some buf ∧
        d.world.send (S.thread conn) buf.content r = some world ∧
        d' = (d.handle conn message rest).note world (some (conn, message))) := by
  simp only [step] at h
  split at h
  · rename_i message rest hcalls
    refine ⟨message, rest, hcalls, ?_⟩
    split at h
    · rename_i peerid hpeerid
      have hother (hne : d.userconnections peerid ≠ some S.peer) : S.toPeer message = false := by
        rw [Setup.toPeer, hpeerid, decide_eq_false_iff_not]
        rintro ⟨⟩
        exact hne hstays.1
      simp only [onPMessage] at h
      split at h
      · rename_i peercon hentry
        split at h
        · rename_i hpeer
          obtain ⟨buf, hbuf, h⟩ := Option.bind_eq_some_iff.1 h
          obtain ⟨world, hworld, h⟩ := Option.bind_eq_some_iff.1 h
          cases h
          exact .inr ⟨buf, world, hbuf, hworld, rfl⟩
        · rename_i hpeer
          cases h
          refine .inl ⟨hother ?_, rfl⟩
          rw [hentry]
          rintro ⟨⟩
          exact hpeer rfl
      · rename_i hentry
        cases h
        refine .inl ⟨hother ?_, rfl⟩
        rw [hentry]
        nofun
    · rename_i hpeerid
      cases h
      exact .inl ⟨by simp [Setup.toPeer, hpeerid], rfl⟩
  · cases h

/-- **One event** keeps the account of the peer's connection. -/
theorem Kept.step (h : Kept S base d) (hl : e.Legal S d) (hstays : Stays S d) (hnf : e.NoFault)
    (hs' : d.step S e = some d') : Kept S base d' := by
  have hup : d.world.conn.state ≠ .kDisconnected := by
    rw [hstays.2]
    nofun
  cases e with
  | arrive conn chunk =>
    obtain ⟨⟨n, buf⟩, _, hs'⟩ := Option.bind_eq_some_iff.1 hs'
    obtain ⟨received, _, hs'⟩ := Option.bind_eq_some_iff.1 hs'
    cases hs'
    exact ⟨h.wf, h.order, h.authentic, h.traced⟩
  | bind uid conn =>
    cases hs'
    exact ⟨h.wf, h.order, h.authentic, h.traced⟩
  | peer e =>
    obtain ⟨world, hworld, hs'⟩ := Option.bind_eq_some_iff.1 hs'
    cases hs'
    exact h.note (step_moves h.wf hl hworld) hnf hup fun x _ => nofun
  | call conn r =>
    obtain ⟨message, rest, hcalls, ⟨_, rfl⟩ | ⟨buf, world, hbuf, hworld, rfl⟩⟩ := call_cases hstays hs'
    · exact ⟨h.wf, h.order, h.authentic, h.traced⟩
    · have hlegal : r.Legal buf.content.length := by
        rw [← encoding_eq hbuf]
        exact hl.2 message (by rw [hcalls]; rfl)
      have hm := moves_send h.wf (t := S.thread conn) (m := buf.content) ⟨hl.1, hlegal⟩ hworld
      have hhandled : Kept S base (d.handle conn message rest) := ⟨h.wf, h.order, h.authentic, h.traced⟩
      refine hhandled.note hm hnf hup fun x hx => ?_
      have hsent : x = (S.thread conn, buf.content) := by
        have hacc := send_accepted hstays.2 hworld
        simpa [Delivery.handle, hacc] using hx
      subst hsent
      rintro conn' message' ⟨⟩
      exact ⟨rfl, (encoding_eq hbuf).symm⟩

/-! ## The sender -/

/-- What the sender's bytes have come to: the messages they encode have been handled or are about to be, and those for
the peer that have been handled are the ones recorded. -/
structure Heard (S : Setup M) (conn : Conn) (d : Delivery M) : Prop where
  forwarded : d.record.filterMap (S.forwarded conn) = (d.handled conn).filter S.toPeer
  decoded : d.handled conn ++ d.calls conn = (drain (Protobuf.look S.protobuf) (d.arrived conn)).items
  layout : ∃ pre spare, (d.input conn).Layout pre (drain (Protobuf.look S.protobuf) (d.arrived conn)).rest spare

theorem forwarded_tagWith (conn conn' : Conn) (message : M) (x : Nat × List UInt8) :
    S.forwarded conn (tagWith (some (conn', message)) x) = if conn' = conn ∧ S.toPeer message then some message else none :=
  rfl

/-- What is sent for other reasons is not the sender's. -/
theorem forwarded_untagged (conn : Conn) (sent : List (Nat × List UInt8)) :
    (sent.map (tagWith none)).filterMap (S.forwarded conn) = [] := by
  rw [List.filterMap_map]
  exact List.filterMap_eq_nil_iff.2 fun x _ => rfl

/-- A piece of the stream is read. -/
theorem Heard.arrive {conn : Conn} (h : Heard S conn d) {conn' : Conn} {chunk : List UInt8}
    (hs' : d.step S (.arrive conn' chunk) = some d') : Heard S conn d' := by
  obtain ⟨⟨n, buf⟩, hread, hs'⟩ := Option.bind_eq_some_iff.1 hs'
  obtain ⟨received, hmessage, hs'⟩ := Option.bind_eq_some_iff.1 hs'
  cases hs'
  by_cases hconn : conn = conn'
  · subst hconn
    obtain ⟨pre, spare, hlay⟩ := h.layout
    obtain ⟨buf1, _, _, hread1, hlay1, -⟩ := Buffer.readFd_layout hlay chunk
    cases hread.symm.trans hread1
    obtain ⟨buf2, pre2, spare2, hmessage2, hlay2⟩ := Protobuf.onMessage_drain (P := S.protobuf) hlay1
    cases hmessage.symm.trans hmessage2
    obtain ⟨hitems, hrest, -, -⟩ := drain_append (Protobuf.look_incremental S.protobuf) (d.arrived conn) chunk
    refine ⟨h.forwarded, ?_, pre2, spare2, ?_⟩
    · simp only [Function.update_self, hitems, ← h.decoded, List.append_assoc]
    · simp only [Function.update_self, hrest]
      exact hlay2
  · refine ⟨h.forwarded, ?_, ?_⟩
    · simpa only [Function.update_of_ne hconn] using h.decoded
    · simpa only [Function.update_of_ne hconn] using h.layout

/-- A message of some connection is handed on. -/
theorem Heard.handle {conn : Conn} (h : Heard S conn d) {conn' : Conn} {message : M} {rest : List M}
    (hcalls : d.calls conn' = message :: rest) {record : List (Sent M)}
    (hrecord : record.filterMap (S.forwarded conn) = d.record.filterMap (S.forwarded conn) ++
      if conn' = conn ∧ S.toPeer message then [message] else []) (world : World) :
    Heard S conn { d.handle conn' message rest with world, record } := by
  by_cases hconn : conn = conn'
  · subst hconn
    refine ⟨?_, ?_, h.layout⟩
    · simp only [Delivery.handle, Function.update_self, List.filter_append, hrecord, h.forwarded]
      by_cases hto : S.toPeer message = true <;> simp [hto]
    · simp only [Delivery.handle, Function.update_self, ← h.decoded, hcalls]
      simp
  · have hne : ¬(conn' = conn ∧ S.toPeer message) := fun hand => hconn hand.1.symm
    rw [if_neg hne, List.append_nil] at hrecord
    refine ⟨?_, ?_, h.layout⟩
    · simpa only [Delivery.handle, Function.update_of_ne hconn, hrecord] using h.forwarded
    · simpa only [Delivery.handle, Function.update_of_ne hconn] using h.decoded

/-- **One event** keeps the account of the sender. -/
theorem Heard.step {conn : Conn} (h : Heard S conn d) (hstays : Stays S d) (hs' : d.step S e = some d') :
    Heard S conn d' := by
  cases e with
  | arrive conn' chunk => exact h.arrive hs'
  | bind uid conn' =>
    cases hs'
    exact ⟨h.forwarded, h.decoded, h.layout⟩
  | peer e =>
    obtain ⟨world, hworld, hs'⟩ := Option.bind_eq_some_iff.1 hs'
    cases hs'
    refine ⟨?_, h.decoded, h.layout⟩
    simp only [Delivery.note, List.filterMap_append, forwarded_untagged, List.append_nil]
    exact h.forwarded
  | call conn' r =>
    obtain ⟨message, rest, hcalls, ⟨hto, rfl⟩ | ⟨buf, world, hbuf, hworld, rfl⟩⟩ := call_cases hstays hs'
    · exact h.handle hcalls (by simp [hto]) d.world
    · refine h.handle hcalls ?_ world
      have hacc := send_accepted hstays.2 hworld
      have hdrop : world.accepted.drop (d.handle conn' message rest).world.accepted.length =
          [(S.thread conn', buf.content)] := by
        rw [hacc]
        exact List.drop_left
      simp only [hdrop, List.map_cons, List.map_nil, List.filterMap_append]
      refine congrArg _ ?_
      rw [List.filterMap_cons, forwarded_tagWith]
      by_cases hand : conn' = conn ∧ S.toPeer message = true <;> simp [hand]

/-! ## Runs -/

/-- A run in which the peer's entry stays its connection and the connection stays connected. -/
abbrev Steps (S : Setup M) (ok : Event → Prop) := Run (step S) fun d e => e.Legal S d ∧ Stays S d ∧ ok e

/-- The output since it was `base` is a sequence of sends: all those recorded, except what a thread is about to queue, each
once and in the order of its thread. Those that `onPMessage` has made for the connection are the encodings of the messages
for the peer among `ms`, in this order: of some first ones, and of all when all bytes have been read and all messages
handled. -/
def InOrder (S : Setup M) (base : List UInt8) (d : Delivery M) (conn : Conn) (ms : List M) : Prop :=
  ∃ (stream : List (Sent M)) (next : Nat → List (Sent M)),
    outputStream d.world = base ++ bytes stream ∧
    (∀ t, sentBy t stream ++ next t = sentBy t d.record) ∧ (∀ t, d.world.half t = none → next t = []) ∧
    ∃ sent, sent <+: ms.filter S.toPeer ∧
      (stream.filter fun x => (S.forwarded conn x).isSome).map Tagged.message = sent.map S.protobuf.encoding ∧
      (d.arrived conn = (ms.map S.protobuf.encoding).flatten → d.calls conn = [] → d.world.half (S.thread conn) = none →
        sent = ms.filter S.toPeer)

theorem forwarded_eq_some {conn : Conn} {x : Sent M} {message : M} (h : S.forwarded conn x = some message) :
    x.tag = some (conn, message) := by
  unfold Setup.forwarded at h
  split at h
  · rename_i conn' message' htag
    split at h
    · rename_i hand
      cases h
      rw [htag, hand.1]
    · cases h
  · cases h

/-- What was sent for a connection was sent by its thread. -/
theorem forwarded_sentBy {conn : Conn} {l : List (Sent M)} (h : ∀ x ∈ l, Authentic S x) :
    (sentBy (S.thread conn) l).filterMap (S.forwarded conn) = l.filterMap (S.forwarded conn) := by
  unfold sentBy
  rw [List.filterMap_filter]
  refine List.filterMap_congr fun x hx => ?_
  cases hf : S.forwarded conn x with
  | none => simp
  | some message => simp [(h x hx conn message (forwarded_eq_some hf)).1]

/-- Its bytes are the encodings. -/
theorem forwarded_message {conn : Conn} : ∀ {l : List (Sent M)}, (∀ x ∈ l, Authentic S x) →
    (l.filter fun x => (S.forwarded conn x).isSome).map Tagged.message =
      (l.filterMap (S.forwarded conn)).map S.protobuf.encoding
  | [], _ => rfl
  | x :: l, h => by
    have ih := @forwarded_message conn l fun y hy => h y (List.mem_cons_of_mem _ hy)
    cases hf : S.forwarded conn x with
    | none => simpa [hf] using ih
    | some message =>
      have hmessage := (h x List.mem_cons_self conn message (forwarded_eq_some hf)).2
      simpa [hf, hmessage] using ih

/-- The messages that some first bytes of a stream of encodings decode to are the first of those encoded. -/
theorem items_prefix (hP : S.protobuf.Lawful) {ms : List M}
    (hms : ∀ m ∈ ms, S.protobuf.getTypeName m ≠ [] ∧ (S.protobuf.createMessage (S.protobuf.getTypeName m)).isSome ∧
      S.protobuf.encodedLen m ≤ kMaxMessageLen) {arrived : List UInt8}
    (h : arrived <+: (ms.map S.protobuf.encoding).flatten) :
    (drain (Protobuf.look S.protobuf) arrived).items <+: ms ∧
      (arrived = (ms.map S.protobuf.encoding).flatten → (drain (Protobuf.look S.protobuf) arrived).items = ms) := by
  have hall : drain (Protobuf.look S.protobuf) (ms.map S.protobuf.encoding).flatten = ⟨ms, [], none⟩ := by
    refine drain_encoded (Protobuf.look_incremental S.protobuf) rfl S.protobuf.encoding ms fun m hm t => ?_
    obtain ⟨hne, hreg, hlen⟩ := hms m hm
    obtain ⟨m₀, hm₀⟩ := Option.isSome_iff_exists.1 hreg
    obtain ⟨buf, hbuf, hwire⟩ := Protobuf.fillEmptyBuffer_wire hP m (Nat.lt_of_le_of_lt hlen (by decide))
    rw [encoding_eq hbuf, hwire]
    exact (hP.at m).look_wire hm₀ hne hlen t
  obtain ⟨rest, hrest⟩ := h
  obtain ⟨hitems, -, -, -⟩ := drain_append (Protobuf.look_incremental S.protobuf) arrived rest
  rw [hrest, hall] at hitems
  refine ⟨⟨_, hitems.symm⟩, ?_⟩
  rintro rfl
  rw [hall]

/-- What the two accounts come to. -/
theorem Kept.inOrder (h : Kept S base d) {conn : Conn} (hheard : Heard S conn d) {ms : List M}
    (hfirst : (drain (Protobuf.look S.protobuf) (d.arrived conn)).items <+: ms)
    (hlast : d.arrived conn = (ms.map S.protobuf.encoding).flatten →
      (drain (Protobuf.look S.protobuf) (d.arrived conn)).items = ms) : InOrder S base d conn ms := by
  obtain ⟨ran, queued, next, htraced, hrecord⟩ := h.traced
  have hauth : ∀ x ∈ ran ++ queued, Authentic S x := by
    intro x hx
    have hown : x ∈ sentBy x.sender d.record := by
      rw [← hrecord]
      exact List.mem_append_left _ (List.mem_filter.2 ⟨hx, by simp⟩)
    exact h.authentic x (List.mem_filter.1 hown).1
  have hnext : ∀ t, d.world.half t = none → next t = [] := fun t ht => by simpa [ht] using htraced.half t
  have hsent : (ran ++ queued).filterMap (S.forwarded conn) ++ (next (S.thread conn)).filterMap (S.forwarded conn) =
      (d.handled conn).filter S.toPeer := by
    rw [← hheard.forwarded, ← forwarded_sentBy h.authentic, ← hrecord, ← forwarded_sentBy hauth]
    exact List.filterMap_append.symm
  rw [← hheard.decoded] at hfirst hlast
  refine ⟨ran ++ queued, next, ?_, hrecord, hnext, (ran ++ queued).filterMap (S.forwarded conn), ?_,
    forwarded_message hauth, fun harrived hcalls hhalf => ?_⟩
  · rw [outputStream, bytes_append, bytes_eq htraced.queued, ← List.append_assoc]
    exact congrArg (· ++ _) htraced.output
  · have hhandled : d.handled conn <+: ms := (List.prefix_append _ _).trans hfirst
    exact List.IsPrefix.trans ⟨_, hsent⟩ (hhandled.filter _)
  · rw [hnext _ hhalf, List.filterMap_nil, List.append_nil] at hsent
    have hhandled := hlast harrived
    rw [hcalls, List.append_nil] at hhandled
    rw [hsent, hhandled]

/-- The beginning of the run: the peer's connection has any past, and the record has what is in flight; nothing of the
sender has been read. -/
structure Starts (conn : Conn) (d : Delivery M) : Prop where
  past : ∃ sameLoop threadId writeComplete highWater mark w events,
    newConnection sameLoop threadId writeComplete highWater mark = some w ∧
      Run World.step (fun w e => e.Legal w) w events d.world
  untagged : ∀ x ∈ d.record, x.tag = none
  inFlight : ∀ t, (sentBy t d.record).map Tagged.send =
    own t (d.world.queue.all.flatMap sends) ++ (d.world.half t).toList.flatMap sends
  input : d.input conn = Buffer.new
  calls : d.calls conn = []
  arrived : d.arrived conn = []
  handled : d.handled conn = []

theorem Starts.kept {conn : Conn} (h : Starts conn d) : Kept S d.world.conn.output d := by
  obtain ⟨_, _, _, _, _, w, events, hnew, hpast⟩ := h.past
  have hstream := Stream.new hnew
  obtain ⟨hwf, hord⟩ := legal_run hpast hstream.alive.wf hstream.order
  refine ⟨hwf, hord, fun x hx conn message htag => ?_, [], (d.world.queue.all.flatMap sends).map (tagWith none),
    fun t => ((d.world.half t).toList.flatMap sends).map (tagWith none), ⟨?_, ?_, fun t => ?_⟩, fun t => ?_⟩
  · cases (h.untagged x hx).symm.trans htag
  · simp [bytes]
  · exact map_send_tagWith _ _
  · exact map_send_tagWith _ _
  · rw [List.nil_append, sentBy_tagWith, ← List.map_append, ← h.inFlight t]
    exact map_tagWith_send fun x hx => h.untagged x (List.mem_filter.1 hx).1

theorem Starts.heard {conn : Conn} (h : Starts conn d) : Heard S conn d where
  forwarded := by
    rw [h.handled]
    refine List.filterMap_eq_nil_iff.2 fun x hx => ?_
    rw [Setup.forwarded, h.untagged x hx]
  decoded := by
    rw [h.handled, h.calls, h.arrived]
    rfl
  layout := by
    rw [h.input, h.arrived]
    exact ⟨_, _, Buffer.new_layout⟩

/-- **Private messages arrive once and in order.** The messages for the peer in the byte stream of a connection, whatever the
interleaving of the loops and whatever others send to the peer, as long as the peer's entry stays its connection, this
stays connected, and no direct write to its socket fails with `EPIPE` or `ECONNRESET`. -/
theorem private_messages_in_order (hP : S.protobuf.Lawful) {d₀ : Delivery M} {conn : Conn} (hstart : Starts conn d₀)
    {events : List Event} (hrun : Steps S Event.NoFault d₀ events d) {ms : List M}
    (hms : ∀ m ∈ ms, S.protobuf.getTypeName m ≠ [] ∧ (S.protobuf.createMessage (S.protobuf.getTypeName m)).isSome ∧
      S.protobuf.encodedLen m ≤ kMaxMessageLen)
    (hbytes : d.arrived conn <+: (ms.map S.protobuf.encoding).flatten) :
    InOrder S d₀.world.conn.output d conn ms := by
  have hinv : Kept S d₀.world.conn.output d ∧ Heard S conn d := by
    refine hrun.invariant (fun d => Kept S d₀.world.conn.output d ∧ Heard S conn d) ?_ ⟨hstart.kept, hstart.heard⟩
    rintro d e d' ⟨hkept, hheard⟩ ⟨hl, hstays, hnf⟩ hs'
    exact ⟨hkept.step hl hstays hnf hs', hheard.step hstays hs'⟩
  obtain ⟨hfirst, hlast⟩ := items_prefix hP hms hbytes
  exact hinv.1.inOrder hinv.2 hfirst hlast

/-! ### `im.PMessage` messages -/

/-- The library with the one message type `im.PMessage`; a message is its payload. -/
def pmessages : Protobuf (List UInt8) where
  getTypeName _ := [105, 109, 46, 80, 77, 101, 115, 115, 97, 103, 101]
  byteSize := List.length
  serializeWithCachedSizesToArray := id
  createMessage name := if name = [105, 109, 46, 80, 77, 101, 115, 115, 97, 103, 101] then some [] else none
  parseFromArray _ data := (true, data)
  adler32 := Protobuf.adler

theorem pmessages_lawful : pmessages.Lawful where
  byteSize_eq _ := rfl
  parse_serialize _ _ _ := rfl

/-- User 1 sends a text of one letter. -/
def letter (peerid : UInt8) : List UInt8 := [8, 1, 16, peerid, 26, 1, 104]

/-- User 5 is the peer, on connection 1; each connection has a loop of its own. -/
def userFive : Setup (List UInt8) where
  protobuf := pmessages
  peerid message := message[3]?.map fun peerid => (peerid.toNat : Int)
  thread conn := conn
  uid := 5
  peer := 1

def idle : Delivery (List UInt8) where
  world := (newConnection true 1 false false 0).get rfl
  userconnections uid := if uid = 5 then some 1 else none
  input _ := Buffer.new
  calls _ := []
  arrived _ := []
  handled _ := []
  record := []

theorem idle_starts (conn : Conn) : Starts conn idle where
  past := ⟨true, 1, false, false, 0, _, [], rfl, .nil _⟩
  untagged := nofun
  inFlight _ := rfl
  input := rfl
  calls := rfl
  arrived := rfl
  handled := rfl

instance (S : Setup M) (d : Delivery M) : (e : Event) → Decidable (e.Legal S d)
  | .arrive _ _ => inferInstanceAs (Decidable (_ ∧ _))
  | .call conn _ => inferInstanceAs (Decidable (_ ∧ ∀ message ∈ (d.calls conn).head?, _))
  | .bind _ _ => .isTrue trivial
  | .peer e => inferInstanceAs (Decidable (e.Legal d.world))

instance : (e : Event) → Decidable e.NoFault
  | .call _ r => inferInstanceAs (Decidable (r ≠ .fault))
  | .peer e => inferInstanceAs (Decidable e.NoFault)
  | .arrive _ _ | .bind _ _ => .isTrue trivial

instance (S : Setup M) (d : Delivery M) : Decidable (Stays S d) := inferInstanceAs (Decidable (_ ∧ _))

/-- Connection 2 sends two equal messages to user 5 and one to user 7 in between, cut into two pieces; connection 3 sends two
bytes of something else. -/
def traffic : List Event :=
  let stream := ([letter 5, letter 7, letter 5].map pmessages.encoding).flatten
  [.arrive 2 (stream.take 40), .call 2 .error, .peer (.push 2), .peer (.send 3 [9, 9] .error), .arrive 2 (stream.drop 40),
    .call 2 .error, .call 2 .error, .peer (.push 2), .peer (.push 3), .peer .swap, .peer (.functor (.wrote 4)),
    .peer (.functor .wouldBlock)]

theorem private_messages_in_order_two : ∃ d, Steps userFive Event.NoFault idle traffic d ∧
    d.world.conn.wire.length = 4 ∧ d.world.half 2 = none ∧ InOrder userFive [] d 2 [letter 5, letter 7, letter 5] := by
  have hrun : Steps userFive Event.NoFault idle traffic _ := Run.of_exec _ _ (by decide +kernel)
  refine ⟨_, hrun, by decide +kernel, by decide +kernel, ?_⟩
  exact private_messages_in_order pmessages_lawful (idle_starts 2) hrun (by decide) (by decide +kernel)

/-- With nothing in the output, no message for the peer has got there. -/
theorem InOrder.of_empty {conn : Conn} {m : M} (h : InOrder S [] d conn [m]) (hout : outputStream d.world = [])
    (hto : S.toPeer m = true) (harrived : d.arrived conn = S.protobuf.encoding m) (hcalls : d.calls conn = [])
    (hhalf : d.world.half (S.thread conn) = none) : S.protobuf.encoding m = [] := by
  obtain ⟨stream, next, hstream, -, -, sent, -, hmessage, hall⟩ := h
  rw [hall (by simpa using harrived) hcalls hhalf, List.filter_cons_of_pos hto] at hmessage
  have hmem : S.protobuf.encoding m ∈ stream.map Tagged.message := by
    have hsent : S.protobuf.encoding m ∈ (stream.filter fun x => (S.forwarded conn x).isSome).map Tagged.message := by
      rw [hmessage]
      exact List.mem_cons_self
    exact List.map_subset _ (List.filter_subset_self _) hsent
  rw [hout, List.nil_append] at hstream
  exact List.flatten_eq_nil_iff.1 hstream.symm _ hmem

/-- A message longer than `kMaxMessageLen` is read and not handed on. -/
theorem arrive_long (hP : S.protobuf.Lawful) {conn : Conn} (hstart : Starts conn d) {m : M}
    (hlong : kMaxMessageLen < S.protobuf.encodedLen m) (hmax : S.protobuf.encodedLen m < 2147483648) :
    S.protobuf.encoding m ≠ [] ∧ ∃ d', d.step S (.arrive conn (S.protobuf.encoding m)) = some d' ∧ d'.world = d.world ∧
      d'.userconnections = d.userconnections ∧ d'.arrived conn = S.protobuf.encoding m ∧ d'.calls conn = [] := by
  obtain ⟨buf, hbuf, hwire⟩ := Protobuf.fillEmptyBuffer_wire hP m hmax
  rw [← encoding_eq hbuf] at hwire
  have hne : S.protobuf.encoding m ≠ [] := by
    have hlen := Protobuf.length_wire hP m
    rw [← hwire, kHeaderLen] at hlen
    exact List.ne_nil_of_length_pos (by omega)
  obtain ⟨buf1, _, _, hread, hlay, -⟩ := Buffer.readFd_layout Buffer.new_layout (S.protobuf.encoding m)
  obtain ⟨buf2, _, _, hmessage, -⟩ := Protobuf.onMessage_drain (P := S.protobuf) hlay
  have hitems : (drain (Protobuf.look S.protobuf) ([] ++ S.protobuf.encoding m)).items = [] := by
    rw [List.nil_append, hwire, drain_step (Protobuf.look_incremental S.protobuf), Protobuf.look_long hP hlong hmax]
  rw [hitems] at hmessage
  refine ⟨hne, { d with
    input := Function.update d.input conn buf2
    calls := Function.update d.calls conn (d.calls conn ++ [])
    arrived := Function.update d.arrived conn (d.arrived conn ++ S.protobuf.encoding m) }, ?_, rfl, rfl, ?_, ?_⟩
  · simp only [step, hstart.input, hread, hmessage, Option.bind_eq_bind, Option.bind_some, Option.pure_def]
  · simp [hstart.arrived]
  · simp [hstart.calls]

theorem long_lost (hP : S.protobuf.Lawful) {conn : Conn} (hstart : Starts conn d) (hstays : Stays S d)
    (hout : outputStream d.world = []) (hhalf : d.world.half (S.thread conn) = none) {m : M} (hto : S.toPeer m = true)
    (hlong : kMaxMessageLen < S.protobuf.encodedLen m) (hmax : S.protobuf.encodedLen m < 2147483648) :
    ∃ d', Steps S Event.NoFault d [.arrive conn (S.protobuf.encoding m)] d' ∧ Stays S d' ∧ ¬InOrder S [] d' conn [m] := by
  obtain ⟨hne, d', hd', hworld, hentries, harrived, hcalls⟩ := arrive_long hP hstart hlong hmax
  refine ⟨d', .cons ⟨⟨hstart.calls, hne⟩, hstays, trivial⟩ hd' (.nil _), ?_, fun h => hne ?_⟩
  · rw [Stays, hworld, hentries]
    exact hstays
  · rw [← hworld] at hout hhalf
    exact h.of_empty hout hto harrived hcalls hhalf

theorem toPeer_letter (text : List UInt8) : userFive.toPeer (letter 5 ++ text) = true := rfl

/-- A message is lost when the peer's socket fails with `EPIPE` in its `sendInLoop`, although the connection stays
connected; and one that is longer than the decoder accepts does not get to the peer. -/
theorem private_message_lost :
    (∃ d, Steps userFive (fun _ => True) idle [.arrive 2 (pmessages.encoding (letter 5)), .call 2 .error,
        .peer (.push 2), .peer .swap, .peer (.functor .fault)] d ∧ Stays userFive d ∧
      ¬InOrder userFive [] d 2 [letter 5]) ∧
    ∃ m d, userFive.toPeer m = true ∧ Steps userFive Event.NoFault idle [.arrive 2 (pmessages.encoding m)] d ∧
      Stays userFive d ∧ ¬InOrder userFive [] d 2 [m] := by
  constructor
  · refine ⟨_, Run.of_exec _ _ (by decide +kernel), by decide +kernel, fun h => ?_⟩
    have hnil := h.of_empty (by decide +kernel) (by decide +kernel) (by decide +kernel) (by decide +kernel)
      (by decide +kernel)
    exact absurd hnil (by decide +kernel)
  · obtain ⟨text, htext⟩ : ∃ text : List UInt8, text.length = kMaxMessageLen := ⟨.replicate _ 104, List.length_replicate⟩
    have hlen : pmessages.encodedLen (letter 5 ++ text) = kMaxMessageLen + 27 := by
      simp only [Protobuf.encodedLen, pmessages, letter, kHeaderLen, List.length_append, htext]
      simp
      omega
    obtain ⟨d, hd⟩ := long_lost pmessages_lawful (idle_starts 2) (by decide +kernel) (by decide +kernel) rfl
      (toPeer_letter text) (hlen ▸ Nat.lt_add_of_pos_right (by decide)) (hlen ▸ by decide)
    exact ⟨_, d, toPeer_letter text, hd⟩

end Delivery

end ChatReactor
