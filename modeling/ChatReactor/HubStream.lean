import ChatReactor.HubCodec

/-!
# What the hub's two ends make of a stream

`parseMessage_look` ties `parseMessage` on a buffer to `look` on its readable bytes. From it: publications come
back as they were published, however they are cut into reads (`hub_round_trip`), and what the server does with a
stream is independent of the cuts exactly if no operation follows an unknown command (`server_cuts_iff`).
-/

namespace ChatReactor

open Framing Lines

/-! ## Pointers into a buffer -/

namespace Buffer

variable {b : Buffer} {pre q spare : List UInt8}

theorem slice_eq (h : b.Layout pre q spare) {i j : Nat} (hj : j ≤ q.length) :
    b.slice (b.peek + i) (b.peek + j) = (q.take j).drop i := by
  rw [slice, ← List.drop_drop, h.drop_peek, Nat.add_sub_add_left, List.drop_take]
  by_cases hi : i ≤ q.length
  · rw [List.drop_append_of_le_length hi, List.take_append_of_le_length (by rw [List.length_drop]; omega)]
  · rw [show j - i = 0 by omega, List.take_zero, List.take_zero]

theorem find_eq (h : b.Layout pre q spare) {crlf : Nat} (hcrlf : crlf ≤ q.length) (c : UInt8) :
    b.find b.peek (b.peek + crlf) c = b.peek + (q.take crlf).idxOf c := by
  have hslice := slice_eq h (i := 0) hcrlf
  rw [Nat.add_zero, List.drop_zero] at hslice
  rw [find, hslice]

theorem findCRLF_eq (h : b.Layout pre q spare) {i : Nat} (hi : i ≤ q.length) :
    b.findCRLF (b.peek + i) = (findPair 13 10 (q.drop i)).map (b.peek + i + ·) := by
  have hend : b.beginWrite = b.peek + q.length := by rw [beginWrite, peek, h.writer_eq, h.reader_eq]
  rw [findCRLF, hend, slice_eq h (Nat.le_refl _), List.take_length]
  cases hfind : findPair 13 10 (q.drop i) with
  | none =>
    have hlast : b.peek + i + (b.peek + q.length - (b.peek + i)) = b.peek + q.length := by omega
    simp only [Option.getD_none, hlast, if_true, Option.map_none]
  | some n =>
    obtain ⟨-, hlen, -⟩ := findPair_some hfind
    rw [List.length_drop] at hlen
    have hfound : b.peek + i + n ≠ b.peek + q.length := by omega
    simp only [Option.getD_some, if_neg hfound, Option.map_some]

theorem retrieveUntil_holds (h : b.Layout pre q spare) {n : Nat} (hn : n ≤ q.length) :
    ∃ b', b.retrieveUntil (b.peek + n) = some b' ∧ b'.Holds (q.drop n) := by
  obtain ⟨b', h', hl'⟩ := retrieve_layout h n hn
  have hhigh : b.peek + n ≤ b.beginWrite := by rw [peek, beginWrite, h.reader_eq, h.writer_eq]; omega
  refine ⟨b', ?_, _, _, hl'⟩
  simp [retrieveUntil, check_of hhigh, h']

end Buffer

namespace Hub

/-- `parseMessage` does what `look` says about the readable bytes, and consumes a message only if it succeeds. -/
theorem parseMessage_look {b : Buffer} {q : List UInt8} (h : b.Holds q) :
    match look q with
    | .wait => ∃ m, parseMessage b = some (.kContinue, m, b)
    | .refuse _ => ∃ m, parseMessage b = some (.kError, m, b)
    | .take m n => ∃ b', parseMessage b = some (.kSuccess, m, b') ∧ b'.Holds (q.drop n) := by
  obtain ⟨pre, spare, h⟩ := h
  have hcrlf := Buffer.findCRLF_eq h (Nat.zero_le _)
  rw [Nat.add_zero, List.drop_zero] at hcrlf
  unfold look parseMessage
  rw [hcrlf]
  cases hfind : findPair 13 10 q with
  | none => exact ⟨_, rfl⟩
  | some crlf =>
    obtain ⟨-, hlen, -⟩ := findPair_some hfind
    have hspaceLe : (q.take crlf).idxOf 32 ≤ crlf := Nat.le_trans List.idxOf_le_length (List.length_take_le _ _)
    have hcmd := Buffer.slice_eq h (i := 0) (Nat.le_trans hspaceLe (by omega))
    have htopic := Buffer.slice_eq h (i := (q.take crlf).idxOf 32 + 1) (j := crlf) (by omega)
    rw [Nat.add_zero, List.drop_zero] at hcmd
    simp only [Option.map_some, Buffer.find_eq h (show crlf ≤ q.length by omega), hcmd, Nat.add_assoc b.peek, htopic]
    by_cases hspace : (q.take crlf).idxOf 32 = crlf
    · have hsame : ¬ b.peek + (q.take crlf).idxOf 32 ≠ b.peek + crlf := by omega
      rw [if_pos hspace, if_neg hsame]
      exact ⟨_, rfl⟩
    have hother : b.peek + (q.take crlf).idxOf 32 ≠ b.peek + crlf := by omega
    rw [if_neg hspace, if_pos hother]
    by_cases hpub : q.take ((q.take crlf).idxOf 32) = pub
    · rw [if_pos hpub, if_pos hpub, Buffer.findCRLF_eq h hlen]
      cases hsecond : findPair 13 10 (q.drop (crlf + 2)) with
      | none => exact ⟨_, rfl⟩
      | some n =>
        obtain ⟨-, hlen', -⟩ := findPair_some hsecond
        rw [List.length_drop] at hlen'
        obtain ⟨b', h', hb'⟩ := Buffer.retrieveUntil_holds h (show crlf + 2 + (n + 2) ≤ q.length by omega)
        have hcontent := Buffer.slice_eq h (i := crlf + 2) (j := crlf + 2 + n) (by omega)
        rw [List.drop_take, Nat.add_sub_cancel_left] at hcontent
        refine ⟨b', ?_, hb'⟩
        simp only [Option.map_some, Nat.add_assoc b.peek, hcontent, Nat.add_assoc (crlf + 2), h']
        rfl
    · obtain ⟨b', h', hb'⟩ := Buffer.retrieveUntil_holds h hlen
      rw [if_neg hpub, if_neg hpub, h']
      exact ⟨b', rfl, hb'⟩

section Parse
variable {b : Buffer} {q : List UInt8}

theorem parseMessage_wait (h : b.Holds q) (hv : look q = .wait) : ∃ m, parseMessage b = some (.kContinue, m, b) := by
  have hparse := parseMessage_look h
  rwa [hv] at hparse

theorem parseMessage_refuse (h : b.Holds q) {e : Unit} (hv : look q = .refuse e) :
    ∃ m, parseMessage b = some (.kError, m, b) := by
  have hparse := parseMessage_look h
  rwa [hv] at hparse

theorem parseMessage_take (h : b.Holds q) {m : Command} {n : Nat} (hv : look q = .take m n) :
    ∃ b', parseMessage b = some (.kSuccess, m, b') ∧ b'.Holds (q.drop n) := by
  have hparse := parseMessage_look h
  rwa [hv] at hparse

end Parse

/-! ## The client -/

namespace Client

/-- `onMessage` makes the calls for the messages that `drain` takes. -/
theorem onMessage_drain (cb : Bool) {b : Buffer} {q : List UInt8} (h : b.Holds q) :
    ∃ b', onMessage cb b = some ⟨b', (drain look q).items.flatMap (call cb), (drain look q).error.toList.length⟩ ∧
      b'.Holds (drain look q).rest := by
  refine loop_drain look_incremental (onMessageLoop cb) Buffer.Holds
    (fun b ms e => ⟨b, ms.flatMap (call cb), e.toList.length⟩) (fun m r => { r with calls := call cb m ++ r.calls })
    (fun _ _ _ _ => rfl) ?_ ?_ ?_ _ h (by rw [h.readableBytes_eq]; omega)
  · intro fuel b q hb hv
    obtain ⟨m, hparse⟩ := parseMessage_wait hb hv
    simp [onMessageLoop, hparse]
  · intro fuel b q e hb hv
    obtain ⟨m, hparse⟩ := parseMessage_refuse hb hv
    simp [onMessageLoop, hparse]
  · intro fuel b q m n hb hv
    obtain ⟨b', hparse, hb'⟩ := parseMessage_take hb hv
    exact ⟨b', hb', by simp [onMessageLoop, hparse, Option.map_eq_bind]⟩

theorem unbroken_line {topic : Str} (h : Unbroken 13 10 topic) : Unbroken 13 10 (pub ++ 32 :: topic) := by
  rw [← findPair_none] at h ⊢
  cases topic with
  | nil => rfl
  | cons x topic => simp [pub, findPair, h]

/-- What `publish` sends is a command. -/
theorem publish_frame {topic content : Str} (ht : Unbroken 13 10 topic) (hc : Unbroken 13 10 content) :
    Frame ⟨pub, topic, content⟩ (publish topic content) :=
  ⟨show 32 ∉ pub by decide, unbroken_line ht, .inl ⟨rfl, hc, by simp [publish, Command.line]⟩⟩

theorem handleRead_drains (cb : Bool) : Drains look (call cb) Buffer.Holds (handleRead cb) := by
  intro b q chunk h
  obtain ⟨b1, h1, hb1⟩ := Buffer.readFd_holds h chunk
  obtain ⟨b2, h2, hb2⟩ := onMessage_drain cb hb1
  refine ⟨b2, ?_, hb2⟩
  cases herr : (drain look (q ++ chunk)).error <;> simp [handleRead, h1, h2, herr]

/-- **The wire format round trip.** For any list of publications without a CRLF in a topic or a content, and any
way of cutting what `publish` sends for them into reads, `subscribeCallback_` is called exactly with that list, in
order, and the buffer is left empty. -/
theorem hub_round_trip (pubs : List (Str × Str)) (hpubs : ∀ p ∈ pubs, ¬ kCRLF <:+: p.1 ∧ ¬ kCRLF <:+: p.2)
    (chunks : List (List UInt8)) (hcut : chunks.flatten = (pubs.map fun p => publish p.1 p.2).flatten) :
    ∃ b, receive true Buffer.new chunks = some (b, pubs, []) ∧ b.readableBytes = 0 := by
  have hdrain : drain look ((pubs.map fun p => (⟨pub, p.1, p.2⟩ : Command)).map fun m => publish m.topic m.content).flatten =
      ⟨pubs.map fun p => ⟨pub, p.1, p.2⟩, [], none⟩ := by
    refine drain_encoded look_incremental rfl (fun m => publish m.topic m.content) _ fun m hm t => ?_
    obtain ⟨p, hp, rfl⟩ := List.mem_map.1 hm
    exact take_of_frame (publish_frame (hpubs p hp).1 (hpubs p hp).2) t
  obtain ⟨b, errs, hrec, hb, herr⟩ := reads_stream look_incremental rfl (handleRead_drains true) Buffer.new_holds chunks
  rw [List.map_map, show (fun m : Command => publish m.topic m.content) ∘ (fun p : Str × Str => ⟨pub, p.1, p.2⟩) =
    fun p => publish p.1 p.2 from rfl, ← hcut] at hdrain
  rw [hdrain] at hrec hb herr
  rw [herr rfl] at hrec
  have hcalls : (pubs.map fun p => (⟨pub, p.1, p.2⟩ : Command)).flatMap (call true) = pubs := by
    simp [call, List.flatMap_map]
  exact ⟨b, by rw [receive, hrec, hcalls], hb.readableBytes_eq⟩

/-- Two publications whose topic and contents touch the line ends with a lone CR and LF, cut inside a CRLF. -/
theorem hub_round_trip_lone :
    ∃ b, receive true Buffer.new [publish [97, 13] [10, 98] ++ [112], [117, 98, 32, 13], [10, 13], [10]] =
      some (b, [([97, 13], [10, 98]), ([], [])], []) ∧ b.readableBytes = 0 :=
  hub_round_trip [([97, 13], [10, 98]), ([], [])] (by decide) _ rfl

end Client

/-! ## The server -/

namespace Server

/-- `onMessage` is one call of the loop: the operations for what it takes, and a `shutdown` for each unknown
command and for a malformed line. -/
theorem onMessage_drainTo {b : Buffer} {q : List UInt8} (h : b.Holds q) :
    ∃ b' ms rest e n, onMessage b = some ⟨b', ms.filterMap operation, n⟩ ∧ b'.Holds rest ∧
      DrainTo operation look q ms rest e := by
  have hloop := loop_drainTo operation look_incremental onMessageLoop Buffer.Holds
    (fun b ms e => ⟨b, ms.filterMap operation, (ms.filter fun m => (operation m).isNone).length + e.toList.length⟩)
    (fun m r => { r with operations := (operation m).toList ++ r.operations }) ?_ ?_ ?_ ?_ ?_
    (b.readableBytes + 1) h (by rw [h.readableBytes_eq]; omega)
  · obtain ⟨b', ms, rest, e, hrun, hb', hd⟩ := hloop
    exact ⟨b', ms, rest, e, _, hrun, hb', hd⟩
  · intro m b ms e hop
    obtain ⟨o, ho⟩ := Option.isSome_iff_exists.1 hop
    simp [ho]
  · intro fuel b q hb hv
    obtain ⟨m, hparse⟩ := parseMessage_wait hb hv
    simp [onMessageLoop, hparse]
  · intro fuel b q e hb hv
    obtain ⟨m, hparse⟩ := parseMessage_refuse hb hv
    simp [onMessageLoop, hparse]
  · intro fuel b q m n hb hv hop
    obtain ⟨b', hparse, hb'⟩ := parseMessage_take hb hv
    exact ⟨b', hb', by simp [onMessageLoop, hparse, hop]⟩
  · intro fuel b q m n hb hv hop
    obtain ⟨b', hparse, hb'⟩ := parseMessage_take hb hv
    obtain ⟨o, ho⟩ := Option.isSome_iff_exists.1 hop
    exact ⟨b', hb', by simp [onMessageLoop, hparse, ho, Option.map_eq_bind]⟩

theorem handleRead_drainsTo : DrainsTo operation look Buffer.Holds handleRead := by
  intro b q chunk h
  obtain ⟨b1, h1, hb1⟩ := Buffer.readFd_holds h chunk
  obtain ⟨b2, ms, rest, e, n, h2, hb2, hd⟩ := onMessage_drainTo hb1
  exact ⟨b2, ms, rest, e, List.replicate n (), by simp [handleRead, h1, h2], hb2, hd⟩

/-- The operations that the server performs when a stream arrives in these reads. -/
def performed (chunks : List (List UInt8)) : Option (List Operation) :=
  (receive Buffer.new chunks).map fun r => r.2.1

/-- **Exactly when segmentation does not matter.** All ways of cutting a stream into reads lead to the same
operations if and only if in no front part of the stream that is made of commands an operation follows an unknown
command. -/
theorem server_cuts_iff (stream : List UInt8) :
    (∀ c₁ c₂ : List (List UInt8), c₁.flatten = stream → c₂.flatten = stream → (∀ c ∈ c₁ ++ c₂, c ≠ []) →
      performed c₁ = performed c₂) ↔
      ∀ ms pre, Packed Frame ms pre → pre <+: stream → Quiet operation ms := by
  have hiff := cuts_agree_iff look_incremental look_grammar rfl handleRead_drainsTo Buffer.new_holds stream
  obtain ⟨pre, hstream, hpacked, hlongest⟩ := drain_longest look_incremental look_grammar stream
  refine hiff.trans ⟨fun hquiet ms pre' hms hpre' => ?_, fun hall => hall _ pre hpacked ⟨_, hstream.symm⟩⟩
  obtain ⟨t, ht⟩ := (hlongest ms pre' hms hpre').1
  intro m hm
  refine hquiet m ?_
  rw [← ht, List.dropWhile_append]
  split
  · rename_i hempty
    rw [List.isEmpty_iff.1 hempty] at hm
    simp at hm
  · simp [hm]

/-- `foo x` and `sub t` in one read: the loop ends at the unknown command, and `sub t` is never looked at. In two
reads the second call finds `sub t` at the front. -/
theorem server_cuts_differ :
    performed [[102, 111, 111, 32, 120, 13, 10] ++ [115, 117, 98, 32, 116, 13, 10]] = some [] ∧
    performed [[102, 111, 111, 32, 120, 13, 10], [115, 117, 98, 32, 116, 13, 10]] = some [.doSubscribe [116]] := by
  decide +kernel

end Server

end Hub
end ChatReactor
