import ChatReactor.FilePhases
import ChatReactor.Lib.Trace

/-!
# What the file servers hand to the kernel

Whole runs. Every state of a run has its phase, and an endless run in which the loop goes round and the kernel takes
something of what is buffered, sooner or later, finishes: `rank` falls until it does.
-/

namespace ChatReactor
namespace FileServer
open TcpConnection

section
variable {p : Program} {content : List UInt8} {s s' : Session} {e : Event} {g_file : Option (List UInt8)}

/-- The events that bring a session nearer to its end. -/
def Event.Helps (s : Session) (e : Event) : Prop := (e = .swap ∧ s.conn.isWriting = false) ∨ e.Writes s

/-- **One event**, whatever the phase. -/
theorem Phase.step (h : Phase p content s) (hl : e.Legal s) (hs : e.Smooth s) (hs' : s.step p g_file e = some s') :
    Phase p content s' ∧ (¬ Finished content s → Finished content s' ∨ rank s' ≤ rank s ∧ (e.Helps s → rank s' < rank s)) := by
  cases h with
  | waiting h =>
    obtain ⟨s1, hs1, hphase, hrank⟩ := h.step hl hs
    cases hs'.symm.trans hs1
    refine ⟨hphase, fun _ => hrank.imp_right fun ⟨hle, hlt⟩ => ⟨hle, ?_⟩⟩
    rintro (⟨hswap, -⟩ | hwrites)
    · exact hlt hswap
    · have hw := hwrites.isWriting
      rw [isWriting_read h.events] at hw
      cases hw
  | writing h =>
    obtain ⟨s1, hs1, hphase, hrank⟩ := h.step hl hs
    cases hs'.symm.trans hs1
    refine ⟨hphase, fun _ => hrank.imp_right fun ⟨hle, hlt⟩ => ⟨hle, ?_⟩⟩
    rintro (⟨-, hw⟩ | hwrites)
    · rw [isWriting_write h.events] at hw
      cases hw
    · exact hlt hwrites
  | finished h => exact ⟨.finished (h.step hl hs'), fun hno => absurd h hno⟩

/-- An endless run of the loop in which the connection works. -/
abbrev Schedule (p : Program) (g_file : Option (List UInt8)) : Type :=
  Trace (Session.step p g_file) fun s e => e.Legal s ∧ e.Smooth s

/-- The loop goes round and round, and the kernel takes something of what is buffered, sooner or later. -/
structure Fair (t : Schedule p g_file) : Prop where
  rounds : ∀ n, ∃ m, n ≤ m ∧ t.event m = .swap
  writes : ∀ n, (t.state n).conn.isWriting = true → ∃ m, n ≤ m ∧ (t.event m).Writes (t.state m)

theorem Fair.finishes {t : Schedule p g_file} (hf : Fair t) (h0 : Phase p content (t.state 0)) :
    ∃ n, Finished content (t.state n) := by
  have hphase : ∀ n, Phase p content (t.state n) := fun n =>
    t.always_from _ (fun h hok hs' => (h.step hok.1 hok.2 hs').1) h0 (Nat.zero_le n)
  refine t.reaches _ (fun s e => e.Helps s) rank _ hphase (fun h hno hok hs' => (h.step hok.1 hok.2 hs').2 hno) fun n _ => ?_
  obtain ⟨m, hnm, hswap⟩ := hf.rounds n
  cases hw : (t.state m).conn.isWriting with
  | false => exact ⟨m, hnm, .inr (.inl ⟨hswap, hw⟩)⟩
  | true =>
    obtain ⟨m', hmm', hwrites⟩ := hf.writes m hw
    exact ⟨m', Nat.le_trans hnm hmm', .inr (.inr hwrites)⟩

/-- What the kernel got: the bytes, and how often it was told that the stream ends. -/
def stream (s : Session) : List UInt8 × Nat := (s.conn.wire, s.conn.shutdownWrites)

theorem Finished.stream_eq (h : Finished content s) : stream s = (content, 1) := Prod.ext h.wire h.shutdownWrites

theorem Open.stream_eq (h : Open p content s) : ∃ sent, sent <+: content ∧ stream s = (sent, 0) := by
  refine ⟨s.conn.wire, ?_, Prod.ext rfl h.shutdownWrites⟩
  rw [← h.bytes, output, List.append_assoc]
  exact List.prefix_append _ _

theorem Phase.stream_cases (h : Phase p content s) :
    (∃ sent, sent <+: content ∧ stream s = (sent, 0)) ∨ stream s = (content, 1) := by
  cases h with
  | waiting h => exact .inl h.stream_eq
  | writing h => exact .inl h.stream_eq
  | finished h => exact .inr h.stream_eq

theorem Phase.buffer_le (h : Phase p content s) (hp : p.writeComplete = true) :
    s.conn.outputBuffer.readableBytes ≤ kBufSize := by
  cases h with
  | waiting h => rw [(readableBytes_eq_zero h.wf).2 h.empty]; exact Nat.zero_le _
  | writing h => rw [← Buffer.content_length h.wf]; exact (h.chunk hp).2
  | finished h => rw [(readableBytes_eq_zero h.wf).2 h.empty]; exact Nat.zero_le _

/-- Exactly one of the two sources of `onWriteComplete` is there. -/
theorem Phase.trigger (h : Phase p content s) (hopen : s.conn.shutdownWrites = 0) :
    (s.world.queue.all.count .writeCompleteCallback = 1 ∧ s.conn.isWriting = false) ∨
    (s.world.queue.all.count .writeCompleteCallback = 0 ∧ s.conn.isWriting = true ∧ s.conn.slot = some true) := by
  cases h with
  | waiting h => exact .inl ⟨h.trigger, isWriting_read h.events⟩
  | writing h => exact .inr ⟨h.trigger, isWriting_write h.events, h.slot⟩
  | finished h => exact absurd (h.shutdownWrites.symm.trans hopen) Nat.one_ne_zero

theorem Phase.total (h : Phase p content s) (hopen : s.conn.shutdownWrites = 0) (hl : e.Legal s) (hs : e.Smooth s) :
    ∃ s', s.step p g_file e = some s' := by
  cases h with
  | waiting h =>
    obtain ⟨s', hs', -⟩ := h.step hl hs
    exact ⟨s', hs'⟩
  | writing h =>
    obtain ⟨s', hs', -⟩ := h.step hl hs
    exact ⟨s', hs'⟩
  | finished h => exact absurd (h.shutdownWrites.symm.trans hopen) Nat.one_ne_zero

/-- Under a fair schedule the kernel has the whole stream from some time on. -/
theorem Fair.stream_eq {t : Schedule p g_file} (hf : Fair t) (h0 : Phase p content (t.state 0)) :
    ∃ N, ∀ n, N ≤ n → stream (t.state n) = (content, 1) := by
  obtain ⟨N, hN⟩ := hf.finishes h0
  exact ⟨N, fun n hn => (t.always_from _ (fun h hok hs' => Finished.step h hok.1 hs') hN hn).stream_eq⟩

/-- **The chunked servers send what the whole-file server sends.** On a connection that works and is not closed
early the kernel gets the file from its beginning and then one end of the stream, whichever program
runs and however the writes are cut: at any time a part of it, and in the end all. A chunked program never has more
than `kBufSize` bytes in the buffer, and until the end there is exactly one thing to wait for. -/
theorem chunked_as_whole {p : Program} {g_file : Option (List UInt8)} {r : WriteResult} (threadId : Nat)
    (hr : r.Works (p.first g_file).length) : ∃ s0, connect p g_file threadId r = some s0 ∧
    (∀ es s, Run (Session.step p g_file) (fun s e => e.Legal s ∧ e.Smooth s) s0 es s →
      ((∃ sent, sent <+: g_file.getD [] ∧ stream s = (sent, 0)) ∨ stream s = (g_file.getD [], 1)) ∧
      (p ≠ .download → s.conn.outputBuffer.readableBytes ≤ kBufSize) ∧
      (s.conn.shutdownWrites = 0 →
        ((s.world.queue.all.count .writeCompleteCallback = 1 ∧ s.conn.isWriting = false) ∨
          (s.world.queue.all.count .writeCompleteCallback = 0 ∧ s.conn.isWriting = true ∧ s.conn.slot = some true)) ∧
        ∀ e : Event, e.Legal s → e.Smooth s → ∃ s', s.step p g_file e = some s')) ∧
    (∀ (t : Schedule p g_file), t.state 0 = s0 → Fair t → ∀ (threadId' : Nat) (r' : WriteResult) (t' : Schedule .download g_file),
      r'.Works (Program.download.first g_file).length → connect .download g_file threadId' r' = some (t'.state 0) → Fair t' →
      ∃ N, ∀ n, N ≤ n → stream (t.state n) = (g_file.getD [], 1) ∧ stream (t.state n) = stream (t'.state n)) := by
  obtain ⟨s0, hs0, hphase0⟩ := connect_phase p threadId hr
  refine ⟨s0, hs0, fun es s hrun => ?_, fun t ht hfair threadId' r' t' hr' ht' hfair' => ?_⟩
  · have hphase : Phase p (g_file.getD []) s := hrun.invariant _ (fun h hok hs' => (Phase.step h hok.1 hok.2 hs').1) hphase0
    refine ⟨hphase.stream_cases, fun hp => hphase.buffer_le ?_, fun hopen => ⟨hphase.trigger hopen, fun e hl hs => ?_⟩⟩
    · cases p with
      | download => exact absurd rfl hp
      | download2 => rfl
      | download3 => rfl
    · exact hphase.total hopen hl hs
  · obtain ⟨s0', hs0', hphase0'⟩ := connect_phase .download threadId' hr'
    cases ht'.symm.trans hs0'
    obtain ⟨N, hN⟩ := hfair.stream_eq (ht ▸ hphase0)
    obtain ⟨N', hN'⟩ := hfair'.stream_eq hphase0'
    refine ⟨max N N', fun n hn => ?_⟩
    have hn1 := hN n (Nat.le_trans (Nat.le_max_left _ _) hn)
    exact ⟨hn1, hn1.trans (hN' n (Nat.le_trans (Nat.le_max_right _ _) hn)).symm⟩

/-- A run that ends idle goes on for ever; it is fair if the write at `j` ends all waiting. -/
theorem fair_forever {es : List Event} {j k : Nat} {n : Int}
    (h : Run (Session.step p g_file) (fun s e => e.Legal s ∧ e.Smooth s) s es s') (htodo : s'.world.todo = [])
    (hq : s'.world.queue = ⟨[], []⟩) (hj : es[j]? = some (.callback n (.wrote (k + 1))))
    (hwrite : (exec (Session.step p g_file) (fun s e => e.Legal s ∧ e.Smooth s) s (es.take j)).map
      (fun s => (s.world.todo.head?, s.conn.isWriting)) = some (some .write, true))
    (hidle : ∀ i ≤ es.length, j < i → (exec (Session.step p g_file) (fun s e => e.Legal s ∧ e.Smooth s) s (es.take i)).map
      (fun s => s.conn.isWriting) = some false) : ∃ t : Schedule p g_file, t.state 0 = s ∧ Fair t := by
  have hlegal : Event.swap.Legal s' := ⟨htodo, by rw [hq]⟩
  obtain ⟨t, hevent, hlast, hstate⟩ := h.forever ⟨hlegal, trivial⟩ (step_swap_idle hq)
  have hat {i : Nat} (hi : i ≤ es.length) {s₁ : Session}
      (hs₁ : exec (Session.step p g_file) (fun s e => e.Legal s ∧ e.Smooth s) s (es.take i) = some s₁) : t.state i = s₁ := by
    have := hstate (es.take i) (es.drop i) s₁ (List.take_append_drop _ _).symm (.of_exec_eq hs₁)
    rwa [List.length_take, Nat.min_eq_left hi] at this
  have hjlt : j < es.length := (List.getElem?_eq_some_iff.1 hj).1
  have hquiet : ∀ i, j < i → (t.state i).conn.isWriting = false := by
    intro i hi
    rcases Nat.le_total i es.length with hle | hle
    · obtain ⟨s₁, hs₁, hw⟩ := Option.map_eq_some_iff.1 (hidle i hle hi)
      rw [hat hle hs₁, hw]
    · obtain ⟨s₁, hs₁, hw⟩ := Option.map_eq_some_iff.1 (hidle es.length (Nat.le_refl _) hjlt)
      rw [hlast i hle, ← hlast es.length (Nat.le_refl _), hat (Nat.le_refl _) hs₁, hw]
  refine ⟨t, hstate [] es s rfl (.nil s), fun n => ⟨max n es.length, Nat.le_max_left _ _, ?_⟩, fun n hw => ⟨j, ?_, ?_⟩⟩
  · rw [hevent, List.getD_eq_getElem?_getD, List.getElem?_eq_none (Nat.le_max_right _ _)]
    rfl
  · refine Nat.le_of_not_lt fun hlt => ?_
    rw [hquiet n hlt] at hw
    cases hw
  · obtain ⟨s₁, hs₁, hpair⟩ := Option.map_eq_some_iff.1 hwrite
    rw [hat (Nat.le_of_lt hjlt) hs₁, hevent, List.getD_eq_getElem?_getD, hj]
    exact ⟨congrArg Prod.fst hpair, congrArg Prod.snd hpair, k, rfl⟩

/-- Three bytes, of which the direct write takes one and `handleWrite` two, in both programs. -/
theorem chunked_as_whole_three : ∃ (t : Schedule .download2 (some [1, 2, 3])) (t' : Schedule .download (some [1, 2, 3])),
    connect .download2 (some [1, 2, 3]) 0 (.wrote 1) = some (t.state 0) ∧
    connect .download (some [1, 2, 3]) 0 (.wrote 1) = some (t'.state 0) ∧ Fair t ∧ Fair t' ∧
    ∃ N, ∀ n, N ≤ n → stream (t.state n) = ([1, 2, 3], 1) ∧ stream (t.state n) = stream (t'.state n) := by
  have hr : WriteResult.Works (Program.download2.first (some [1, 2, 3])).length (.wrote 1) :=
    ⟨by decide +kernel, by decide, by decide +kernel⟩
  have hr' : WriteResult.Works (Program.download.first (some [1, 2, 3])).length (.wrote 1) :=
    ⟨by decide +kernel, by decide, by decide +kernel⟩
  have hrun : Run (Session.step .download2 (some [1, 2, 3])) (fun s e => e.Legal s ∧ e.Smooth s)
      ((connect .download2 (some [1, 2, 3]) 0 (.wrote 1)).get (by decide +kernel))
      [.poll 4, .callback 1 (.wrote 2), .swap, .functor .wouldBlock] _ := Run.of_exec _ _ (by decide +kernel)
  have hrun' : Run (Session.step .download (some [1, 2, 3])) (fun s e => e.Legal s ∧ e.Smooth s)
      ((connect .download (some [1, 2, 3]) 0 (.wrote 1)).get (by decide +kernel))
      [.poll 4, .callback 1 (.wrote 2)] _ := Run.of_exec _ _ (by decide +kernel)
  obtain ⟨t, ht, hfair⟩ := fair_forever (j := 1) hrun (by decide +kernel) (by decide +kernel) rfl (by decide +kernel)
    (by decide +kernel)
  obtain ⟨t', ht', hfair'⟩ := fair_forever (j := 1) hrun' (by decide +kernel) (by decide +kernel) rfl (by decide +kernel)
    (by decide +kernel)
  have hs0 : connect .download2 (some [1, 2, 3]) 0 (.wrote 1) = some (t.state 0) := by rw [ht, Option.some_get]
  have hs0' : connect .download (some [1, 2, 3]) 0 (.wrote 1) = some (t'.state 0) := by rw [ht', Option.some_get]
  obtain ⟨s0, hconnect, -, hstream⟩ := chunked_as_whole 0 hr
  exact ⟨t, t', hs0, hs0', hfair, hfair', hstream t (Option.some.inj (hs0.symm.trans hconnect)) hfair 0 _ t' hr' hs0' hfair'⟩

end

end FileServer
end ChatReactor
