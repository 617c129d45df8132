import ChatReactor.TcpStream

/-!
# Where the output of a `TcpConnection` comes from

`send()` is called by many threads, and by each for many reasons. Here every message carries a tag that says why it was
sent; the tags are not in the source, and nothing depends on them. `Traced` gives the tagged messages of a state: those
whose `sendInLoop` has run, those in the queue, and the one that each thread is about to queue. An event adds the
messages it accepts to the end of what their thread has there, and moves the others on without changing their order
(`Traced.step`).

Unlike `Stream`, this does not look at `handleClose`: it holds as long as the connection is not down.
-/

namespace ChatReactor
namespace World
open TcpConnection

/-- A message that a thread has sent, with a tag. -/
structure Tagged (L : Type) where
  sender : Nat
  message : List UInt8
  tag : L

variable {L : Type}

def Tagged.send (x : Tagged L) : Nat × List UInt8 := (x.sender, x.message)

def tagWith (tag : L) (x : Nat × List UInt8) : Tagged L := ⟨x.1, x.2, tag⟩

/-- The tagged messages of one thread. -/
def sentBy (t : Nat) (l : List (Tagged L)) : List (Tagged L) := l.filter (·.sender = t)

def bytes (l : List (Tagged L)) : List UInt8 := (l.map Tagged.message).flatten

/-- The tagged messages since the output was `base`. -/
structure Traced (base : List UInt8) (w : World) (ran queued : List (Tagged L)) (half : Nat → List (Tagged L)) :
    Prop where
  output : w.conn.output = base ++ bytes ran
  queued : queued.map Tagged.send = w.queue.all.flatMap sends
  half : ∀ t, (half t).map Tagged.send = (w.half t).toList.flatMap sends

section
variable {w w' : World} {e : Event} {noFault : Prop} {base : List UInt8} {ran queued new l l' : List (Tagged L)}
  {half : Nat → List (Tagged L)} {t : Nat}

theorem sentBy_append (t : Nat) (l l' : List (Tagged L)) : sentBy t (l ++ l') = sentBy t l ++ sentBy t l' := List.filter_append _ _

theorem bytes_append (l l' : List (Tagged L)) : bytes (l ++ l') = bytes l ++ bytes l' := by simp [bytes]

theorem bytes_eq {sent : List (Nat × List UInt8)} (h : l.map Tagged.send = sent) : (sent.map Prod.snd).flatten = bytes l := by
  subst h
  simp [bytes, Tagged.send, Function.comp_def]

@[simp] theorem map_send_tagWith (tag : L) (sent : List (Nat × List UInt8)) :
    (sent.map (tagWith tag)).map Tagged.send = sent := by
  rw [List.map_map]
  exact List.map_id sent

/-- Messages that all have the same tag are known by what was sent. -/
theorem map_tagWith_send {tag : L} (h : ∀ x ∈ l, x.tag = tag) : (l.map Tagged.send).map (tagWith tag) = l := by
  rw [List.map_map]
  refine (List.map_congr_left fun x hx => ?_).trans (List.map_id l)
  rw [← h x hx]
  rfl

theorem sentBy_tagWith (t : Nat) (tag : L) (sent : List (Nat × List UInt8)) :
    sentBy t (sent.map (tagWith tag)) = (own t sent).map (tagWith tag) := List.filter_map

/-- The messages of a thread among those of one thread. -/
theorem sentBy_self (h : ∀ x ∈ l, x.sender = t) : sentBy t l = l :=
  List.filter_eq_self.2 fun x hx => by simpa using h x hx

theorem sentBy_ne {t' : Nat} (h : ∀ x ∈ l, x.sender = t') (ht : t ≠ t') : sentBy t l = [] :=
  List.filter_eq_nil_iff.2 fun x hx => by simpa [h x hx] using Ne.symm ht

/-- The loop's thread sends past an empty queue of its own. -/
theorem sentBy_send {t₀ : Nat} (hqueued : sentBy t₀ queued = []) (hhalf : half t₀ = []) (hnew : ∀ x ∈ new, x.sender = t₀)
    (t : Nat) : sentBy t (ran ++ new ++ queued) ++ half t = sentBy t (ran ++ queued) ++ half t ++ sentBy t new := by
  simp only [sentBy_append]
  by_cases ht : t = t₀
  · subst ht
    simp [hqueued, hhalf]
  · simp [sentBy_ne hnew ht]

/-- A thread begins to queue. -/
theorem sentBy_begin {t₀ : Nat} (hhalf : half t₀ = []) (hnew : ∀ x ∈ new, x.sender = t₀) (l : List (Tagged L)) (t : Nat) :
    sentBy t l ++ Function.update half t₀ new t = sentBy t l ++ half t ++ sentBy t new := by
  by_cases ht : t = t₀
  · subst ht
    simp [hhalf, sentBy_self hnew]
  · simp [ht, sentBy_ne hnew ht]

/-- It has the lock. -/
theorem sentBy_push {t₀ : Nat} (hhalf : ∀ x ∈ half t₀, x.sender = t₀) (l : List (Tagged L)) (t : Nat) :
    sentBy t (l ++ half t₀) ++ Function.update half t₀ [] t = sentBy t l ++ half t := by
  simp only [sentBy_append]
  by_cases ht : t = t₀
  · subst ht
    simp [sentBy_self hhalf]
  · simp [ht, sentBy_ne hhalf ht]

theorem sender_of_send {sent : List (Nat × List UInt8)} (heq : l.map Tagged.send = sent) {P : Nat → Prop}
    (h : ∀ y ∈ sent, P y.1) : ∀ x ∈ l, P x.sender := by
  intro x hx
  exact h x.send (heq ▸ List.mem_map_of_mem hx)

/-- The loop's own thread has nothing in the queue. -/
theorem Traced.loop (h : Traced base w ran queued half) (hord : Order w) :
    sentBy w.threadId queued = [] ∧ half w.threadId = [] := by
  refine ⟨List.filter_eq_nil_iff.2 fun x hx => ?_, ?_⟩
  · simpa using sender_of_send (P := (· ≠ w.threadId)) h.queued hord.loop x hx
  · have hnone := h.half w.threadId
    rw [hord.half_loop] at hnone
    exact List.map_eq_nil_iff.1 hnone

/-- What a thread is about to queue is its own. -/
theorem Traced.half_sender (h : Traced base w ran queued half) (hord : Order w) (t : Nat) : ∀ x ∈ half t, x.sender = t := by
  refine sender_of_send (P := (· = t)) (h.half t) fun y hy => ?_
  cases hf : w.half t with
  | none => simp [hf] at hy
  | some f =>
    rw [hf] at hy
    exact hord.half_own hf y (by simpa using hy)

/-- One thread has begun to queue, or has done so. -/
theorem Traced.half_update (h : Traced base w ran queued half) {f : Option LoopFunctor}
    (hf : new.map Tagged.send = f.toList.flatMap sends) (t₀ t : Nat) :
    (Function.update half t₀ new t).map Tagged.send = (Function.update w.half t₀ f t).toList.flatMap sends := by
  by_cases ht : t = t₀
  · subst ht
    rw [Function.update_self, Function.update_self, hf]
  · rw [Function.update_of_ne ht, Function.update_of_ne ht, h.half t]

/-- **One event.** Each thread's messages stay in their order, with those it has just sent at the end. -/
theorem Traced.step (h : Traced base w ran queued half) (hord : Order w) (hm : Moves w w' noFault) (hnf : noFault)
    (hup : w.conn.state ≠ .kDisconnected) (hnew : w'.accepted = w.accepted ++ new.map Tagged.send) :
    ∃ ran' queued' half', Traced base w' ran' queued' half' ∧
      ∀ t, sentBy t (ran' ++ queued') ++ half' t = sentBy t (ran ++ queued) ++ half t ++ sentBy t new := by
  obtain ⟨sent, hsent, hout⟩ := hm.output hnf hup
  have houtput (added : List (Tagged L)) (hadded : added.map Tagged.send = sent) :
      w'.conn.output = base ++ bytes (ran ++ added) := by
    rw [hout, h.output, bytes_eq hadded, bytes_append, List.append_assoc]
  cases hm.flow with
  | keep fs hfs hq hacc hran hhalf =>
    obtain rfl : sent = [] := by simpa [hran] using hsent
    obtain rfl : new = [] := by simpa [hacc] using hnew
    refine ⟨ran, queued, half, ⟨?_, ?_, by rw [hhalf]; exact h.half⟩, fun t => (List.append_nil _).symm⟩
    · rw [houtput [] rfl, List.append_nil]
    · rw [hq, List.flatMap_append, sends_mute hfs, List.append_nil, h.queued]
  | send m fs hfs hq hacc hran hhalf =>
    obtain rfl : sent = [(w.threadId, m)] := by simpa [hran] using hsent.symm
    have hsend : new.map Tagged.send = [(w.threadId, m)] := by simpa [hacc] using hnew.symm
    have hsender : ∀ x ∈ new, x.sender = w.threadId := sender_of_send (P := (· = w.threadId)) hsend (by simp)
    obtain ⟨hloop, hnext⟩ := h.loop hord
    refine ⟨ran ++ new, queued, half, ⟨houtput new hsend, ?_, by rw [hhalf]; exact h.half⟩, sentBy_send hloop hnext hsender⟩
    rw [hq, List.flatMap_append, sends_mute hfs, List.append_nil, h.queued]
  | begin t₀ f hfree _ hown _ hq hacc hran hhalf =>
    obtain rfl : sent = [] := by simpa [hran] using hsent
    have hsend : new.map Tagged.send = sends f := by simpa [hacc] using hnew.symm
    have hidle : half t₀ = [] := by simpa [hfree] using h.half t₀
    refine ⟨ran, queued, Function.update half t₀ new, ⟨?_, by rw [hq]; exact h.queued, fun t => ?_⟩,
      sentBy_begin hidle (sender_of_send (P := (· = t₀)) hsend hown) _⟩
    · rw [houtput [] rfl, List.append_nil]
    · rw [hhalf]
      exact h.half_update (by simpa using hsend) t₀ t
  | push t₀ f hf hq hacc hran hhalf =>
    obtain rfl : sent = [] := by simpa [hran] using hsent
    obtain rfl : new = [] := by simpa [hacc] using hnew
    have hsend : (half t₀).map Tagged.send = sends f := by simpa [hf] using h.half t₀
    refine ⟨ran, queued ++ half t₀, Function.update half t₀ [], ⟨?_, ?_, fun t => ?_⟩, fun t => ?_⟩
    · rw [houtput [] rfl, List.append_nil]
    · rw [hq, List.map_append, List.flatMap_append, h.queued, hsend, List.flatMap_singleton]
    · rw [hhalf]
      exact h.half_update rfl t₀ t
    · rw [← List.append_assoc ran, sentBy_push (h.half_sender hord t₀)]
      exact (List.append_nil _).symm
  | run f rest fs hfs hall hq hacc hran hhalf =>
    obtain rfl : sent = sends f := by simpa [hran] using hsent.symm
    obtain rfl : new = [] := by simpa [hacc] using hnew
    have hsplit := h.queued
    rw [hall, List.flatMap_cons] at hsplit
    -- the head of the queue goes to the end of what has run
    obtain ⟨first, later, rfl, hfirst, hlater⟩ := List.map_eq_append_iff.1 hsplit
    refine ⟨ran ++ first, later, half, ⟨houtput first hfirst, ?_, by rw [hhalf]; exact h.half⟩, fun t => ?_⟩
    · rw [hq, List.flatMap_append, sends_mute hfs, List.append_nil, hlater]
    · rw [List.append_assoc]
      exact (List.append_nil _).symm

end
end World
end ChatReactor
