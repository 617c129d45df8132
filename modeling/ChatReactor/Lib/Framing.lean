import Mathlib.Data.List.Basic

/-!
# Incremental decoders of a stream

A decoder looks at the front of what has arrived and either waits, takes one item off the front, or
refuses. `drain` repeats it until it waits or refuses, `feed` drains after each read. A decoder that
does not change its mind when more arrives (`Incremental`) delivers the same items however the stream
is cut into reads (`feed_chunks`), and decodes what was encoded item by item (`drain_encoded`).

`Grammar` says which frames a decoder takes, without the decoder: then what it delivers of any stream
are the items of the longest front part made of frames (`drain_longest`). A program that decodes in a
loop and keeps the rest in a buffer is tied to `drain` by `loop_drain` and `reads_stream`.
-/

namespace Framing

variable {α μ ε : Type}

/-- What a decoder makes of the front of the stream. -/
inductive Verdict (μ ε : Type)
  | wait
  | take (item : μ) (n : Nat)
  | refuse (e : ε)
deriving DecidableEq, Repr

/-- The items delivered, what is left, and the refusal that ended it, if any. -/
structure Drained (α μ ε : Type) where
  items : List μ
  rest : List α
  error : Option ε
deriving DecidableEq, Repr

/-- Decode until the decoder waits or refuses; `fuel` bounds the number of items. -/
def drainFuel (look : List α → Verdict μ ε) : Nat → List α → Drained α μ ε
  | 0, q => ⟨[], q, none⟩
  | fuel + 1, q =>
    match look q with
    | .wait => ⟨[], q, none⟩
    | .refuse e => ⟨[], q, some e⟩
    | .take m n =>
      let r := drainFuel look fuel (q.drop n)
      ⟨m :: r.items, r.rest, r.error⟩

/-- An item takes at least one symbol, so this is fuel enough for the last look as well. -/
def drain (look : List α → Verdict μ ε) (q : List α) : Drained α μ ε := drainFuel look (q.length + 1) q

/-- More input never changes a verdict that was not `wait`. -/
structure Incremental (look : List α → Verdict μ ε) : Prop where
  take_pos : ∀ {q m n}, look q = .take m n → 0 < n ∧ n ≤ q.length
  take_append : ∀ {q m n} (t : List α), look q = .take m n → look (q ++ t) = .take m n
  refuse_append : ∀ {q e} (t : List α), look q = .refuse e → look (q ++ t) = .refuse e

variable {look : List α → Verdict μ ε}

theorem drainFuel_eq (hl : Incremental look) : ∀ (f g : Nat) (q : List α), q.length < f → q.length < g →
    drainFuel look f q = drainFuel look g q
  | 0, _, _, hf, _ => by omega
  | _ + 1, 0, _, _, hg => by omega
  | f + 1, g + 1, q, hf, hg => by
    simp only [drainFuel]
    cases hv : look q with
    | wait => rfl
    | refuse e => rfl
    | take m n =>
      obtain ⟨hn, hle⟩ := hl.take_pos hv
      have hlen : (q.drop n).length < q.length := by simp; omega
      simp only [drainFuel_eq hl f g (q.drop n) (by omega) (by omega)]

/-- The loop, one round at a time. -/
theorem drain_step (hl : Incremental look) (q : List α) : drain look q =
    match look q with
    | .wait => ⟨[], q, none⟩
    | .refuse e => ⟨[], q, some e⟩
    | .take m n => ⟨m :: (drain look (q.drop n)).items, (drain look (q.drop n)).rest, (drain look (q.drop n)).error⟩ := by
  cases hv : look q with
  | wait => simp [drain, drainFuel, hv]
  | refuse e => simp [drain, drainFuel, hv]
  | take m n =>
    obtain ⟨hn, hle⟩ := hl.take_pos hv
    have hlen : (q.drop n).length < q.length := by simp; omega
    simp only [drain, drainFuel, hv, drainFuel_eq hl q.length ((q.drop n).length + 1) (q.drop n) hlen (by omega)]

/-- Draining what has arrived first and then going on with the rest is draining everything, and a
refusal stays. -/
theorem drain_append (hl : Incremental look) (p t : List α) :
    (drain look (p ++ t)).items = (drain look p).items ++ (drain look ((drain look p).rest ++ t)).items ∧
    (drain look (p ++ t)).rest = (drain look ((drain look p).rest ++ t)).rest ∧
    (drain look (p ++ t)).error = (drain look ((drain look p).rest ++ t)).error ∧
    ((drain look (p ++ t)).error = none → (drain look p).error = none) := by
  induction hn : p.length using Nat.strongRecOn generalizing p with
  | ind k ih =>
    subst hn
    rw [drain_step hl p]
    cases hv : look p with
    | wait => simp
    | refuse e => rw [drain_step hl (p ++ t), hl.refuse_append t hv]; simp
    | take m n =>
      obtain ⟨hpos, hle⟩ := hl.take_pos hv
      have hdrop : (p ++ t).drop n = p.drop n ++ t := List.drop_append_of_le_length hle
      obtain ⟨h1, h2, h3, h4⟩ := ih (p.drop n).length (by simp; omega) (p.drop n) rfl
      rw [drain_step hl (p ++ t), hl.take_append t hv]
      simp only [hdrop]
      exact ⟨by rw [h1, List.cons_append], h2, h3, h4⟩

/-- A refusal is about what is left. -/
theorem drain_error (hl : Incremental look) {q : List α} {e : ε} (h : (drain look q).error = some e) :
    look (drain look q).rest = .refuse e := by
  induction hn : q.length using Nat.strongRecOn generalizing q with
  | ind k ih =>
    subst hn
    rw [drain_step hl] at h ⊢
    cases hv : look q with
    | wait =>
      rw [hv] at h
      cases h
    | refuse e' =>
      rw [hv] at h
      cases h
      exact hv
    | take m n =>
      rw [hv] at h
      obtain ⟨hpos, hle⟩ := hl.take_pos hv
      exact ih (q.drop n).length (by simp; omega) h rfl

theorem error_append (hl : Incremental look) {p : List α} {e : ε} (h : (drain look p).error = some e) (t : List α) :
    (drain look (p ++ t)).error = some e := by
  rw [(drain_append hl p t).2.2.1, drain_step hl, hl.refuse_append t (drain_error hl h)]

/-- One read: append what arrived to what was left, and drain. -/
def feed (look : List α → Verdict μ ε) (s : List μ × List α) (chunk : List α) : List μ × List α :=
  (s.1 ++ (drain look (s.2 ++ chunk)).items, (drain look (s.2 ++ chunk)).rest)

theorem feed_append (hl : Incremental look) (out : List μ) (p t : List α) :
    feed look (out ++ (drain look p).items, (drain look p).rest) t =
      (out ++ (drain look (p ++ t)).items, (drain look (p ++ t)).rest) := by
  obtain ⟨h1, h2, _, _⟩ := drain_append hl p t
  simp only [feed, h1, h2, List.append_assoc]

/-- **Cuts do not matter**: reading in chunks delivers what one read of everything delivers. -/
theorem feed_chunks (hl : Incremental look) : ∀ (chunks : List (List α)) (p : List α),
    chunks.foldl (feed look) ((drain look p).items, (drain look p).rest) =
      ((drain look (p ++ chunks.flatten)).items, (drain look (p ++ chunks.flatten)).rest)
  | [], p => by simp
  | c :: cs, p => by
    have h := feed_append hl [] p c
    rw [List.nil_append, List.nil_append] at h
    rw [List.foldl_cons, h, feed_chunks hl cs (p ++ c), List.flatten_cons, List.append_assoc]

/-! ## Frames -/

/-- Frames one after another, with the items they carry. -/
inductive Packed (frame : μ → List α → Prop) : List μ → List α → Prop
  | nil : Packed frame [] []
  | cons {m : μ} {f : List α} {ms : List μ} {p : List α} :
      frame m f → Packed frame ms p → Packed frame (m :: ms) (f ++ p)

/-- The decoder takes the frames of the grammar, whatever follows, and nothing else. -/
structure Grammar (look : List α → Verdict μ ε) (frame : μ → List α → Prop) : Prop where
  sound : ∀ {q m n}, look q = .take m n → frame m (q.take n)
  complete : ∀ {m f} (t : List α), frame m f → look (f ++ t) = .take m f.length

/-- A decoder with a grammar cannot take back what it took. -/
theorem Grammar.incremental {frame : μ → List α → Prop} (hg : Grammar look frame)
    (hpos : ∀ {q m n}, look q = .take m n → 0 < n ∧ n ≤ q.length)
    (hrefuse : ∀ {q e} (t : List α), look q = .refuse e → look (q ++ t) = .refuse e) : Incremental look where
  take_pos := hpos
  take_append := by
    intro q m n t h
    -- the frame that was taken is still at the front
    have htake := hg.complete (q.drop n ++ t) (hg.sound h)
    rwa [← List.append_assoc, List.take_append_drop, List.length_take, Nat.min_eq_left (hpos h).2] at htake
  refuse_append := hrefuse

/-- `ms` are the items of the longest front part of `q` that is made of frames; `rest` is what is
behind it. -/
def Longest (frame : μ → List α → Prop) (q : List α) (ms : List μ) (rest : List α) : Prop :=
  ∃ pre, q = pre ++ rest ∧ Packed frame ms pre ∧
    ∀ ms' pre', Packed frame ms' pre' → pre' <+: q → ms' <+: ms ∧ pre'.length ≤ pre.length

variable {frame : μ → List α → Prop}

theorem drain_packed (hl : Incremental look) (hframe : ∀ {m f} (t : List α), frame m f → look (f ++ t) = .take m f.length)
    {ms : List μ} {p : List α} (h : Packed frame ms p) (t : List α) :
    drain look (p ++ t) = ⟨ms ++ (drain look t).items, (drain look t).rest, (drain look t).error⟩ := by
  induction h with
  | nil => rfl
  | @cons m f ms p hm _ ih =>
    rw [List.append_assoc, drain_step hl, hframe _ hm]
    simp only [List.drop_left, ih, List.cons_append]

/-- Items whose encodings the decoder recognises, in front of anything. -/
theorem drain_encoded_append (hl : Incremental look) (enc : μ → List α) {ms : List μ}
    (h : ∀ m ∈ ms, ∀ t, look (enc m ++ t) = .take m (enc m).length) (t : List α) :
    drain look ((ms.map enc).flatten ++ t) = ⟨ms ++ (drain look t).items, (drain look t).rest, (drain look t).error⟩ := by
  have hpacked : Packed (fun m f => f = enc m ∧ ∀ t, look (enc m ++ t) = .take m (enc m).length) ms (ms.map enc).flatten := by
    induction ms with
    | nil => exact .nil
    | cons m ms ih => exact .cons ⟨rfl, h m (by simp)⟩ (ih fun m' hm' => h m' (by simp [hm']))
  exact drain_packed hl (by rintro m f t ⟨rfl, hf⟩; exact hf t) hpacked t

/-- **Round trip**: items whose encodings the decoder recognises come back, in order, and nothing is
left. -/
theorem drain_encoded (hl : Incremental look) (hnil : look [] = .wait) (enc : μ → List α) (ms : List μ)
    (h : ∀ m ∈ ms, ∀ t, look (enc m ++ t) = .take m (enc m).length) :
    drain look (ms.map enc).flatten = ⟨ms, [], none⟩ := by
  have hdrain := drain_encoded_append hl enc h []
  have hempty : drain look [] = ⟨[], [], none⟩ := by rw [drain_step hl, hnil]
  simpa [hempty] using hdrain

/-- What is drained was made of frames. -/
theorem drain_front (hl : Incremental look) (hg : Grammar look frame) (q : List α) :
    ∃ pre, q = pre ++ (drain look q).rest ∧ Packed frame (drain look q).items pre := by
  induction hn : q.length using Nat.strongRecOn generalizing q with
  | ind k ih =>
    subst hn
    rw [drain_step hl]
    cases hv : look q with
    | wait => exact ⟨[], rfl, .nil⟩
    | refuse e => exact ⟨[], rfl, .nil⟩
    | take m n =>
      obtain ⟨hpos, hle⟩ := hl.take_pos hv
      obtain ⟨pre, hq, hpacked⟩ := ih (q.drop n).length (by simp; omega) (q.drop n) rfl
      refine ⟨q.take n ++ pre, ?_, .cons (hg.sound hv) hpacked⟩
      rw [List.append_assoc, ← hq, List.take_append_drop]

/-- **What is delivered of an arbitrary stream**: the items of its longest front part made of frames. -/
theorem drain_longest (hl : Incremental look) (hg : Grammar look frame) (q : List α) :
    Longest frame q (drain look q).items (drain look q).rest := by
  obtain ⟨pre, hq, hpacked⟩ := drain_front hl hg q
  refine ⟨pre, hq, hpacked, ?_⟩
  rintro ms' pre' h' ⟨t, rfl⟩
  have hd := drain_packed hl hg.complete h' t
  obtain ⟨pre₂, ht, _⟩ := drain_front hl hg t
  refine ⟨⟨(drain look t).items, by rw [hd]⟩, ?_⟩
  -- both sides leave the same rest
  have hlen := congrArg List.length hq
  have hlen' := congrArg List.length ht
  simp only [hd, List.length_append] at hlen hlen'
  omega

/-! ## Reads into a buffer -/

section Reads
variable {σ R ν : Type}

/-- A loop that in each round does what the decoder says about what the state holds is `drain`. `result`
and `push` build the loop's result. -/
theorem loop_drain (hl : Incremental look) (loop : Nat → σ → Option R) (view : σ → List α → Prop)
    (result : σ → List μ → Option ε → R) (push : μ → R → R)
    (hpush : ∀ m s ms e, push m (result s ms e) = result s (m :: ms) e)
    (hwait : ∀ {fuel s q}, view s q → look q = .wait → loop (fuel + 1) s = some (result s [] none))
    (hrefuse : ∀ {fuel s q e}, view s q → look q = .refuse e → loop (fuel + 1) s = some (result s [] (some e)))
    (htake : ∀ fuel {s q m n}, view s q → look q = .take m n →
      ∃ s', view s' (q.drop n) ∧ loop (fuel + 1) s = (loop fuel s').map (push m)) :
    ∀ (fuel : Nat) {s : σ} {q : List α}, view s q → q.length < fuel →
      ∃ s', loop fuel s = some (result s' (drain look q).items (drain look q).error) ∧ view s' (drain look q).rest
  | 0, _, _, _, hf => by omega
  | fuel + 1, s, q, hv, hf => by
    rw [drain_step hl]
    cases hlook : look q with
    | wait => exact ⟨s, hwait hv hlook, hv⟩
    | refuse e => exact ⟨s, hrefuse hv hlook, hv⟩
    | take m n =>
      obtain ⟨hpos, hle⟩ := hl.take_pos hlook
      obtain ⟨s1, hv1, h1⟩ := htake fuel hv hlook
      obtain ⟨s2, h2, hv2⟩ := loop_drain hl loop view result push hpush hwait hrefuse htake fuel hv1 (by simp; omega)
      exact ⟨s2, by rw [h1, h2, Option.map_some, hpush], hv2⟩

/-- One read after another, with all that they did and all errors. -/
def reads (read : σ → List α → Option (σ × List ν × List ε)) : σ → List (List α) → Option (σ × List ν × List ε)
  | s, [] => some (s, [], [])
  | s, chunk :: chunks =>
    (read s chunk).bind fun r => (reads read r.1 chunks).map fun r' => (r'.1, r.2.1 ++ r'.2.1, r.2.2 ++ r'.2.2)

/-- A read appends what arrived to what the state holds, drains, and does for each item what `act` says. -/
def Drains (look : List α → Verdict μ ε) (act : μ → List ν) (view : σ → List α → Prop)
    (read : σ → List α → Option (σ × List ν × List ε)) : Prop :=
  ∀ {s : σ} {q : List α} (chunk : List α), view s q →
    ∃ s', read s chunk =
        some (s', (drain look (q ++ chunk)).items.flatMap act, (drain look (q ++ chunk)).error.toList) ∧
      view s' (drain look (q ++ chunk)).rest

variable {act : μ → List ν} {view : σ → List α → Prop} {read : σ → List α → Option (σ × List ν × List ε)}

/-- Reads are the feeding of the decoder; no error is reported unless the whole stream has one. -/
theorem reads_feed (hl : Incremental look) (hd : Drains look act view read) : ∀ (chunks : List (List α)) {s : σ} {q : List α},
    view s q → ∀ out, ∃ s' q' ms errs, reads read s chunks = some (s', ms.flatMap act, errs) ∧ view s' q' ∧
      (out ++ ms, q') = chunks.foldl (feed look) (out, q) ∧
      ((drain look (q ++ chunks.flatten)).error = none → errs = [])
  | [], s, q, h, out => ⟨s, q, [], [], rfl, h, by simp, fun _ => rfl⟩
  | chunk :: chunks, s, q, h, out => by
    obtain ⟨s1, h1, v1⟩ := hd chunk h
    obtain ⟨s2, q2, ms, errs, h2, v2, hfeed, herr⟩ :=
      reads_feed hl hd chunks v1 (out ++ (drain look (q ++ chunk)).items)
    refine ⟨s2, q2, (drain look (q ++ chunk)).items ++ ms, (drain look (q ++ chunk)).error.toList ++ errs,
      by simp [reads, h1, h2], v2, ?_, fun hnone => ?_⟩
    · rw [List.foldl_cons, feed, ← hfeed, List.append_assoc]
    · rw [List.flatten_cons, ← List.append_assoc] at hnone
      obtain ⟨_, _, hrest, hfirst⟩ := drain_append hl (q ++ chunk) chunks.flatten
      rw [hfirst hnone, herr (hrest ▸ hnone)]
      rfl

/-- **A whole stream**, however it is cut: every read returns, and together they do what is to be done
for the items that `drain` delivers of the stream and keep what it leaves. -/
theorem reads_stream (hl : Incremental look) (hnil : look [] = .wait) (hd : Drains look act view read) {s : σ}
    (hs : view s []) (chunks : List (List α)) :
    ∃ s' errs, reads read s chunks = some (s', (drain look chunks.flatten).items.flatMap act, errs) ∧
      view s' (drain look chunks.flatten).rest ∧ ((drain look chunks.flatten).error = none → errs = []) := by
  obtain ⟨s', q', ms, errs, hreads, hview, hfeed, herr⟩ := reads_feed hl hd chunks hs []
  have hempty : drain look [] = ⟨[], [], none⟩ := by rw [drain_step hl, hnil]
  have hcuts := feed_chunks hl chunks []
  rw [hempty, List.nil_append] at hcuts
  rw [List.nil_append, hcuts, Prod.mk.injEq] at hfeed
  obtain ⟨rfl, rfl⟩ := hfeed
  exact ⟨s', errs, hreads, hview, herr⟩

/-- The errors that are reported: nothing but the refusal that ends the stream, and that for sure. -/
theorem reads_error (hl : Incremental look) (hd : Drains look act view read) {e : ε} :
    ∀ (chunks : List (List α)) {s : σ} {q : List α}, view s q → (drain look (q ++ chunks.flatten)).error = some e →
      ∀ {s' out errs}, reads read s chunks = some (s', out, errs) → (∀ e' ∈ errs, e' = e) ∧ (chunks ≠ [] → e ∈ errs)
  | [], _, _, _, _, _, _, _, hreads => by
    cases hreads
    exact ⟨nofun, fun h => absurd rfl h⟩
  | chunk :: chunks, s, q, hs, he, s', out, errs, hreads => by
    obtain ⟨s1, h1, v1⟩ := hd chunk hs
    rw [List.flatten_cons, ← List.append_assoc] at he
    have hrest : (drain look ((drain look (q ++ chunk)).rest ++ chunks.flatten)).error = some e := by
      rw [← he, (drain_append hl (q ++ chunk) chunks.flatten).2.2.1]
    rw [reads, h1, Option.bind_some] at hreads
    obtain ⟨⟨s2, out2, errs2⟩, h2, hx⟩ := Option.map_eq_some_iff.1 hreads
    cases hx
    obtain ⟨hall, hmem⟩ := reads_error hl hd chunks v1 hrest h2
    constructor
    · intro e' he'
      rcases List.mem_append.1 he' with hfirst | hlater
      · have hsame := error_append hl (Option.mem_toList.1 hfirst) chunks.flatten
        exact Option.some.inj (hsame.symm.trans he)
      · exact hall e' hlater
    · intro _
      by_cases hlast : chunks = []
      · subst hlast
        rw [List.flatten_nil, List.append_nil] at he
        exact List.mem_append_left _ (Option.mem_toList.2 he)
      · exact List.mem_append_right _ (hmem hlast)

/-- Once the decoder will not take anything off the front, whatever arrives, nothing is delivered and
nothing is consumed any more. -/
theorem reads_stuck (hl : Incremental look) (hd : Drains look act view read) : ∀ (chunks : List (List α)) {s : σ} {q : List α},
    view s q → (∀ t m n, look (q ++ t) ≠ .take m n) →
      ∃ s' errs, reads read s chunks = some (s', [], errs) ∧ view s' (q ++ chunks.flatten)
  | [], s, q, h, _ => ⟨s, [], rfl, by simpa using h⟩
  | chunk :: chunks, s, q, h, hstuck => by
    have hdrain : (drain look (q ++ chunk)).items = [] ∧ (drain look (q ++ chunk)).rest = q ++ chunk := by
      rw [drain_step hl]
      cases hv : look (q ++ chunk) with
      | wait => exact ⟨rfl, rfl⟩
      | refuse e => exact ⟨rfl, rfl⟩
      | take m n => exact absurd hv (hstuck chunk m n)
    obtain ⟨s1, h1, v1⟩ := hd chunk h
    rw [hdrain.1] at h1
    rw [hdrain.2] at v1
    obtain ⟨s2, errs, h2, v2⟩ := reads_stuck hl hd chunks v1 fun t m n => by
      rw [List.append_assoc]
      exact hstuck (chunk ++ t) m n
    refine ⟨s2, (drain look (q ++ chunk)).error.toList ++ errs, by simp [reads, h1, h2], ?_⟩
    rwa [List.flatten_cons, ← List.append_assoc]

end Reads

end Framing
