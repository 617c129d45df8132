import Mathlib.Data.List.TakeWhile
import ChatReactor.Lib.Framing

/-!
# Decoders that stop at an item

A program that acts on the items it decodes (`op`) and leaves its loop at an item it does not know
(`op m = none`), with that item consumed. The next read goes on behind it. What such a program does may
depend on how the stream is cut: `cuts_agree_iff` says exactly when it does not.
-/

namespace Framing

variable {α μ ε ω σ R : Type} {look : List α → Verdict μ ε} {frame : μ → List α → Prop} {op : μ → Option ω}

/-- One call of the loop: the items it takes, the rest, and the refusal that ended it, if any. -/
inductive DrainTo (op : μ → Option ω) (look : List α → Verdict μ ε) : List α → List μ → List α → Option ε → Prop
  | wait {q : List α} : look q = .wait → DrainTo op look q [] q none
  | refuse {q : List α} {e : ε} : look q = .refuse e → DrainTo op look q [] q (some e)
  | stop {q : List α} {m : μ} {n : Nat} : look q = .take m n → op m = none → DrainTo op look q [m] (q.drop n) none
  | take {q rest : List α} {m : μ} {n : Nat} {ms : List μ} {e : Option ε} : look q = .take m n → (op m).isSome →
      DrainTo op look (q.drop n) ms rest e → DrainTo op look q (m :: ms) rest e

/-- Behind the first item that is not an operation there is none that is. -/
def Quiet (op : μ → Option ω) (ms : List μ) : Prop := ∀ m ∈ ms.dropWhile fun m => (op m).isSome, op m = none

instance [∀ m, Decidable (op m = none)] (ms : List μ) : Decidable (Quiet op ms) :=
  inferInstanceAs (Decidable (∀ m ∈ ms.dropWhile fun m => (op m).isSome, op m = none))

/-- A loop that in each round does what the decoder and `op` say is `DrainTo`. -/
theorem loop_drainTo (op : μ → Option ω) (hl : Incremental look) (loop : Nat → σ → Option R) (view : σ → List α → Prop)
    (result : σ → List μ → Option ε → R) (push : μ → R → R)
    (hpush : ∀ m s ms e, (op m).isSome → push m (result s ms e) = result s (m :: ms) e)
    (hwait : ∀ {fuel s q}, view s q → look q = .wait → loop (fuel + 1) s = some (result s [] none))
    (hrefuse : ∀ {fuel s q e}, view s q → look q = .refuse e → loop (fuel + 1) s = some (result s [] (some e)))
    (hstop : ∀ fuel {s q m n}, view s q → look q = .take m n → op m = none →
      ∃ s', view s' (q.drop n) ∧ loop (fuel + 1) s = some (result s' [m] none))
    (htake : ∀ fuel {s q m n}, view s q → look q = .take m n → (op m).isSome →
      ∃ s', view s' (q.drop n) ∧ loop (fuel + 1) s = (loop fuel s').map (push m)) :
    ∀ (fuel : Nat) {s : σ} {q : List α}, view s q → q.length < fuel →
      ∃ s' ms rest e, loop fuel s = some (result s' ms e) ∧ view s' rest ∧ DrainTo op look q ms rest e
  | 0, _, _, _, hf => by omega
  | fuel + 1, s, q, hv, hf => by
    cases hlook : look q with
    | wait => exact ⟨s, [], q, none, hwait hv hlook, hv, .wait hlook⟩
    | refuse e => exact ⟨s, [], q, some e, hrefuse hv hlook, hv, .refuse hlook⟩
    | take m n =>
      cases hop : op m with
      | none =>
        obtain ⟨s', hv', h'⟩ := hstop fuel hv hlook hop
        exact ⟨s', [m], q.drop n, none, h', hv', .stop hlook hop⟩
      | some o =>
        have hsome : (op m).isSome := by rw [hop]; rfl
        obtain ⟨hpos, hle⟩ := hl.take_pos hlook
        obtain ⟨s1, hv1, h1⟩ := htake fuel hv hlook hsome
        obtain ⟨s2, ms, rest, e, h2, hv2, hd⟩ :=
          loop_drainTo op hl loop view result push hpush hwait hrefuse hstop htake fuel hv1 (by simp; omega)
        exact ⟨s2, m :: ms, rest, e, by rw [h1, h2, Option.map_some, hpush m s2 ms e hsome], hv2, .take hlook hsome hd⟩

variable {q rest : List α} {ms : List μ} {e : Option ε}

theorem DrainTo.packed (hg : Grammar look frame) (h : DrainTo op look q ms rest e) :
    ∃ pre, q = pre ++ rest ∧ Packed frame ms pre := by
  induction h with
  | wait _ => exact ⟨[], rfl, .nil⟩
  | refuse _ => exact ⟨[], rfl, .nil⟩
  | @stop q m n hv _ => exact ⟨q.take n, by rw [List.take_append_drop], by simpa using Packed.cons (hg.sound hv) .nil⟩
  | @take q rest m n ms e hv _ _ ih =>
    obtain ⟨pre, hq, hpre⟩ := ih
    exact ⟨q.take n ++ pre, by rw [List.append_assoc, ← hq, List.take_append_drop], .cons (hg.sound hv) hpre⟩

/-- After a call nothing is left to take, unless it stopped. -/
theorem DrainTo.settled (hl : Incremental look) (h : DrainTo op look q ms rest e) :
    (drain look rest).items = [] ∨ ∃ m ∈ ms, op m = none := by
  induction h with
  | wait hv => exact .inl (by rw [drain_step hl, hv])
  | refuse hv => exact .inl (by rw [drain_step hl, hv])
  | @stop q m n _ hop => exact .inr ⟨m, by simp, hop⟩
  | take _ _ _ ih =>
    rcases ih with ih | ⟨m', hm', hop'⟩
    · exact .inl ih
    · exact .inr ⟨m', by simp [hm'], hop'⟩

/-- A call performs the operations before the first item that is none. -/
theorem DrainTo.performed (hl : Incremental look) (h : DrainTo op look q ms rest e) :
    ms.filterMap op = ((drain look q).items.takeWhile fun m => (op m).isSome).filterMap op := by
  induction h with
  | wait hv => rw [drain_step hl, hv]; rfl
  | refuse hv => rw [drain_step hl, hv]; rfl
  | stop hv hop => rw [drain_step hl, hv]; simp [hop]
  | @take q rest m n ms e hv hop _ ih =>
    obtain ⟨o, ho⟩ := Option.isSome_iff_exists.1 hop
    rw [drain_step hl, hv]
    simp [ho, ih]

theorem Packed.append {ms' : List μ} {p p' : List α} (h : Packed frame ms p) (h' : Packed frame ms' p') :
    Packed frame (ms ++ ms') (p ++ p') := by
  induction h with
  | nil => exact h'
  | cons hm _ ih => rw [List.cons_append, List.append_assoc]; exact .cons hm ih

/-! ## Whole streams -/

/-- A read appends what arrived to what the state holds, and makes one call. -/
def DrainsTo (op : μ → Option ω) (look : List α → Verdict μ ε) (view : σ → List α → Prop)
    (read : σ → List α → Option (σ × List ω × List ε)) : Prop :=
  ∀ {s : σ} {q : List α} (chunk : List α), view s q →
    ∃ s' ms rest e errs, read s chunk = some (s', ms.filterMap op, errs) ∧ view s' rest ∧
      DrainTo op look (q ++ chunk) ms rest e

section Streams
variable {view : σ → List α → Prop} {read : σ → List α → Option (σ × List ω × List ε)}

/-- What a run of reads has taken: frames off the front, all there were unless it stopped. -/
structure Taken (op : μ → Option ω) (look : List α → Verdict μ ε) (frame : μ → List α → Prop) (stream : List α)
    (out : List μ) (q : List α) : Prop where
  packed : ∃ pre, stream = pre ++ q ∧ Packed frame out pre
  settled : (drain look q).items = [] ∨ ∃ m ∈ out, op m = none

theorem Taken.nil (hl : Incremental look) (hnil : look [] = .wait) : Taken op look frame [] [] [] where
  packed := ⟨[], rfl, .nil⟩
  settled := .inl (by rw [drain_step hl, hnil])

variable {stream : List α}

theorem Taken.step (hl : Incremental look) (hg : Grammar look frame) {chunk : List α} {out : List μ}
    (h : Taken op look frame stream out q) (hd : DrainTo op look (q ++ chunk) ms rest e) :
    Taken op look frame (stream ++ chunk) (out ++ ms) rest where
  packed := by
    obtain ⟨pre, rfl, hpre⟩ := h.packed
    obtain ⟨pre', hq, hpre'⟩ := hd.packed hg
    exact ⟨pre ++ pre', by rw [List.append_assoc, hq, List.append_assoc], hpre.append hpre'⟩
  settled := by
    rcases hd.settled hl with hs | ⟨m, hm, hop⟩
    · exact .inl hs
    · exact .inr ⟨m, by simp [hm], hop⟩

theorem Taken.items (hl : Incremental look) (hg : Grammar look frame) {out : List μ}
    (h : Taken op look frame stream out q) : (drain look stream).items = out ++ (drain look q).items := by
  obtain ⟨pre, rfl, hpre⟩ := h.packed
  rw [drain_packed hl hg.complete hpre]

theorem reads_taken (hl : Incremental look) (hg : Grammar look frame) (hd : DrainsTo op look view read) :
    ∀ (chunks : List (List α)) {s : σ} {stream q : List α} {out : List μ}, view s q → Taken op look frame stream out q →
      ∃ s' ms q' errs, reads read s chunks = some (s', ms.filterMap op, errs) ∧ view s' q' ∧
        Taken op look frame (stream ++ chunks.flatten) (out ++ ms) q'
  | [], s, stream, q, out, hv, ht => ⟨s, [], q, [], rfl, hv, by simpa using ht⟩
  | chunk :: chunks, s, stream, q, out, hv, ht => by
    obtain ⟨s1, ms1, rest1, e1, errs1, h1, hv1, hd1⟩ := hd chunk hv
    obtain ⟨s2, ms2, q2, errs2, h2, hv2, ht2⟩ := reads_taken hl hg hd chunks hv1 (ht.step hl hg hd1)
    refine ⟨s2, ms1 ++ ms2, q2, errs1 ++ errs2, by simp [reads, h1, h2], hv2, ?_⟩
    simpa [List.append_assoc] using ht2

/-- A frame that is taken after one more symbol ends with that symbol. -/
theorem take_concat (hl : Incremental look) (hg : Grammar look frame) {x : α} {m : μ} {n : Nat}
    (hq : (drain look q).items = []) (h : look (q ++ [x]) = .take m n) : n = q.length + 1 := by
  obtain ⟨hpos, hle⟩ := hl.take_pos h
  rw [List.length_append, List.length_singleton] at hle
  by_contra hne
  have hn : n ≤ q.length := by omega
  have hframe := hg.sound h
  rw [List.take_append_of_le_length hn] at hframe
  have htake := hg.complete (q.drop n) hframe
  rw [List.take_append_drop] at htake
  rw [drain_step hl, htake] at hq
  cases hq

/-- Read symbol by symbol, the program takes everything. -/
theorem reads_each (hl : Incremental look) (hg : Grammar look frame) (hnil : look [] = .wait)
    (hd : DrainsTo op look view read) : ∀ (xs : List α) {s : σ} {stream q : List α} {out : List μ}, view s q →
      Taken op look frame stream out q → (drain look q).items = [] →
      ∃ s' ms q' errs, reads read s (xs.map fun x => [x]) = some (s', ms.filterMap op, errs) ∧
        Taken op look frame (stream ++ xs) (out ++ ms) q' ∧ (drain look q').items = []
  | [], s, stream, q, out, hv, ht, hq => ⟨s, [], q, [], rfl, by simpa using ht, hq⟩
  | x :: xs, s, stream, q, out, hv, ht, hq => by
    obtain ⟨s1, ms1, rest1, e1, errs1, h1, hv1, hd1⟩ := hd [x] hv
    have hempty : (drain look []).items = [] := by rw [drain_step hl, hnil]
    have hrest : (drain look rest1).items = [] := by
      cases hd1 with
      | wait hv' => rw [drain_step hl, hv']
      | refuse hv' => rw [drain_step hl, hv']
      | stop hv' _ =>
        rw [take_concat hl hg hq hv', List.drop_of_length_le (by simp)]
        exact hempty
      | take hv' _ hd' =>
        rw [take_concat hl hg hq hv', List.drop_of_length_le (by simp)] at hd'
        cases hd' with
        | wait _ => exact hempty
        | refuse h' => rw [hnil] at h'; cases h'
        | stop h' _ => rw [hnil] at h'; cases h'
        | take h' _ _ => rw [hnil] at h'; cases h'
    obtain ⟨s2, ms2, q2, errs2, h2, ht2, hq2⟩ := reads_each hl hg hnil hd xs hv1 (ht.step hl hg hd1) hrest
    refine ⟨s2, ms1 ++ ms2, q2, errs1 ++ errs2, by simp [reads, h1, h2], ?_, hq2⟩
    simpa [List.append_assoc] using ht2

/-- Where the stream is quiet, a run performs all its operations. -/
theorem Taken.performed (hl : Incremental look) (hg : Grammar look frame) {out : List μ}
    (h : Taken op look frame stream out q) (hquiet : Quiet op (drain look stream).items) :
    out.filterMap op = (drain look stream).items.filterMap op := by
  have hitems := h.items hl hg
  rw [hitems] at hquiet ⊢
  rw [List.filterMap_append]
  rcases h.settled with hnone | ⟨m, hm, hop⟩
  · rw [hnone, List.filterMap_nil, List.append_nil]
  · -- the run stopped somewhere, so what it has not taken is behind that
    have hbehind : ∀ x ∈ (drain look q).items, op x = none := by
      intro x hx
      refine hquiet x ?_
      have hdrop : ¬ ∀ m' ∈ out, (op m').isSome := fun hall => by simpa [hop] using hall m hm
      rw [List.dropWhile_append]
      split
      · rename_i hempty
        exact absurd (List.dropWhile_eq_nil_iff.1 (List.isEmpty_iff.1 hempty)) hdrop
      · simp [hx]
    rw [List.filterMap_eq_nil_iff.2 hbehind, List.append_nil]

/-- Where stopping at the first item without an operation loses no operation, there is none behind it. -/
theorem quiet_of_performed {l : List μ} (h : (l.takeWhile fun m => (op m).isSome).filterMap op = l.filterMap op) : Quiet op l := by
  have hsplit := congrArg (List.filterMap op) (List.takeWhile_append_dropWhile (p := fun m => (op m).isSome) (l := l))
  rw [List.filterMap_append, h] at hsplit
  have hrest : (l.dropWhile fun m => (op m).isSome).filterMap op = [] :=
    List.append_cancel_left (by rw [hsplit, List.append_nil])
  exact List.filterMap_eq_nil_iff.1 hrest

/-- **Exactly when the cuts do not matter**: what the program does with a stream is the same for all ways
of cutting it into reads that bring something if and only if the stream is quiet. -/
theorem cuts_agree_iff (hl : Incremental look) (hg : Grammar look frame) (hnil : look [] = .wait)
    (hd : DrainsTo op look view read) {s : σ} (hs : view s []) (stream : List α) :
    (∀ c₁ c₂ : List (List α), c₁.flatten = stream → c₂.flatten = stream → (∀ c ∈ c₁ ++ c₂, c ≠ []) →
      (reads read s c₁).map (fun r => r.2.1) = (reads read s c₂).map fun r => r.2.1) ↔
      Quiet op (drain look stream).items := by
  have hstart : Taken op look frame [] [] [] := Taken.nil hl hnil
  constructor
  · intro hall
    -- one read against one read for each symbol
    obtain ⟨s1, ms1, q1, errs1, h1, ht1, hq1⟩ := reads_each hl hg hnil hd stream hs hstart (by rw [drain_step hl, hnil])
    rw [List.nil_append, List.nil_append] at ht1
    have hall1 : ms1 = (drain look stream).items := by rw [ht1.items hl hg, hq1, List.append_nil]
    by_cases hstream : stream = []
    · rw [hstream, drain_step hl, hnil]
      exact fun m hm => by simp at hm
    obtain ⟨s2, ms2, rest2, e2, errs2, h2, hv2, hd2⟩ := hd stream hs
    have hsame := hall [stream] (stream.map fun x => [x]) (by simp)
      (by rw [← List.flatMap_def, List.flatMap_singleton']) (by
        intro c hc
        rcases List.mem_append.1 hc with hc | hc
        · rwa [List.mem_singleton.1 hc]
        · obtain ⟨x, -, rfl⟩ := List.mem_map.1 hc
          simp)
    have hone : reads read s [stream] = some (s2, ms2.filterMap op, errs2) := by simp [reads, h2]
    rw [List.nil_append] at hd2
    rw [hone, h1, Option.map_some, Option.map_some, Option.some.injEq, hd2.performed hl, hall1] at hsame
    exact quiet_of_performed hsame
  · intro hquiet
    -- every cut performs all the operations of the stream
    have hcut : ∀ c : List (List α), c.flatten = stream →
        (reads read s c).map (fun r => r.2.1) = some ((drain look stream).items.filterMap op) := by
      rintro c rfl
      obtain ⟨s', ms, q', errs, h', -, ht⟩ := reads_taken hl hg hd c hs hstart
      rw [List.nil_append, List.nil_append] at ht
      rw [h', Option.map_some, ht.performed hl hg hquiet]
    intro c₁ c₂ h₁ h₂ _
    rw [hcut c₁ h₁, hcut c₂ h₂]

end Streams

end Framing
