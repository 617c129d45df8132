import Mathlib.Data.List.Induction
import ChatReactor.Lib.Lines

/-!
# Loops over the lines of a buffer

A loop that looks at what has arrived only if there are at least `least` symbols of it. It then takes the first line
and acts on it, or gives up on the input if there is no complete line in more than `most` symbols; it ends when a line
says so. `run` is the loop on what a buffer holds, and `run_short`, `run_line` and `run_tail` are all that is needed
of it: a text is lines with their terminators and a tail (`lines_induction`).

What such a loop does may depend on the cuts, since a line that is complete may have been too long before: `Exposed`.
Where no line is, the cuts do not matter (`reads_obs`), and where one is, the loop can be made to give up on it
(`Ends.cut`).
-/

namespace Lines

variable {α σ β : Type} {a b : α}

/-- Lines with their terminators, and what is behind the last one. -/
def text (a b : α) (lines : List (List α)) (tail : List α) : List α := (lines.map (· ++ [a, b])).flatten ++ tail

@[simp] theorem text_nil (tail : List α) : text a b [] tail = tail := rfl

@[simp] theorem text_cons (l : List α) (lines : List (List α)) (tail : List α) :
    text a b (l :: lines) tail = l ++ a :: b :: text a b lines tail := by
  simp [text]

/-- How many lines there are that begin with at least `least` symbols to go. -/
def taken (a b : α) (least : Nat) : List (List α) → List α → Nat
  | [], _ => 0
  | l :: lines, tail => if (text a b (l :: lines) tail).length < least then 0 else taken a b least lines tail + 1

variable {lines : List (List α)}

theorem length_last_le (h : lines ≠ []) (tail : List α) :
    (lines.getLast h).length + 2 + tail.length ≤ (text a b lines tail).length := by
  induction lines with
  | nil => exact absurd rfl h
  | cons l lines ih =>
    rw [text_cons, List.length_append, List.length_cons, List.length_cons]
    cases lines with
    | nil =>
      rw [List.getLast_singleton, text_nil]
      omega
    | cons l' lines =>
      have hle := ih (List.cons_ne_nil l' lines)
      rw [List.getLast_cons_cons]
      omega

variable [DecidableEq α]

/-- A text is a tail, or a line in front of a text. -/
theorem lines_induction {P : List α → Prop} (tail : ∀ q, Unbroken a b q → P q)
    (line : ∀ l t, Unbroken a b l → P t → P (l ++ a :: b :: t)) (q : List α) : P q := by
  induction hn : q.length using Nat.strongRecOn generalizing q with
  | ind k ih =>
    subst hn
    cases hfind : findPair a b q with
    | none => exact tail q (findPair_none.1 hfind)
    | some i =>
      obtain ⟨hl, hlen, heq⟩ := findPair_some hfind
      rw [heq]
      refine line _ _ hl (ih _ ?_ _ rfl)
      rw [List.length_drop]
      omega

/-- The loop: its terminator, its thresholds and what it does with a line and with a line that is too long. -/
structure LineLoop (α σ : Type) where
  a : α
  b : α
  ne : a ≠ b
  least : Nat
  most : Nat
  least_pos : 0 < least
  line : σ → List α → σ × Bool
  tooLong : σ → σ

namespace LineLoop
variable (L : LineLoop α σ)

/-- One round, and whether there is another. -/
def round (s : σ) (q : List α) : (σ × List α) × Bool :=
  if q.length < L.least then ((s, q), false)
  else match findPair L.a L.b q with
    | some i => (((L.line s (q.take i)).1, q.drop (i + 2)), (L.line s (q.take i)).2)
    | none => (if L.most < q.length then (L.tooLong s, q) else (s, q), false)

def runFuel : Nat → σ → List α → σ × List α
  | 0, s, q => (s, q)
  | fuel + 1, s, q => if (L.round s q).2 then runFuel fuel (L.round s q).1.1 (L.round s q).1.2 else (L.round s q).1

/-- A round that has another one behind it takes at least the terminator. -/
def run (s : σ) (q : List α) : σ × List α := L.runFuel (q.length + 1) s q

variable {s : σ} {q : List α}

theorem round_length (h : (L.round s q).2 = true) : (L.round s q).1.2.length < q.length := by
  unfold round at h ⊢
  by_cases hlen : q.length < L.least
  · simp [hlen] at h
  rw [if_neg hlen] at h ⊢
  cases hfind : findPair L.a L.b q with
  | none => simp [hfind] at h
  | some i =>
    obtain ⟨-, hle, -⟩ := findPair_some hfind
    simp only [List.length_drop]
    omega

theorem runFuel_eq (f g : Nat) (s : σ) (q : List α) (hf : q.length < f) (hg : q.length < g) :
    L.runFuel f s q = L.runFuel g s q := by
  induction f generalizing g s q with
  | zero => omega
  | succ f ih =>
    cases g with
    | zero => omega
    | succ g =>
      unfold runFuel
      split_ifs with hround
      · have hlt := L.round_length hround
        exact ih g _ _ (by omega) (by omega)
      · rfl

theorem run_round (s : σ) (q : List α) :
    L.run s q = if (L.round s q).2 then L.run (L.round s q).1.1 (L.round s q).1.2 else (L.round s q).1 := by
  rw [run, runFuel]
  split_ifs with hround
  · have hlt := L.round_length hround
    exact L.runFuel_eq _ _ _ _ (by omega) (by omega)
  · rfl

theorem round_short (h : q.length < L.least) : L.round s q = ((s, q), false) := if_pos h

theorem round_found {i : Nat} (hi : findPair L.a L.b q = some i) (h : L.least ≤ q.length) :
    L.round s q = (((L.line s (q.take i)).1, q.drop (i + 2)), (L.line s (q.take i)).2) := by
  rw [round, if_neg (Nat.not_lt.2 h), hi]

theorem round_line {l t : List α} (hl : Unbroken L.a L.b l) (h : L.least ≤ (l ++ L.a :: L.b :: t).length) :
    L.round s (l ++ L.a :: L.b :: t) = (((L.line s l).1, t), (L.line s l).2) := by
  have hdrop : (l ++ L.a :: L.b :: t).drop (l.length + 2) = t := by
    rw [← List.drop_drop, List.drop_left]
    rfl
  rw [L.round_found (findPair_line L.ne hl t) h, List.take_left, hdrop]

theorem round_tail (hq : Unbroken L.a L.b q) (h : L.least ≤ q.length) :
    L.round s q = ((if L.most < q.length then L.tooLong s else s, q), false) := by
  rw [round, if_neg (Nat.not_lt.2 h), findPair_none.2 hq]
  split_ifs <;> rfl

theorem run_short (h : q.length < L.least) : L.run s q = (s, q) := by
  rw [run_round, L.round_short h]
  rfl

theorem run_line {l t : List α} (hl : Unbroken L.a L.b l) (h : L.least ≤ (l ++ L.a :: L.b :: t).length) :
    L.run s (l ++ L.a :: L.b :: t) =
      if (L.line s l).2 then L.run (L.line s l).1 t else ((L.line s l).1, t) := by
  rw [run_round, L.round_line hl h]

theorem run_tail (hq : Unbroken L.a L.b q) (h : L.least ≤ q.length) :
    L.run s q = (if L.most < q.length then L.tooLong s else s, q) := by
  rw [run_round, L.round_tail hq h]
  rfl

/-- What a line and the end of the loop keep holds after a round, and after a run. -/
theorem round_invariant {P : σ → Prop} (hline : ∀ s l, P s → P (L.line s l).1) (htooLong : ∀ s, P s → P (L.tooLong s))
    (hs : P s) (q : List α) : P (L.round s q).1.1 := by
  unfold round
  split
  · exact hs
  split
  · exact hline s _ hs
  · split
    · exact htooLong s hs
    · exact hs

theorem run_invariant {P : σ → Prop} (hline : ∀ s l, P s → P (L.line s l).1) (htooLong : ∀ s, P s → P (L.tooLong s))
    (hs : P s) (q : List α) : P (L.run s q).1 := by
  induction hn : q.length using Nat.strongRecOn generalizing s q with
  | ind k ih =>
    subst hn
    have hround := L.round_invariant hline htooLong hs q
    rw [run_round]
    split_ifs with hon
    · exact ih _ (L.round_length hon) hround _ rfl
    · exact hround

/-! ## Cuts -/

/-- A read: what has arrived is appended to what was left, and the loop runs. -/
def reads (s : σ) (q : List α) (chunks : List (List α)) : σ × List α :=
  chunks.foldl (fun x chunk => L.run x.1 (x.2 ++ chunk)) (s, q)

theorem reads_concat (s : σ) (q : List α) (chunks : List (List α)) (chunk : List α) :
    L.reads s q (chunks ++ [chunk]) = L.run (L.reads s q chunks).1 ((L.reads s q chunks).2 ++ chunk) := by
  simp [reads]

/-- The loop comes to a complete line that the buffer can have held more than `most` symbols of before. -/
inductive Exposed : σ → List α → Prop
  | here {s : σ} {l t : List α} : Unbroken L.a L.b l → L.least ≤ (l ++ L.a :: L.b :: t).length → L.most ≤ l.length →
      Exposed s (l ++ L.a :: L.b :: t)
  | later {s : σ} {l t : List α} : Unbroken L.a L.b l → L.least ≤ (l ++ L.a :: L.b :: t).length →
      (L.line s l).2 = true → Exposed (L.line s l).1 t → Exposed s (l ++ L.a :: L.b :: t)

variable {L}

omit [DecidableEq α] in
theorem Exposed.append {p : List α} (h : L.Exposed s p) (t : List α) : L.Exposed s (p ++ t) := by
  induction h with
  | here hl hlen hlong =>
    rw [List.append_assoc, List.cons_append, List.cons_append]
    exact .here hl (by simp only [List.length_append, List.length_cons] at hlen ⊢; omega) hlong
  | later hl hlen hon _ ih =>
    rw [List.append_assoc, List.cons_append, List.cons_append]
    exact .later hl (by simp only [List.length_append, List.length_cons] at hlen ⊢; omega) hon ih

/-- The states in which the loop does nothing any more that `obs` shows: those in which it has ended. -/
structure Ends (L : LineLoop α σ) (dead : σ → Prop) (obs : σ → β) : Prop where
  line : ∀ {s l}, (L.line s l).2 = false → dead (L.line s l).1
  tooLong : ∀ s, dead (L.tooLong s)
  alive : ∀ {s l}, (L.line s l).2 = true → dead (L.line s l).1 → dead s
  line_obs : ∀ {s} l, dead s → dead (L.line s l).1 ∧ obs (L.line s l).1 = obs s
  tooLong_obs : ∀ {s}, dead s → obs (L.tooLong s) = obs s

variable {dead : σ → Prop} {obs : σ → β}

/-- From a state in which the loop has ended it does nothing any more. -/
theorem Ends.run (h : L.Ends dead obs) (hs : dead s) (q : List α) : dead (L.run s q).1 ∧ obs (L.run s q).1 = obs s := by
  refine L.run_invariant (P := fun s' => dead s' ∧ obs s' = obs s) ?_ ?_ ⟨hs, rfl⟩ q
  · rintro s' l ⟨hdead, hobs⟩
    obtain ⟨hdead', hobs'⟩ := h.line_obs l hdead
    exact ⟨hdead', hobs'.trans hobs⟩
  · rintro s' ⟨hdead, hobs⟩
    exact ⟨h.tooLong s', (h.tooLong_obs hdead).trans hobs⟩

/-- A run that has not ended goes on where it was when more arrives. -/
theorem Ends.run_append (h : L.Ends dead obs) (s : σ) (p t : List α) :
    dead (L.run s p).1 ∨ L.run s (p ++ t) = L.run (L.run s p).1 ((L.run s p).2 ++ t) := by
  induction p using lines_induction (a := L.a) (b := L.b) generalizing s with
  | tail p hp =>
    by_cases hlen : p.length < L.least
    · rw [L.run_short hlen]
      exact .inr rfl
    · rw [L.run_tail hp (Nat.not_lt.1 hlen)]
      split_ifs
      · exact .inl (h.tooLong s)
      · exact .inr rfl
  | line l p hl ih =>
    by_cases hlen : (l ++ L.a :: L.b :: p).length < L.least
    · rw [L.run_short hlen]
      exact .inr rfl
    · have hlen' : L.least ≤ (l ++ L.a :: L.b :: (p ++ t)).length := by
        simp only [List.length_append, List.length_cons] at hlen ⊢
        omega
      rw [List.append_assoc, List.cons_append, List.cons_append, L.run_line hl (Nat.not_lt.1 hlen), L.run_line hl hlen']
      cases hon : (L.line s l).2 with
      | true => exact ih _
      | false => exact .inl (h.line hon)

/-- A run that has ended would have ended in the same state with more input, unless a line is exposed. -/
theorem Ends.run_append_dead (h : L.Ends dead obs) {p t : List α} (hexp : ¬ L.Exposed s (p ++ t))
    (hdead : dead (L.run s p).1) : dead s ∨ (L.run s (p ++ t)).1 = (L.run s p).1 := by
  induction p using lines_induction (a := L.a) (b := L.b) generalizing s with
  | tail p hp =>
    by_cases hlen : p.length < L.least
    · rw [L.run_short hlen] at hdead
      exact .inl hdead
    have hlen' : L.least ≤ (p ++ t).length := by
      rw [List.length_append]
      omega
    rw [L.run_tail hp (Nat.not_lt.1 hlen)] at hdead ⊢
    split_ifs at hdead ⊢ with hlong
    · right
      cases hfind : findPair L.a L.b (p ++ t) with
      | none =>
        rw [L.run_tail (findPair_none.1 hfind) hlen', if_pos (by rw [List.length_append]; omega)]
      | some i =>
        obtain ⟨hl, hle, heq⟩ := findPair_some hfind
        have hi := lt_of_findPair_append hp hfind
        refine absurd ?_ hexp
        rw [heq]
        refine .here hl (heq ▸ hlen') ?_
        rw [List.length_take_of_le (by omega)]
        omega
    · exact .inl hdead
  | line l p hl ih =>
    by_cases hlen : (l ++ L.a :: L.b :: p).length < L.least
    · rw [L.run_short hlen] at hdead
      exact .inl hdead
    have hlen' : L.least ≤ (l ++ L.a :: L.b :: (p ++ t)).length := by
      simp only [List.length_append, List.length_cons] at hlen ⊢
      omega
    rw [List.append_assoc, List.cons_append, List.cons_append] at hexp ⊢
    rw [L.run_line hl (Nat.not_lt.1 hlen)] at hdead ⊢
    rw [L.run_line hl hlen']
    cases hon : (L.line s l).2 with
    | true =>
      rw [hon] at hdead
      rcases ih (fun hexp' => hexp (.later hl hlen' hon hexp')) hdead with hdead' | heq
      · exact .inl (h.alive hon hdead')
      · exact .inr heq
    | false => exact .inr rfl

/-- **Where no line is exposed the cuts do not matter.** -/
theorem Ends.reads_obs (h : L.Ends dead obs) (hs : ¬ dead s) {chunks : List (List α)}
    (hexp : ¬ L.Exposed s chunks.flatten) : obs (L.reads s [] chunks).1 = obs (L.run s chunks.flatten).1 := by
  -- as long as the loop has not ended, the reads are one run; behind that both have ended alike
  suffices hinv : L.reads s [] chunks = L.run s chunks.flatten ∨ (dead (L.reads s [] chunks).1 ∧
      dead (L.run s chunks.flatten).1 ∧ obs (L.reads s [] chunks).1 = obs (L.run s chunks.flatten).1) by
    rcases hinv with heq | ⟨-, -, hobs⟩
    · rw [heq]
    · exact hobs
  induction chunks using List.reverseRecOn with
  | nil => exact .inl (L.run_short (q := []) L.least_pos).symm
  | append_singleton chunks chunk ih =>
    have hflat : (chunks ++ [chunk]).flatten = chunks.flatten ++ chunk := by simp
    have hreads : L.reads s [] (chunks ++ [chunk]) =
        L.run (L.reads s [] chunks).1 ((L.reads s [] chunks).2 ++ chunk) := by simp [reads]
    rw [hflat] at hexp
    rw [hflat, hreads]
    have hlater : dead (L.run s chunks.flatten).1 →
        (L.run s (chunks.flatten ++ chunk)).1 = (L.run s chunks.flatten).1 :=
      fun hdead => (h.run_append_dead hexp hdead).resolve_left hs
    rcases ih (fun hexp' => hexp (hexp'.append chunk)) with heq | ⟨hdead, hdead', hobs⟩
    · rw [heq]
      rcases h.run_append s chunks.flatten chunk with hdead | happ
      · obtain ⟨hdead', hobs⟩ := h.run hdead ((L.run s chunks.flatten).2 ++ chunk)
        rw [hlater hdead]
        exact .inr ⟨hdead', hdead, hobs⟩
      · exact .inl happ.symm
    · obtain ⟨hnew, hobs'⟩ := h.run hdead ((L.reads s [] chunks).2 ++ chunk)
      rw [hlater hdead']
      exact .inr ⟨hnew, hdead', hobs'.trans hobs⟩

/-- The reads are one run until the loop ends: it has not ended, or it has, with the first reads that a run ends on. -/
theorem Ends.reads_cases (h : L.Ends dead obs) (hs : ¬ dead s) (chunks : List (List α)) :
    (¬ dead (L.reads s [] chunks).1 ∧ L.reads s [] chunks = L.run s chunks.flatten ∧
        ∀ p, p <+: chunks → ¬ dead (L.run s p.flatten).1) ∨
      (dead (L.reads s [] chunks).1 ∧ ∃ p, p <+: chunks ∧ dead (L.run s p.flatten).1 ∧
        (∀ p', p' <+: p → p' ≠ p → ¬ dead (L.run s p'.flatten).1) ∧
        obs (L.reads s [] chunks).1 = obs (L.run s p.flatten).1) := by
  induction chunks using List.reverseRecOn with
  | nil =>
    refine .inl ⟨hs, (L.run_short (q := []) L.least_pos).symm, fun p hp => ?_⟩
    rw [List.prefix_nil.1 hp, List.flatten_nil, L.run_short (q := []) L.least_pos]
    exact hs
  | append_singleton chunks chunk ih =>
    have hflat : (chunks ++ [chunk]).flatten = chunks.flatten ++ chunk := by simp
    rw [L.reads_concat]
    rcases ih with ⟨halive, heq, hall⟩ | ⟨hdead, p, hp, hrun, hfirst, hobs⟩
    · have happ := (h.run_append s chunks.flatten chunk).resolve_left (hall _ List.prefix_rfl)
      rw [heq, ← happ, ← hflat]
      by_cases hdead : dead (L.run s (chunks ++ [chunk]).flatten).1
      · refine .inr ⟨hdead, _, List.prefix_rfl, hdead, fun p' hp' hne => ?_, rfl⟩
        exact hall p' ((List.prefix_concat_iff.1 hp').resolve_left hne)
      · refine .inl ⟨hdead, rfl, fun p hp => ?_⟩
        rcases List.prefix_concat_iff.1 hp with rfl | hp
        · exact hdead
        · exact hall p hp
    · obtain ⟨hdead', hobs'⟩ := h.run hdead ((L.reads s [] chunks).2 ++ chunk)
      exact .inr ⟨hdead', p, hp.trans (List.prefix_append _ _), hrun, hfirst, hobs'.trans hobs⟩

/-- **Where a line is exposed a read can end before it is complete**, and then the loop gives up on it. -/
theorem Ends.cut (h : L.Ends dead obs) (hmost : L.least ≤ L.most + 1) (hs : ¬ dead s) (hexp : L.Exposed s q) :
    ∃ p r s' l t, q = p ++ r ∧ r ≠ [] ∧ L.most < p.length ∧ (L.run s p).1 = L.tooLong s' ∧ ¬ dead s' ∧
      L.most ≤ l.length ∧ L.run s q = if (L.line s' l).2 then L.run (L.line s' l).1 t else ((L.line s' l).1, t) := by
  induction hexp with
  | @here s l t hl hlen hlong =>
    have hp : L.most < (l ++ [L.a]).length := by
      rw [List.length_append, List.length_singleton]
      omega
    refine ⟨l ++ [L.a], L.b :: t, s, l, t, by simp, by simp, hp, ?_, hs, hlong, L.run_line hl hlen⟩
    rw [L.run_tail (hl.snoc L.ne) (by omega), if_pos hp]
  | @later s l t hl hlen hon _ ih =>
    obtain ⟨p, r, s', l', t', rfl, hr, hp, hrun, hs', hlong, hq⟩ := ih fun hdead => hs (h.alive hon hdead)
    have hp' : L.most < (l ++ L.a :: L.b :: p).length := by
      simp only [List.length_append, List.length_cons]
      omega
    refine ⟨l ++ L.a :: L.b :: p, r, s', l', t', by simp, hr, hp', ?_, hs', hlong, ?_⟩
    · rw [L.run_line hl (by omega), if_pos hon, hrun]
    · rw [L.run_line hl hlen, if_pos hon, hq]

/-! ## Loops that no line ends -/

section
variable (hon : ∀ s l, (L.line s l).2 = true)
include hon

/-- **What is left holds no complete line** exactly if the last one, with what is behind it, reaches the threshold. -/
theorem run_drains {tail : List α} (hlines : ∀ l ∈ lines, Unbroken L.a L.b l) (htail : Unbroken L.a L.b tail) (s : σ) :
    Unbroken L.a L.b (L.run s (text L.a L.b lines tail)).2 ↔
      ∀ l, lines.getLast? = some l → L.least ≤ l.length + 2 + tail.length := by
  induction lines generalizing s with
  | nil =>
    have hrest : (L.run s tail).2 = tail := by
      by_cases hlen : tail.length < L.least
      · rw [L.run_short hlen]
      · rw [L.run_tail htail (Nat.not_lt.1 hlen)]
    simpa [hrest] using htail
  | cons l lines ih =>
    have hl := hlines l (by simp)
    rw [text_cons]
    by_cases hlen : (l ++ L.a :: L.b :: text L.a L.b lines tail).length < L.least
    · -- the line is left, and the last one is no longer than all that is left
      rw [L.run_short hlen]
      constructor
      · intro hunbroken
        exact absurd ⟨l, text L.a L.b lines tail, by simp⟩ hunbroken
      · intro hlast
        have hle := hlast _ (List.getLast?_eq_some_getLast (List.cons_ne_nil l lines))
        have hmem := length_last_le (a := L.a) (b := L.b) (List.cons_ne_nil l lines) tail
        rw [text_cons] at hmem
        omega
    · rw [L.run_line hl (Nat.not_lt.1 hlen), if_pos (hon s l), ih fun l' hl' => hlines l' (by simp [hl'])]
      cases lines with
      | nil =>
        simp only [text_nil, List.length_append, List.length_cons] at hlen
        simp only [List.getLast?_nil, List.getLast?_singleton, Option.some.injEq, forall_eq', reduceCtorEq,
          false_imp_iff, implies_true, true_iff]
        omega
      | cons l' lines => rw [List.getLast?_cons_cons]

/-- Where only giving up ends the loop, it has ended only if no complete line is left. -/
theorem run_gaveUp (dead : σ → Prop) (hdead : ∀ s l, dead (L.line s l).1 → dead s) (h : dead (L.run s q).1) :
    dead s ∨ Unbroken L.a L.b (L.run s q).2 := by
  induction q using lines_induction (a := L.a) (b := L.b) generalizing s with
  | tail q hq =>
    by_cases hlen : q.length < L.least
    · rw [L.run_short hlen]
      exact .inr hq
    · rw [L.run_tail hq (Nat.not_lt.1 hlen)]
      exact .inr hq
  | line l t hl ih =>
    by_cases hlen : (l ++ L.a :: L.b :: t).length < L.least
    · rw [L.run_short hlen] at h
      exact .inl h
    · rw [L.run_line hl (Nat.not_lt.1 hlen), if_pos (hon s l)] at h ⊢
      exact (ih h).imp_left (hdead s l)

/-- A counter of the lines that were taken. -/
theorem run_count {count : σ → Nat} (hline : ∀ s l, count (L.line s l).1 = count s + 1)
    (htooLong : ∀ s, count (L.tooLong s) = count s) {tail : List α} (hlines : ∀ l ∈ lines, Unbroken L.a L.b l)
    (htail : Unbroken L.a L.b tail) (s : σ) :
    count (L.run s (text L.a L.b lines tail)).1 = count s + taken L.a L.b L.least lines tail := by
  induction lines generalizing s with
  | nil =>
    rw [text_nil, taken, Nat.add_zero]
    by_cases hlen : tail.length < L.least
    · rw [L.run_short hlen]
    · rw [L.run_tail htail (Nat.not_lt.1 hlen)]
      split_ifs
      · exact htooLong s
      · rfl
  | cons l lines ih =>
    rw [text_cons, taken, text_cons]
    by_cases hlen : (l ++ L.a :: L.b :: text L.a L.b lines tail).length < L.least
    · rw [L.run_short hlen, if_pos hlen, Nat.add_zero]
    · rw [L.run_line (hlines l (by simp)) (Nat.not_lt.1 hlen), if_pos (hon s l), if_neg hlen,
        ih fun l' hl' => hlines l' (by simp [hl']), hline]
      omega

end

end LineLoop
end Lines
