import ChatReactor.Lib.Runs

/-!
# Infinite runs, and what happens in them sooner or later

A `Trace` is a run that never ends. `Trace.always_from` is the rule for invariants; `Trace.reaches` is the rule
for progress: a rank that no step raises, that `helpful` steps lower, and helpful steps as often as needed.
-/

variable {S E : Type} {step : S → E → Option S} {ok : S → E → Prop}

structure Trace (step : S → E → Option S) (ok : S → E → Prop) where
  state : Nat → S
  event : Nat → E
  legal : ∀ n, ok (state n) (event n)
  next : ∀ n, step (state n) (event n) = some (state (n + 1))

namespace Trace
variable (t : Trace step ok)

/-- What every step keeps holds from then on. -/
theorem always_from (I : S → Prop) (hstep : ∀ {s e s'}, I s → ok s e → step s e = some s' → I s') {n m : Nat}
    (hn : I (t.state n)) (hle : n ≤ m) : I (t.state m) := by
  induction hle with
  | refl => exact hn
  | step _ ih => exact hstep ih (t.legal _) (t.next _)

/-- **Progress.** Until the goal is reached no step raises the rank, helpful steps lower it, and one
more helpful step comes sooner or later. -/
theorem reaches (goal : S → Prop) (helpful : S → E → Prop) (rank : S → Nat) (I : S → Prop)
    (hI : ∀ n, I (t.state n))
    (hstep : ∀ {s e s'}, I s → ¬ goal s → ok s e → step s e = some s' →
      goal s' ∨ rank s' ≤ rank s ∧ (helpful s e → rank s' < rank s))
    (hfair : ∀ n, ¬ goal (t.state n) → ∃ m, n ≤ m ∧ (goal (t.state m) ∨ helpful (t.state m) (t.event m))) :
    ∃ n, goal (t.state n) := by
  refine Classical.byContradiction fun hno => ?_
  have hnever : ∀ n, ¬ goal (t.state n) := fun n hn => hno ⟨n, hn⟩
  have hmove : ∀ n, rank (t.state (n + 1)) ≤ rank (t.state n) ∧
      (helpful (t.state n) (t.event n) → rank (t.state (n + 1)) < rank (t.state n)) := fun n =>
    (hstep (hI n) (hnever n) (t.legal n) (t.next n)).resolve_left (hnever (n + 1))
  have hdown : ∀ {n m}, n ≤ m → rank (t.state m) ≤ rank (t.state n) := by
    intro n m hle
    induction hle with
    | refl => exact Nat.le_refl _
    | step _ ih => exact Nat.le_trans (hmove _).1 ih
  -- every rank is left for a smaller one
  have hfall : ∀ k n, rank (t.state n) ≠ k := by
    intro k
    induction k using Nat.strongRecOn with
    | ind k ih =>
      intro n hn
      obtain ⟨m, hle, hgoal | hhelp⟩ := hfair n (hnever n)
      · exact hnever m hgoal
      · refine ih _ ?_ (m + 1) rfl
        calc rank (t.state (m + 1)) < rank (t.state m) := (hmove m).2 hhelp
          _ ≤ rank (t.state n) := hdown hle
          _ = k := hn
  exact hfall _ 0 rfl

/-- A step in front of a trace. -/
def cons {s : S} {e : E} (hok : ok s e) (hstep : step s e = some (t.state 0)) : Trace step ok where
  state | 0 => s | n + 1 => t.state n
  event | 0 => e | n + 1 => t.event n
  legal | 0 => hok | n + 1 => t.legal n
  next | 0 => hstep | n + 1 => t.next n

end Trace

/-- A run to a state that some event does not change goes on with that event for ever. -/
theorem Run.forever {s s' : S} {es : List E} {e : E} (h : Run step ok s es s') (hok : ok s' e) (hstep : step s' e = some s') :
    ∃ t : Trace step ok, (∀ n, t.event n = es.getD n e) ∧ (∀ n, es.length ≤ n → t.state n = s') ∧
      ∀ es₁ es₂ s₁, es = es₁ ++ es₂ → Run step ok s es₁ s₁ → t.state es₁.length = s₁ := by
  induction h with
  | nil s =>
    refine ⟨⟨fun _ => s, fun _ => e, fun _ => hok, fun _ => hstep⟩, fun _ => rfl, fun _ _ => rfl, fun es₁ es₂ s₁ heq h₁ => ?_⟩
    obtain ⟨rfl, -⟩ := List.append_eq_nil_iff.1 heq.symm
    cases h₁
    rfl
  | @cons s s1 s' e1 es hok1 he1 hrest ih =>
    obtain ⟨t, hevent, hstate, hprefix⟩ := ih hok hstep
    have h0 : t.state 0 = s1 := hprefix [] es s1 rfl (.nil s1)
    refine ⟨t.cons hok1 (h0 ▸ he1), fun n => ?_, fun n hn => ?_, fun es₁ es₂ s₁ heq h₁ => ?_⟩
    · cases n with
      | zero => rfl
      | succ n => exact hevent n
    · cases n with
      | zero => exact absurd hn (Nat.not_succ_le_zero _)
      | succ n => exact hstate n (Nat.le_of_succ_le_succ hn)
    · cases h₁ with
      | nil => rfl
      | cons _ he2 h₁ =>
        cases heq
        cases he1.symm.trans he2
        exact hprefix _ es₂ s₁ rfl h₁
