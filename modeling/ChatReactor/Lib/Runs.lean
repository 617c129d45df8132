/-!
# Runs of a partial step function

A component is a step function on its states, undefined where it fails, and a predicate that says which
events are considered in which state. `Run` is a finite sequence of them; `Run.invariant` is the
induction on it.
-/

variable {S E : Type} {step : S → E → Option S} {ok : S → E → Prop}

/-- The events lead from one state to the other, each `ok` where it happens. -/
inductive Run (step : S → E → Option S) (ok : S → E → Prop) : S → List E → S → Prop
  | nil (s : S) : Run step ok s [] s
  | cons {s s' s'' : S} {e : E} {es : List E} :
      ok s e → step s e = some s' → Run step ok s' es s'' → Run step ok s (e :: es) s''

/-- What every step keeps holds at the end of a run. -/
theorem Run.invariant (I : S → Prop) (hstep : ∀ {s e s'}, I s → ok s e → step s e = some s' → I s')
    {s s' : S} {es : List E} (h : Run step ok s es s') (hs : I s) : I s' := by
  induction h with
  | nil => exact hs
  | cons hok he _ ih => exact ih (hstep hs hok he)

/-- An invariant that also speaks of the events so far, where it lets no step fail. -/
theorem Run.history {I : List E → S → Prop} (hstep : ∀ {es s e}, I es s → ok s e → ∃ s', step s e = some s' ∧ I (es ++ [e]) s')
    {s s' : S} {es₀ es : List E} (h : Run step ok s es s') (hs : I es₀ s) : I (es₀ ++ es) s' := by
  induction h generalizing es₀ with
  | nil => simpa using hs
  | cons hok he _ ih =>
    obtain ⟨s₁, he₁, hs₁⟩ := hstep hs hok
    cases he.symm.trans he₁
    simpa using ih hs₁

theorem Run.append {s s' s'' : S} {es es' : List E} (h : Run step ok s es s') (h' : Run step ok s' es' s'') :
    Run step ok s (es ++ es') s'' := by
  induction h with
  | nil => exact h'
  | cons hok he _ ih => exact .cons hok he (ih h')

/-- Where an invariant of the run lets every step pass another test, the run passes it. -/
theorem Run.refine {ok' : S → E → Prop} (J : S → Prop) (hstep : ∀ {s e s'}, J s → ok s e → step s e = some s' → J s')
    (hok : ∀ {s e}, J s → ok s e → ok' s e) {s s' : S} {es : List E} (h : Run step ok s es s') (hs : J s) :
    Run step ok' s es s' := by
  induction h with
  | nil s => exact .nil s
  | cons hk he _ ih => exact .cons (hok hs hk) he (ih (hstep hs hk he))

theorem Run.mono {ok' : S → E → Prop} (hok : ∀ s e, ok s e → ok' s e) {s s' : S} {es : List E}
    (h : Run step ok s es s') : Run step ok' s es s' :=
  h.refine (fun _ => True) (fun _ _ _ => trivial) (fun _ => hok _ _) trivial

/-- Where every step costs something, a run is no longer than what there is to spend. -/
theorem Run.length_le (cost : S → Nat) (I : S → Prop)
    (hstep : ∀ {s e s'}, I s → ok s e → step s e = some s' → I s' ∧ cost s' < cost s) {s s' : S} {es : List E}
    (h : Run step ok s es s') (hs : I s) : es.length + cost s' ≤ cost s := by
  induction h with
  | nil => simp
  | cons hok he _ ih =>
    obtain ⟨hI, hless⟩ := hstep hs hok he
    have hrest := ih hI
    rw [List.length_cons]
    omega

/-- Execute a list of events, as long as they are `ok`. -/
def exec (step : S → E → Option S) (ok : S → E → Prop) [∀ s e, Decidable (ok s e)] : S → List E → Option S
  | s, [] => some s
  | s, e :: es => if ok s e then (step s e).bind fun s' => exec step ok s' es else none

theorem Run.of_exec [∀ s e, Decidable (ok s e)] : ∀ (s : S) (es : List E) (h : (exec step ok s es).isSome = true),
    Run step ok s es ((exec step ok s es).get h)
  | s, [], _ => .nil s
  | s, e :: es, h => by
    by_cases hok : ok s e
    · cases he : step s e with
      | none => simp [exec, hok, he] at h
      | some s' =>
        have heq : exec step ok s (e :: es) = exec step ok s' es := by simp [exec, hok, he]
        simp only [heq] at h ⊢
        exact .cons hok he (Run.of_exec s' es h)
    · simp [exec, hok] at h

theorem Run.of_exec_eq [∀ s e, Decidable (ok s e)] {s s' : S} {es : List E} (h : exec step ok s es = some s') :
    Run step ok s es s' := by
  have hrun := Run.of_exec s es (h ▸ rfl : (exec step ok s es).isSome = true)
  simpa only [h, Option.get_some] using hrun

/-- What a step keeps if it is `careful`, and breaks otherwise, holds all along a run exactly if every step of the
run is careful. -/
theorem Run.always_iff {I : S → Prop} {careful : S → E → Prop}
    (hstep : ∀ {s e s'}, I s → ok s e → step s e = some s' → (I s' ↔ careful s e)) {s s' : S} {es : List E}
    (h : Run step ok s es s') (hs : I s) :
    (∀ es₁ es₂ s₁, es = es₁ ++ es₂ → Run step ok s es₁ s₁ → I s₁) ↔
      Run step (fun s e => ok s e ∧ careful s e) s es s' := by
  induction h with
  | nil s =>
    refine ⟨fun _ => .nil s, fun _ es₁ es₂ s₁ heq h₁ => ?_⟩
    obtain ⟨rfl, -⟩ := List.append_eq_nil_iff.1 heq.symm
    cases h₁
    exact hs
  | @cons s s1 s' e es hok he hrest ih =>
    constructor
    · intro hall
      have hs1 : I s1 := hall [e] es s1 rfl (.cons hok he (.nil s1))
      refine .cons ⟨hok, (hstep hs hok he).1 hs1⟩ he ((ih hs1).1 ?_)
      rintro es₁ es₂ s₁ rfl h₁
      exact hall (e :: es₁) es₂ s₁ rfl (.cons hok he h₁)
    · rintro (_ | ⟨⟨_, hcare⟩, he', hrest'⟩) es₁ es₂ s₁ heq h₁
      cases he.symm.trans he'
      cases h₁ with
      | nil => exact hs
      | cons _ he'' h₁ =>
        cases heq
        cases he.symm.trans he''
        exact (ih ((hstep hs hok he).2 hcare)).2 hrest' _ es₂ s₁ rfl h₁
