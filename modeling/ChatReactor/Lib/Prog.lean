import Mathlib.Logic.Function.Basic
import ChatReactor.Lib.Runs

/-!
# Programs that call shared services

A handler is a tree of calls: it issues a command, gets the answer and goes on. `Prog.run` executes one
alone; a `Pool` interleaves several, one command at a time. `Pool.Holds.step` is the rule of Owicki and
Gries for it: an assertion for each thread, kept by the thread's own steps and by those of the others.
-/

/-- Where a value of an updated function comes from. -/
theorem of_update_eq {α β : Type} [DecidableEq α] {f : α → β} {a b : α} {x y : β} (h : Function.update f a x b = y) :
    b = a ∧ x = y ∨ b ≠ a ∧ f b = y := by
  by_cases hb : b = a
  · subst hb
    rw [Function.update_self] at h
    exact .inl ⟨rfl, h⟩
  · rw [Function.update_of_ne hb] at h
    exact .inr ⟨hb, h⟩

/-- A program with commands `C`, answers `R` and result `α`. -/
inductive Prog (C : Type) (R : C → Type) (α : Type) : Type
  | ret (a : α)
  | call (c : C) (k : R c → Prog C R α)

namespace Prog
variable {C : Type} {R : C → Type} {S O α β : Type}

def bind : Prog C R α → (α → Prog C R β) → Prog C R β
  | .ret a, f => f a
  | .call c k, f => .call c fun r => (k r).bind f

instance : Monad (Prog C R) where
  pure := .ret
  bind := .bind

@[simp] theorem pure_eq (a : α) : (pure a : Prog C R α) = .ret a := rfl

@[simp] theorem ret_bind (a : α) (f : α → Prog C R β) : (Prog.ret a >>= f) = f a := rfl

@[simp] theorem call_bind (c : C) (k : R c → Prog C R α) (f : α → Prog C R β) :
    (Prog.call c k >>= f) = .call c fun r => k r >>= f := rfl

/-- Execute a program alone. -/
def run (exec : S → (c : C) → Option (R c × S)) : Prog C R α → S → Option (α × S)
  | .ret a, s => some (a, s)
  | .call c k, s => (exec s c).bind fun x => (k x.1).run exec x.2

@[simp] theorem run_ret (exec : S → (c : C) → Option (R c × S)) (a : α) (s : S) : (ret a).run exec s = some (a, s) := rfl

theorem run_call {exec : S → (c : C) → Option (R c × S)} {c : C} {k : R c → Prog C R α} {s s' : S} {r : R c}
    (h : exec s c = some (r, s')) : (call c k).run exec s = (k r).run exec s' := by simp [run, h]

theorem run_bind (exec : S → (c : C) → Option (R c × S)) (f : α → Prog C R β) :
    ∀ (p : Prog C R α) (s : S), (p >>= f).run exec s = (p.run exec s).bind fun x => (f x.1).run exec x.2
  | .ret a, s => rfl
  | .call c k, s => by
    simp only [call_bind, run, Option.bind_assoc]
    congr 1
    funext x
    exact run_bind exec f (k x.1) x.2

/-- Every command the program can issue satisfies `P`. -/
def All (P : C → Prop) : Prog C R α → Prop
  | .ret _ => True
  | .call c k => P c ∧ ∀ r, (k r).All P

theorem All.bind {P : C → Prop} {f : α → Prog C R β} (hf : ∀ a, (f a).All P) :
    ∀ {p : Prog C R α}, p.All P → (p >>= f).All P
  | .ret a, _ => hf a
  | .call _ _, h => ⟨h.1, fun r => All.bind hf (h.2 r)⟩

theorem All.mono {P Q : C → Prop} (h : ∀ c, P c → Q c) : ∀ {p : Prog C R α}, p.All P → p.All Q
  | .ret _, _ => trivial
  | .call _ _, hp => ⟨h _ hp.1, fun r => All.mono h (hp.2 r)⟩

/-- What every command of the program keeps holds after it. -/
theorem All.run {P : C → Prop} {exec : S → (c : C) → Option (R c × S)} {I : S → Prop}
    (hstep : ∀ {s c r s'}, P c → I s → exec s c = some (r, s') → I s') :
    ∀ {p : Prog C R α} {s s' : S} {a : α}, p.All P → I s → p.run exec s = some (a, s') → I s'
  | .ret _, s, s', a, _, hs, h => by
    cases h
    exact hs
  | .call c k, s, s', a, hp, hs, h => by
    obtain ⟨⟨r, s1⟩, hexec, h⟩ := Option.bind_eq_some_iff.1 h
    exact All.run hstep (hp.2 r) (hstep hp.1 hs hexec) h

end Prog

/-- `n` threads over a shared state. -/
structure Pool (n : Nat) (S C : Type) (R : C → Type) (Q : Type) where
  state : S
  /-- The request a thread is working on, and what is left of its handler. -/
  thread : Fin n → Option (Q × Prog C R Unit)

namespace Pool
variable {n : Nat} {S C O Q : Type} {R : C → Type}

/-- No thread has anything to do. -/
def idle (n : Nat) (s : S) : Pool n S C R Q := { state := s, thread := fun _ => none }

/-- A thread takes a request, or issues its next command; `o` decides what the services do with it. -/
inductive Event (n : Nat) (O Q : Type)
  | start (i : Fin n) (q : Q)
  | step (i : Fin n) (o : O)

/-- One event. A thread that has come to the end of its handler is free again. -/
def step (exec : S → O → (c : C) → Option (R c × S)) (handle : Q → Prog C R Unit) (w : Pool n S C R Q) :
    Event n O Q → Option (Pool n S C R Q)
  | .start i q => some { w with thread := Function.update w.thread i (some (q, handle q)) }
  | .step i o => match w.thread i with
    | some (q, .call c k) => (exec w.state o c).map fun x =>
        { state := x.2, thread := Function.update w.thread i (some (q, k x.1)) }
    | some (_, .ret _) => some { w with thread := Function.update w.thread i none }
    | none => none

/-- A request is taken by a free thread. -/
def Event.Legal (w : Pool n S C R Q) : Event n O Q → Prop
  | .start i _ => (w.thread i).isNone = true
  | .step i _ => (w.thread i).isSome = true

instance (w : Pool n S C R Q) : (e : Event n O Q) → Decidable (e.Legal w)
  | .start _ _ => inferInstanceAs (Decidable (_ = _))
  | .step _ _ => inferInstanceAs (Decidable (_ = _))

variable {exec : S → O → (c : C) → Option (R c × S)} {handle : Q → Prog C R Unit} {w w' : Pool n S C R Q}

/-- What an event does: a thread takes a request, has a command executed, or comes to the end. -/
inductive Moves (exec : S → O → (c : C) → Option (R c × S)) (handle : Q → Prog C R Unit) (w : Pool n S C R Q) :
    Event n O Q → Pool n S C R Q → Prop
  | start (i : Fin n) (q : Q) :
      Moves exec handle w (.start i q) { w with thread := Function.update w.thread i (some (q, handle q)) }
  | call (i : Fin n) (o : O) {q : Q} {c : C} {k : R c → Prog C R Unit} {r : R c} {s' : S}
      (hi : w.thread i = some (q, .call c k)) (hexec : exec w.state o c = some (r, s')) :
      Moves exec handle w (.step i o) { state := s', thread := Function.update w.thread i (some (q, k r)) }
  | ret (i : Fin n) (o : O) {q : Q} {a : Unit} (hi : w.thread i = some (q, .ret a)) :
      Moves exec handle w (.step i o) { w with thread := Function.update w.thread i none }

theorem step_moves {e : Event n O Q} (h : w.step exec handle e = some w') : Moves exec handle w e w' := by
  cases e with
  | start i q =>
    cases h
    exact .start i q
  | step i o =>
    simp only [Pool.step] at h
    split at h
    · rename_i q c k hi
      obtain ⟨⟨r, s'⟩, hexec, rfl⟩ := Option.map_eq_some_iff.1 h
      exact .call i o hi hexec
    · rename_i q a hi
      cases h
      exact .ret i o hi
    · cases h

/-- The assertion `T` holds of every busy thread. -/
def Holds (T : S → Q → Prog C R Unit → Prop) (w : Pool n S C R Q) : Prop :=
  ∀ i q p, w.thread i = some (q, p) → T w.state q p

theorem Holds.idle {T : S → Q → Prog C R Unit → Prop} (s : S) : Holds T (idle n s) := by
  intro i q p h
  cases h

/-- One thread has changed, and with it perhaps the state. -/
theorem Holds.update {T : S → Q → Prog C R Unit → Prop} {s : S} {f : Fin n → Option (Q × Prog C R Unit)} {i : Fin n}
    {x : Option (Q × Prog C R Unit)} (hx : ∀ q p, x = some (q, p) → T s q p)
    (hf : ∀ j q p, j ≠ i → f j = some (q, p) → T s q p) : Holds T ⟨s, Function.update f i x⟩ := by
  intro j q p hj
  obtain ⟨_, hj⟩ | ⟨hji, hj⟩ := of_update_eq hj
  · exact hx q p hj
  · exact hf j q p hji hj

variable {T : S → Q → Prog C R Unit → Prop}

/-- **One event keeps the assertions**, if a fresh handler satisfies its own and a command keeps that of the
thread that issues it (`own`) and those of the others (`other`). -/
theorem Holds.step (h : Holds T w) {e : Event n O Q} (hw' : w.step exec handle e = some w')
    (fresh : ∀ i q, e = .start i q → T w.state q (handle q))
    (own : ∀ i o q c k r s', e = .step i o → w.thread i = some (q, .call c k) → exec w.state o c = some (r, s') →
      T s' q (k r))
    (other : ∀ i o q c k r s', e = .step i o → w.thread i = some (q, .call c k) → exec w.state o c = some (r, s') →
      ∀ j q' p', j ≠ i → w.thread j = some (q', p') → T s' q' p') : Holds T w' := by
  cases step_moves hw' with
  | start i q =>
    refine Holds.update ?_ fun j q' p' _ hj => h j q' p' hj
    rintro q' p' ⟨⟩
    exact fresh i q rfl
  | call i o hi hexec =>
    refine Holds.update ?_ (other i o _ _ _ _ _ rfl hi hexec)
    rintro q' p' ⟨⟩
    exact own i o _ _ _ _ _ rfl hi hexec
  | ret i o hi =>
    refine Holds.update ?_ fun j q' p' _ hj => h j q' p' hj
    rintro q' p' ⟨⟩

end Pool
