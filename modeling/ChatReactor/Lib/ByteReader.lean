import Mathlib.Data.List.Basic

/-!
# Readers of a byte stream

A reader takes bytes off the front of its input and may change a store on the way. It returns a value, throws a message,
or has no defined behaviour (`none`). What it has done to the store before it throws stays done.

`Returns` is the relation of the runs that return. `Reads p image upd` says everything about a reader that returns what the
input begins with: the input was the image of the value and the rest, and the store is updated by the value. It carries
over to repetition (`Reads.repeatN_iff`).
-/

namespace ByteReader

abbrev Reader (σ α : Type) := ExceptT String (StateT (List UInt8 × σ) Option) α

variable {σ α β : Type}

/-- The next `n` bytes; what is left is taken too when there are fewer. -/
def takeBytes (n : Nat) (message : String) : Reader σ (List UInt8) := fun s =>
  some (if s.1.length < n then .error message else .ok (s.1.take n), s.1.drop n, s.2)

def update (f : σ → σ) : Reader σ Unit := fun s => some (.ok (), s.1, f s.2)

def getStore : Reader σ σ := fun s => some (.ok s.2, s)

/-- `if (!c) throw` -/
def require (c : Bool) (message : String) : Reader σ Unit := if c then pure () else throw message

/-- Has no defined behaviour if there is no value. -/
def ofOption (x : Option α) : Reader σ α := fun s => x.map fun a => (.ok a, s)

/-- `for (int i = 0; i < n; ++i)`, with what each round returns. -/
def repeatN (p : Reader σ α) : Nat → Reader σ (List α)
  | 0 => return []
  | n + 1 => do
    let x ← p
    let xs ← repeatN p n
    return x :: xs

/-- The run from `s` returns `a` and ends in `s'`. -/
def Returns (p : Reader σ α) (s : List UInt8 × σ) (a : α) (s' : List UInt8 × σ) : Prop := p s = some (.ok a, s')

section
variable {s s' : List UInt8 × σ} {a a' : α} {b : β}

theorem returns_bind {p : Reader σ α} {f : α → Reader σ β} :
    Returns (p >>= f) s b s' ↔ ∃ a s₁, Returns p s a s₁ ∧ Returns (f a) s₁ b s' := by
  have hbind : (p >>= f) s = (p s).bind fun r => match r.1 with
      | .ok a => f a r.2
      | .error message => some (.error message, r.2) := by
    show (p s).bind _ = _
    congr 1
    funext r
    obtain ⟨a | a, s₁⟩ := r <;> rfl
  unfold Returns
  rw [hbind, Option.bind_eq_some_iff]
  constructor
  · rintro ⟨⟨message | a, s₁⟩, hp, hf⟩
    · cases hf
    · exact ⟨a, s₁, hp, hf⟩
  · rintro ⟨a, s₁, hp, hf⟩
    exact ⟨(.ok a, s₁), hp, hf⟩

end

/-! ## One step, then the rest -/

section
variable {f : α → Reader σ β} {input : List UInt8} {store : σ} {b : β} {s' : List UInt8 × σ}

theorem returns_require {c : Bool} {message : String} {f : Unit → Reader σ β} :
    Returns (require c message >>= f) (input, store) b s' ↔ c = true ∧ Returns (f ()) (input, store) b s' := by
  cases c
  · simp only [Bool.false_eq_true, false_and, iff_false]
    intro h
    cases h
  · exact (and_iff_right rfl).symm

theorem returns_takeBytes {n : Nat} {message : String} {f : List UInt8 → Reader σ β} :
    Returns (takeBytes n message >>= f) (input, store) b s' ↔
      ∃ bytes rest, bytes.length = n ∧ input = bytes ++ rest ∧ Returns (f bytes) (rest, store) b s' := by
  have htake : ∀ bytes s₁, Returns (takeBytes n message) (input, store) bytes s₁ ↔
      bytes.length = n ∧ input = bytes ++ s₁.1 ∧ store = s₁.2 := by
    rintro bytes ⟨rest, store'⟩
    unfold Returns takeBytes
    by_cases hn : input.length < n
    · simp only [hn, if_true, Option.some.injEq, Prod.mk.injEq, reduceCtorEq, false_and, false_iff]
      rintro ⟨rfl, rfl, -⟩
      rw [List.length_append] at hn
      omega
    · simp only [hn, if_false, Option.some.injEq, Prod.mk.injEq, Except.ok.injEq]
      constructor
      · rintro ⟨rfl, rfl, rfl⟩
        simp [Nat.le_of_not_lt hn]
      · rintro ⟨rfl, rfl, rfl⟩
        simp
  simp [returns_bind, htake, and_assoc]

theorem returns_update {g : σ → σ} {f : Unit → Reader σ β} :
    Returns (update g >>= f) (input, store) b s' ↔ Returns (f ()) (input, g store) b s' := Iff.rfl

theorem returns_getStore {f : σ → Reader σ β} :
    Returns (getStore >>= f) (input, store) b s' ↔ Returns (f store) (input, store) b s' := Iff.rfl

theorem returns_ofOption {x : Option α} : Returns (ofOption x >>= f) (input, store) b s' ↔
    ∃ a, x = some a ∧ Returns (f a) (input, store) b s' := by
  cases x with
  | none =>
    simp only [reduceCtorEq, false_and, exists_false, iff_false]
    intro h
    cases h
  | some a =>
    simp only [Option.some.injEq, exists_eq_left']
    rfl

end

/-- What the input begins with is what `p` returns, and it updates the store by that. -/
structure Reads (p : Reader σ α) (image : α → List UInt8) (upd : σ → α → σ) : Prop where
  bind_iff : ∀ {β : Type} {f : α → Reader σ β} {input store b s'}, Returns (p >>= f) (input, store) b s' ↔
    ∃ a rest, input = image a ++ rest ∧ Returns (f a) (rest, upd store a) b s'

theorem Reads.repeatN_iff {p : Reader σ α} {image : α → List UInt8} {upd : σ → α → σ} (h : Reads p image upd) {n : Nat}
    {f : List α → Reader σ β} {input : List UInt8} {store : σ} {b : β} {s' : List UInt8 × σ} :
    Returns (repeatN p n >>= f) (input, store) b s' ↔ ∃ as rest, as.length = n ∧ input = as.flatMap image ++ rest ∧
      Returns (f as) (rest, as.foldl upd store) b s' := by
  induction n generalizing f input store with
  | zero => simp [repeatN]
  | succ n ih =>
    simp only [repeatN, bind_assoc, pure_bind]
    rw [h.bind_iff]
    constructor
    · rintro ⟨a, rest, rfl, hrest⟩
      obtain ⟨as, rest', rfl, rfl, hf⟩ := ih.1 hrest
      exact ⟨a :: as, rest', rfl, by simp, hf⟩
    · rintro ⟨as, rest, hlen, rfl, hf⟩
      obtain ⟨a, as, rfl⟩ := List.exists_cons_of_length_eq_add_one hlen
      exact ⟨a, as.flatMap image ++ rest, by simp, ih.2 ⟨as, rest, Nat.succ.inj hlen, rfl, hf⟩⟩

end ByteReader
