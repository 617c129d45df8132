import Mathlib.Data.List.Infix

/-!
# Lines with a two-symbol terminator

`findPair a b` is the position of the first `a` with a `b` right behind it. A text without that pair,
followed by the pair, is found again by its length, also if it ends with a lone `a` or what follows
begins with a `b` (`findPair_line`); and what is found was such a text (`findPair_some`).
-/

namespace Lines

variable {α : Type} [DecidableEq α]

def findPair (a b : α) : List α → Option Nat
  | x :: y :: l => if x = a ∧ y = b then some 0 else (findPair a b (y :: l)).map (· + 1)
  | _ => none

/-- No `a` with a `b` right behind it. -/
def Unbroken (a b : α) (l : List α) : Prop := ¬ [a, b] <:+: l

variable {a b : α}

theorem findPair_none : ∀ {l : List α}, findPair a b l = none ↔ Unbroken a b l
  | [] => by simp [findPair, Unbroken]
  | [x] => by
    have : ¬ [a, b] <:+: [x] := fun h => by simpa using h.length_le
    simp [findPair, Unbroken, this]
  | x :: y :: l => by
    have ih : findPair a b (y :: l) = none ↔ Unbroken a b (y :: l) := findPair_none
    have hsplit : [a, b] <:+: x :: y :: l ↔ (a = x ∧ b = y) ∨ [a, b] <:+: y :: l := by
      rw [List.infix_cons_iff]
      simp [List.cons_prefix_cons]
    rw [Unbroken, hsplit, not_or, ← Unbroken, ← ih, findPair]
    split
    · rename_i h
      simp [h.1.symm, h.2.symm]
    · rename_i h
      have h' : ¬ (a = x ∧ b = y) := fun h'' => h ⟨h''.1.symm, h''.2.symm⟩
      simp [h']

instance (a b : α) (l : List α) : Decidable (Unbroken a b l) := decidable_of_iff _ findPair_none

theorem findPair_append {i : Nat} : ∀ {l : List α}, findPair a b l = some i → ∀ t, findPair a b (l ++ t) = some i
  | [], h, _ => by simp [findPair] at h
  | [x], h, _ => by simp [findPair] at h
  | x :: y :: l, h, t => by
    rw [List.cons_append, List.cons_append, findPair]
    rw [findPair] at h
    split at h
    · rename_i hxy
      rw [if_pos hxy, h]
    · rename_i hxy
      obtain ⟨j, hj, rfl⟩ := Option.map_eq_some_iff.1 h
      rw [if_neg hxy, ← List.cons_append, findPair_append hj t, Option.map_some]

/-- A text without the pair ends where the terminator behind it begins. -/
theorem findPair_line (hab : a ≠ b) : ∀ {l : List α}, Unbroken a b l → ∀ t, findPair a b (l ++ a :: b :: t) = some l.length
  | [], _, t => by simp [findPair]
  | [x], _, t => by
    have hx : ¬ (x = a ∧ a = b) := fun h => hab h.2
    rw [List.singleton_append, findPair, if_neg hx, findPair]
    simp
  | x :: y :: l, h, t => by
    have hnone := findPair_none.2 h
    rw [findPair] at hnone
    rw [List.cons_append, List.cons_append, findPair]
    split
    · rename_i hxy
      rw [if_pos hxy] at hnone
      cases hnone
    · rename_i hxy
      rw [if_neg hxy, Option.map_eq_none_iff] at hnone
      rw [← List.cons_append, findPair_line hab (findPair_none.1 hnone) t]
      rfl

/-- What is found: the text before has no pair, and the pair is there. -/
theorem findPair_some {i : Nat} : ∀ {l : List α}, findPair a b l = some i →
    Unbroken a b (l.take i) ∧ i + 2 ≤ l.length ∧ l = l.take i ++ a :: b :: l.drop (i + 2)
  | [], h => by simp [findPair] at h
  | [x], h => by simp [findPair] at h
  | x :: y :: l, h => by
    rw [findPair] at h
    split at h
    · rename_i hxy
      obtain ⟨rfl, rfl⟩ := hxy
      cases h
      simp [Unbroken]
    · rename_i hxy
      obtain ⟨j, hj, rfl⟩ := Option.map_eq_some_iff.1 h
      obtain ⟨hfree, hlen, heq⟩ := findPair_some hj
      refine ⟨?_, by simpa using hlen, ?_⟩
      · rw [List.take_succ_cons, ← findPair_none]
        cases j with
        | zero => simp [findPair]
        | succ j =>
          rw [List.take_succ_cons] at hfree ⊢
          rw [findPair, if_neg hxy, findPair_none.2 hfree, Option.map_none]
      · rw [List.take_succ_cons, List.cons_append, show j + 1 + 2 = (j + 2) + 1 by omega, List.drop_succ_cons, ← heq]

/-- The text that was found, with its terminator. -/
theorem take_findPair {i : Nat} {l : List α} (h : findPair a b l = some i) : l.take (i + 2) = l.take i ++ [a, b] := by
  obtain ⟨-, hlen, heq⟩ := findPair_some h
  have hi : (l.take i).length = i := List.length_take_of_le (by omega)
  rw [List.take_add]
  conv in l.drop i => rw [heq]
  rw [List.drop_left' hi]
  rfl

/-- A terminator that was not in the front part is at most one symbol inside it. -/
theorem lt_of_findPair_append {i : Nat} {p t : List α} (hp : Unbroken a b p) (h : findPair a b (p ++ t) = some i) :
    p.length < i + 2 := by
  apply Nat.lt_of_not_le
  intro hle
  have htake := take_findPair h
  rw [List.take_append_of_le_length hle] at htake
  exact hp ⟨(p ++ t).take i, p.drop (i + 2), by rw [← htake, List.take_append_drop]⟩

theorem Unbroken.snoc {l : List α} (hab : a ≠ b) (h : Unbroken a b l) : Unbroken a b (l ++ [a]) := by
  rw [← findPair_none]
  cases hfind : findPair a b (l ++ [a]) with
  | none => rfl
  | some i =>
    -- the pair would be at the very end, where there is no `b`
    have hi := lt_of_findPair_append h hfind
    obtain ⟨-, hlen, -⟩ := findPair_some hfind
    have htake := take_findPair hfind
    rw [List.length_append, List.length_singleton] at hlen
    rw [List.take_of_length_le (by rw [List.length_append, List.length_singleton]; omega)] at htake
    have hlast := congrArg List.getLast? htake
    simp only [List.getLast?_append, List.getLast?_singleton, List.getLast?_cons_cons, Option.some_or,
      Option.some.injEq] at hlast
    exact absurd hlast hab

end Lines
