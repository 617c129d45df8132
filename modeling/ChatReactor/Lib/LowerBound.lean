import Mathlib.Data.List.Basic
import Mathlib.Data.List.GetD

/-!
# `std::lower_bound`

The binary search of the C++ library over a list, for a predicate `p` ("less than the value"). It gives the end of a
range whose last element satisfies `p` and whose next element does not, whatever the list is like (`lowerBound_cut`).
If no element that satisfies `p` comes after one that does not, there is one such place only (`Cut.take_eq`).
-/

namespace LowerBound

variable {α : Type} {p : α → Bool} {l : List α}

/-- The loop, on the range of `len` elements from `first` on; the range gets shorter in every round. -/
def search (p : α → Bool) (l : List α) : (fuel first len : Nat) → Nat
  | 0, first, _ => first
  | fuel + 1, first, len =>
    if 0 < len then
      let half := len / 2
      if (l[first + half]?).any p then search p l fuel (first + half + 1) (len - half - 1)
      else search p l fuel first half
    else first

def lowerBound (p : α → Bool) (l : List α) : Nat := search p l l.length 0 l.length

theorem search_map {β : Type} (f : β → α) (m : List β) : ∀ fuel first len : Nat,
    search p (m.map f) fuel first len = search (p ∘ f) m fuel first len
  | 0, _, _ => rfl
  | fuel + 1, first, len => by simp only [search, List.getElem?_map, Option.any_map, Function.comp_def, search_map f m fuel]

theorem lowerBound_map {β : Type} (f : β → α) (m : List β) : lowerBound p (m.map f) = lowerBound (p ∘ f) m := by
  rw [lowerBound, List.length_map, search_map, lowerBound]

/-- A place in the list: what is before it satisfies `p`, and what is behind it does not. -/
structure Cut (p : α → Bool) (l : List α) (r : Nat) : Prop where
  le_length : r ≤ l.length
  before : r = 0 ∨ (l[r - 1]?).any p = true
  behind : r = l.length ∨ (l[r]?).any p = false

/-- The loop keeps that the element before the range satisfies `p` and the element behind it does not. -/
theorem search_cut : ∀ fuel first len : Nat, len ≤ fuel → first + len ≤ l.length →
    (first = 0 ∨ (l[first - 1]?).any p = true) → (first + len = l.length ∨ (l[first + len]?).any p = false) →
    Cut p l (search p l fuel first len)
  | 0, first, len, hfuel, hlen, hbefore, hbehind => by
    obtain rfl : len = 0 := by omega
    exact ⟨hlen, hbefore, hbehind⟩
  | fuel + 1, first, len, hfuel, hlen, hbefore, hbehind => by
    simp only [search]
    split_ifs with hpos hp
    · have hend : first + len / 2 + 1 + (len - len / 2 - 1) = first + len := by omega
      refine search_cut fuel (first + len / 2 + 1) (len - len / 2 - 1) (by omega) (by omega) (.inr hp) ?_
      rwa [hend]
    · exact search_cut fuel first (len / 2) (by omega) (by omega) hbefore (.inr (by simpa using hp))
    · obtain rfl : len = 0 := by omega
      exact ⟨hlen, hbefore, hbehind⟩

theorem lowerBound_cut (p : α → Bool) (l : List α) : Cut p l (lowerBound p l) :=
  search_cut l.length 0 l.length (Nat.le_refl _) (by omega) (.inl rfl) (.inl (by omega))

section
variable {r : Nat} (h : Cut p l r) (hsorted : l.Pairwise fun a b => p b = true → p a = true)
include h hsorted

theorem Cut.of_mem_take : ∀ a ∈ l.take r, p a = true := by
  intro a ha
  obtain ⟨i, hi, rfl⟩ := List.getElem_of_mem ha
  rw [List.length_take] at hi
  have hle := h.le_length
  have hlast : p (l[r - 1]) = true := by
    obtain rfl | hbefore := h.before
    · omega
    · rwa [List.getElem?_eq_getElem (by omega), Option.any_some] at hbefore
  rw [List.getElem_take]
  by_cases hlt : i < r - 1
  · exact List.pairwise_iff_getElem.1 hsorted i (r - 1) (by omega) (by omega) hlt hlast
  · obtain rfl : i = r - 1 := by omega
    exact hlast

theorem Cut.of_mem_drop : ∀ a ∈ l.drop r, p a = false := by
  intro a ha
  obtain ⟨i, hi, rfl⟩ := List.getElem_of_mem ha
  rw [List.length_drop] at hi
  have hfirst : p (l[r]) = false := by
    obtain rfl | hbehind := h.behind
    · omega
    · rwa [List.getElem?_eq_getElem (by omega), Option.any_some] at hbehind
  rw [List.getElem_drop]
  by_contra hp
  rw [Bool.not_eq_false] at hp
  obtain rfl | hpos := Nat.eq_zero_or_pos i
  · simp [hfirst] at hp
  · have := List.pairwise_iff_getElem.1 hsorted r (r + i) (by omega) (by omega) (by omega) hp
    simp [hfirst] at this

/-- Where the elements that satisfy `p` come first, there is one such place, behind them. -/
theorem Cut.take_eq : l.take r = l.filter p := by
  conv_rhs => rw [← List.take_append_drop r l, List.filter_append]
  rw [List.filter_eq_self.2 (h.of_mem_take hsorted), List.filter_eq_nil_iff.2, List.append_nil]
  intro a ha
  simp [h.of_mem_drop hsorted a ha]

end

end LowerBound
