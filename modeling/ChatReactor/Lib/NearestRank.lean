import Mathlib.Data.List.Basic

/-!
# Ranks in a sorted list

In a list that is sorted by a reflexive and transitive relation, the element at index `i` is the least of the elements that
have at least `i + 1` elements at or below them.
-/

namespace NearestRank

variable {α : Type} {le : α → α → Prop} [DecidableRel le] {l : List α} {i : Nat}

theorem lt_countP_getElem (hrefl : ∀ a, le a a) (hsorted : l.Pairwise le) (hi : i < l.length) :
    i + 1 ≤ l.countP (le · l[i]) := by
  have hfront : ∀ a ∈ l.take (i + 1), decide (le a l[i]) = true := by
    intro a ha
    obtain ⟨j, hj, rfl⟩ := List.mem_iff_getElem.1 ha
    rw [List.length_take] at hj
    rw [List.getElem_take, decide_eq_true_eq]
    obtain heq | hlt := Nat.eq_or_lt_of_le (show j ≤ i by omega)
    · subst heq
      exact hrefl _
    · exact List.pairwise_iff_getElem.1 hsorted j i (by omega) hi hlt
  calc i + 1 = (l.take (i + 1)).length := by rw [List.length_take]; omega
    _ = (l.take (i + 1)).countP (le · l[i]) := (List.countP_eq_length.2 hfront).symm
    _ ≤ l.countP (le · l[i]) := (List.take_sublist _ _).countP_le

theorem getElem_le_of_lt_countP (hrefl : ∀ a, le a a) (htrans : ∀ {a b c}, le a b → le b c → le a c)
    (hsorted : l.Pairwise le) (hi : i < l.length) {w : α} (hw : i + 1 ≤ l.countP (le · w)) : le l[i] w := by
  by_contra hnot
  -- nothing from `i` on is at or below `w`
  have hback : (l.drop i).countP (le · w) = 0 := by
    refine List.countP_eq_zero.2 fun a ha hle => hnot ?_
    obtain ⟨j, hj, rfl⟩ := List.mem_iff_getElem.1 ha
    rw [List.length_drop] at hj
    rw [List.getElem_drop, decide_eq_true_eq] at hle
    obtain rfl | hpos := Nat.eq_zero_or_pos j
    · exact htrans (hrefl _) hle
    · exact htrans (List.pairwise_iff_getElem.1 hsorted i (i + j) hi (by omega) (by omega)) hle
  have hsplit : l.countP (le · w) = (l.take i).countP (le · w) + (l.drop i).countP (le · w) := by
    rw [← List.countP_append, List.take_append_drop]
  have hfront : (l.take i).countP (le · w) ≤ i := Nat.le_trans List.countP_le_length (List.length_take_le _ _)
  omega

end NearestRank
