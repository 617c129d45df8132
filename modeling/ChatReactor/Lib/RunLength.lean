import Mathlib.Algebra.Ring.Nat
import Mathlib.Data.List.Basic
import Mathlib.Order.Basic

/-!
# The runs of a list

`runsFrom k c xs` are the runs of equal values in `c` copies of `k` followed by `xs`, each with its length, as a single pass
over `xs` finds them. Of a sorted list the runs are the values that occur, in increasing order, with the numbers of their
occurrences.
-/

namespace RunLength

variable {α : Type}

def expand (runs : List (α × Nat)) : List α := runs.flatMap fun r => List.replicate r.2 r.1

@[simp] theorem expand_cons (r : α × Nat) (runs : List (α × Nat)) :
    expand (r :: runs) = List.replicate r.2 r.1 ++ expand runs := List.flatMap_cons

variable [DecidableEq α]

def runsFrom (k : α) (c : Nat) : List α → List (α × Nat)
  | [] => [(k, c)]
  | x :: xs => if x = k then runsFrom k (c + 1) xs else (k, c) :: runsFrom x 1 xs

/-- Nothing is lost. -/
theorem expand_runsFrom (k : α) (c : Nat) (xs : List α) : expand (runsFrom k c xs) = List.replicate c k ++ xs := by
  induction xs generalizing k c with
  | nil => simp [runsFrom, expand]
  | cons x xs ih =>
    rw [runsFrom]
    split
    · rename_i h
      rw [ih, h, List.replicate_succ', List.append_assoc, List.singleton_append]
    · rw [expand_cons, ih, List.replicate_one, List.singleton_append]

theorem sum_runsFrom (k : α) (c : Nat) (xs : List α) : ((runsFrom k c xs).map Prod.snd).sum = c + xs.length := by
  have hlen : ∀ runs : List (α × Nat), (expand runs).length = (runs.map Prod.snd).sum := fun runs => by
    simp [expand, List.length_flatMap]
  rw [← hlen, expand_runsFrom, List.length_append, List.length_replicate]

theorem runsFrom_ne_nil (k : α) (c : Nat) (xs : List α) : runsFrom k c xs ≠ [] := by
  induction xs generalizing k c with
  | nil => exact List.cons_ne_nil _ _
  | cons x xs ih =>
    rw [runsFrom]
    split
    · exact ih k (c + 1)
    · exact List.cons_ne_nil _ _

theorem mem_runsFrom {k : α} {c : Nat} {xs : List α} {r : α × Nat} (h : r ∈ runsFrom k c xs) : r.1 = k ∨ r.1 ∈ xs := by
  induction xs generalizing k c with
  | nil =>
    rw [runsFrom, List.mem_singleton] at h
    exact .inl (congrArg Prod.fst h)
  | cons x xs ih =>
    rw [runsFrom] at h
    split at h
    · exact (ih h).imp id (List.mem_cons_of_mem x)
    · obtain rfl | h := List.mem_cons.1 h
      · exact .inl rfl
      · exact .inr (List.mem_cons.2 (ih h))

/-- A value that occurs has a run. -/
theorem exists_run {k : α} {c : Nat} {xs : List α} {x : α} (h : x ∈ xs) : ∃ r ∈ runsFrom k c xs, r.1 = x := by
  have hmem : x ∈ expand (runsFrom k c xs) := by
    rw [expand_runsFrom]
    exact List.mem_append_right _ h
  obtain ⟨r, hr, hx⟩ := List.mem_flatMap.1 hmem
  exact ⟨r, hr, (List.eq_of_mem_replicate hx).symm⟩

section
variable [PartialOrder α]

theorem runsFrom_increasing {k : α} {c : Nat} {xs : List α} (h : (k :: xs).Pairwise (· ≤ ·)) :
    ((runsFrom k c xs).map Prod.fst).Pairwise (· < ·) := by
  induction xs generalizing k c with
  | nil => simp [runsFrom]
  | cons x xs ih =>
    obtain ⟨hk, hxs⟩ := List.pairwise_cons.1 h
    have hkx := hk x List.mem_cons_self
    rw [runsFrom]
    split
    · rename_i heq
      exact ih (heq ▸ hxs)
    · rename_i hne
      refine List.pairwise_cons.2 ⟨fun key hkey => ?_, ih hxs⟩
      have hlt : k < x := lt_of_le_of_ne hkx (Ne.symm hne)
      obtain ⟨r, hr, rfl⟩ := List.mem_map.1 hkey
      obtain heq | hmem := mem_runsFrom hr
      · exact heq ▸ hlt
      · exact hlt.trans_le ((List.pairwise_cons.1 hxs).1 r.1 hmem)

/-- Where the values of the runs are distinct, a run is as long as its value occurs. -/
theorem count_expand {runs : List (α × Nat)} (h : (runs.map Prod.fst).Pairwise (· < ·)) {r : α × Nat} (hr : r ∈ runs) :
    (expand runs).count r.1 = r.2 := by
  induction runs with
  | nil => cases hr
  | cons r' runs ih =>
    obtain ⟨hfirst, hrest⟩ := List.pairwise_cons.1 h
    rw [expand_cons, List.count_append, List.count_replicate]
    obtain rfl | hr := List.mem_cons.1 hr
    · have hzero : (expand runs).count r.1 = 0 := by
        refine List.count_eq_zero.2 fun hmem => ?_
        obtain ⟨r', hr', hx⟩ := List.mem_flatMap.1 hmem
        have hlt := hfirst r'.1 (List.mem_map_of_mem hr')
        exact hlt.ne (List.eq_of_mem_replicate hx)
      simp [hzero]
    · have hlt : r'.1 < r.1 := hfirst r.1 (List.mem_map_of_mem hr)
      simp [hlt.ne, ih hrest hr]

theorem count_runsFrom {k : α} {c : Nat} {xs : List α} (h : (k :: xs).Pairwise (· ≤ ·)) {r : α × Nat}
    (hr : r ∈ runsFrom k c xs) : (List.replicate c k ++ xs).count r.1 = r.2 := by
  rw [← expand_runsFrom]
  exact count_expand (runsFrom_increasing h) hr

end
end RunLength
