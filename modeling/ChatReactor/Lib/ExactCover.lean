import Mathlib.Data.List.Nodup
import Mathlib.Data.List.Perm.Basic

/-!
# Exact covers

A choice of rows covers a set of columns exactly if every column is an item of one row, once, and the rows
have no other items. `Covers.cons` and `Covers.erase` are the two directions of the step of Knuth's Algorithm X:
pick any column; some row through it belongs to the cover, and the others cover what it leaves.
-/

variable {ι κ : Type} {items : ι → List κ} {H : List κ} {S : List ι} {x : ι} {c : κ}

/-- The rows cover the columns exactly. -/
def Covers (items : ι → List κ) (S : List ι) (H : List κ) : Prop := (S.flatMap items).Perm H

theorem covers_nil : Covers items [] [] := .nil

theorem Covers.mem_iff (h : Covers items S H) : c ∈ H ↔ ∃ x ∈ S, c ∈ items x := by
  rw [← List.Perm.mem_iff h, List.mem_flatMap]

variable [DecidableEq κ]

/-- A row and a cover of what it leaves. -/
theorem Covers.cons (hH : H.Nodup) (hx : (items x).Nodup) (hsub : ∀ c ∈ items x, c ∈ H)
    (h : Covers items S (H.filter (· ∉ items x))) : Covers items (x :: S) H := by
  have hsplit : (H.filter (· ∈ items x) ++ H.filter (· ∉ items x)).Perm H := by
    simpa using List.filter_append_perm (· ∈ items x) H
  have hitems : (items x).Perm (H.filter (· ∈ items x)) := by
    rw [List.perm_ext_iff_of_nodup hx (hH.filter _)]
    intro c
    simp only [List.mem_filter, decide_eq_true_eq]
    exact ⟨fun hc => ⟨hsub c hc, hc⟩, And.right⟩
  exact (hitems.append h).trans hsplit

/-- The rest of a cover covers what a row of it leaves. -/
theorem Covers.erase (hH : H.Nodup) {S₁ S₂ : List ι} (h : Covers items (S₁ ++ x :: S₂) H) :
    Covers items (S₁ ++ S₂) (H.filter (· ∉ items x)) := by
  have hmid : (x :: (S₁ ++ S₂)).Perm (S₁ ++ x :: S₂) := List.perm_middle.symm
  have hperm : (items x ++ (S₁ ++ S₂).flatMap items).Perm H := (hmid.flatMap_right items).trans h
  have hdisj := (List.nodup_append.1 (hperm.nodup_iff.2 hH)).2.2
  have hrest : (items x ++ (S₁ ++ S₂).flatMap items).filter (· ∉ items x) = (S₁ ++ S₂).flatMap items := by
    rw [List.filter_append, List.filter_eq_nil_iff.2 (by simp), List.nil_append, List.filter_eq_self]
    intro c hc
    simpa using fun hcx => hdisj c hcx c hc rfl
  unfold Covers
  rw [← hrest]
  exact hperm.filter _
