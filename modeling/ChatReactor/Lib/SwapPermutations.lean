import Mathlib.GroupTheory.Perm.Fin
import Mathlib.Data.List.FinRange
import Mathlib.Data.Fintype.Perm
import Mathlib.Data.Fintype.Prod

/-!
# All arrangements, by swaps

To arrange `f 0, …, f n` in every way, bring each of them to the front by a swap with `f 0` and arrange the rest. This meets
every permutation of the positions once (`arrangements_eq`): a permutation of `n + 1` positions is a position for the first
one and a permutation of the others.
-/

namespace SwapPermutations

variable {α : Type}

def arrangements : (n : Nat) → (Fin n → α) → List (List α)
  | 0, _ => [[]]
  | n + 1, f => (List.finRange (n + 1)).flatMap fun p =>
    (arrangements n fun i => f (Equiv.swap 0 p i.succ)).map (f p :: ·)

/-- `f` in the order `σ`. -/
def image {n : Nat} (f : Fin n → α) (σ : Equiv.Perm (Fin n)) : List α := List.ofFn fun i => f (σ i)

theorem image_decomposeFin {n : Nat} (f : Fin (n + 1) → α) (p : Fin (n + 1)) (e : Equiv.Perm (Fin n)) :
    image f (Equiv.Perm.decomposeFin.symm (p, e)) = f p :: image (fun i => f (Equiv.swap 0 p i.succ)) e := by
  simp [image, List.ofFn_succ]

/-- The arrangements are the images under all permutations. -/
theorem arrangements_eq (n : Nat) (f : Fin n → α) :
    (arrangements n f : Multiset (List α)) = Finset.univ.val.map (image f) := by
  induction n with
  | zero => rfl
  | succ n ih =>
    have hpairs : (Finset.univ : Finset (Fin (n + 1) × Equiv.Perm (Fin n))).val =
        (List.finRange (n + 1) : Multiset (Fin (n + 1))).bind fun p => Finset.univ.val.map (Prod.mk p) := rfl
    rw [← Multiset.map_univ_val_equiv Equiv.Perm.decomposeFin.symm, hpairs, Multiset.map_map, Multiset.map_bind, arrangements,
      ← Multiset.coe_bind]
    refine Multiset.bind_congr fun p _ => ?_
    rw [← Multiset.map_coe, ih, Multiset.map_map, Multiset.map_map]
    refine Multiset.map_congr rfl fun e _ => ?_
    exact (image_decomposeFin f p e).symm

theorem length_arrangements (n : Nat) (f : Fin n → α) : (arrangements n f).length = n.factorial := by
  rw [← Multiset.coe_card, arrangements_eq, Multiset.card_map]
  have hcard : Fintype.card (Equiv.Perm (Fin n)) = (Fintype.card (Fin n)).factorial := Fintype.card_perm
  rwa [Fintype.card_fin] at hcard

theorem nodup_arrangements {n : Nat} {f : Fin n → α} (h : Function.Injective f) : (arrangements n f).Nodup := by
  rw [← Multiset.coe_nodup, arrangements_eq]
  refine Multiset.Nodup.map (fun σ τ heq => ?_) Finset.univ.nodup
  exact Equiv.ext fun i => h (congrFun (List.ofFn_injective heq) i)

/-- A swap of the first element with another one, in two assignments. -/
theorem ofFn_swap {n : Nat} (f : Fin (n + 1) → α) (p : Fin (n + 1)) :
    ((List.ofFn f).set p (f 0)).set 0 (f p) = List.ofFn fun i => f (Equiv.swap 0 p i) := by
  refine List.ext_getElem (by simp) fun i h h' => ?_
  rw [List.getElem_ofFn]
  generalize hi : (⟨i, _⟩ : Fin (n + 1)) = j
  obtain rfl : j.val = i := congrArg Fin.val hi.symm
  by_cases hzero : j = 0
  · subst hzero
    rw [Equiv.swap_apply_left]
    exact List.getElem_set_self _
  · have hne : 0 ≠ j.val := fun heq => hzero (Fin.ext heq.symm)
    rw [List.getElem_set_ne hne]
    by_cases hp : j = p
    · subst hp
      rw [Equiv.swap_apply_right, List.getElem_set_self]
    · rw [Equiv.swap_apply_of_ne_of_ne hzero hp, List.getElem_set_ne fun heq => hp (Fin.ext heq.symm), List.getElem_ofFn]

end SwapPermutations
