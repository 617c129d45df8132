import Mathlib.Order.Lattice
import Mathlib.Data.List.Nodup
import Mathlib.Data.List.Perm.Subperm

/-!
# Ordered sets

A finite set as an ordered container keeps it: its elements in strictly increasing order, so that an
iteration meets them in that order and the elements before a lower bound are the first ones. The
order is part of the type, and membership, size and the two halves around a lower bound say the rest.
-/

/-- The elements of an ordered container, smallest first. -/
structure OrdSet (α : Type) [LinearOrder α] where
  elems : List α
  sorted : elems.Pairwise (· < ·)

namespace OrdSet
variable {α β : Type} [LinearOrder α] [LinearOrder β]

instance : Membership α (OrdSet α) := ⟨fun s a => a ∈ s.elems⟩

instance (a : α) (s : OrdSet α) : Decidable (a ∈ s) := inferInstanceAs (Decidable (a ∈ s.elems))

variable {s : OrdSet α}

theorem mem_def {a : α} : a ∈ s ↔ a ∈ s.elems := Iff.rfl

def empty : OrdSet α := ⟨[], .nil⟩

def size (s : OrdSet α) : Nat := s.elems.length

@[simp] theorem not_mem_empty (a : α) : a ∉ (empty : OrdSet α) := by simp [mem_def, empty]

theorem nodup (s : OrdSet α) : s.elems.Nodup := s.sorted.imp fun h => ne_of_lt h

theorem head_le {a x : α} (h : s.elems.head? = some a) (hx : x ∈ s) : a ≤ x := by
  obtain ⟨l, hl⟩ := List.head?_eq_some_iff.1 h
  have hsorted := s.sorted
  rw [mem_def, hl] at hx
  rw [hl] at hsorted
  rcases List.mem_cons.1 hx with rfl | hx
  · exact le_rfl
  · exact (List.rel_of_pairwise_cons hsorted hx).le

/-- The list with `a` put at its place. -/
def place (a : α) : List α → List α
  | [] => [a]
  | b :: l => if a < b then a :: b :: l else if b < a then b :: place a l else b :: l

theorem mem_place (a x : α) : ∀ l : List α, x ∈ place a l ↔ x = a ∨ x ∈ l
  | [] => by simp [place]
  | b :: l => by
    rw [place]
    split
    · simp
    · split
      · rw [List.mem_cons, mem_place a x l, List.mem_cons]
        exact or_left_comm
      · rename_i hab hba
        have hb : a = b := le_antisymm (not_lt.1 hba) (not_lt.1 hab)
        simp [hb]

theorem place_sorted (a : α) : ∀ {l : List α}, l.Pairwise (· < ·) → (place a l).Pairwise (· < ·)
  | [], _ => by simp [place]
  | b :: l, h => by
    obtain ⟨hb, hl⟩ := List.pairwise_cons.1 h
    rw [place]
    split
    · rename_i hab
      refine List.pairwise_cons.2 ⟨fun x hx => ?_, h⟩
      rcases List.mem_cons.1 hx with rfl | hx
      · exact hab
      · exact hab.trans (hb x hx)
    · split
      · rename_i hba
        refine List.pairwise_cons.2 ⟨fun x hx => ?_, place_sorted a hl⟩
        rcases (mem_place a x l).1 hx with rfl | hx
        · exact hba
        · exact hb x hx
      · exact h

def insert (s : OrdSet α) (a : α) : OrdSet α := ⟨place a s.elems, place_sorted a s.sorted⟩

def erase (s : OrdSet α) (a : α) : OrdSet α := ⟨s.elems.erase a, s.sorted.sublist List.erase_sublist⟩

/-- The elements before the lower bound of `x`, in order. -/
def below (s : OrdSet α) (x : α) : List α := s.elems.filter (· < x)

/-- The elements from the lower bound of `x` on. -/
def drop (s : OrdSet α) (x : α) : OrdSet α := ⟨s.elems.filter fun a => ¬ a < x, s.sorted.filter _⟩

/-- The element behind `x`, where an iterator at `x` goes. -/
def next (s : OrdSet α) (x : α) : Option α := (s.elems.filter (x < ·)).head?

/-- Behind the first element is the second. -/
theorem next_first {x : α} {l : List α} (h : s.elems = x :: l) : s.next x = l.head? := by
  have hsorted := s.sorted
  rw [h] at hsorted
  have hl : l.filter (x < ·) = l := List.filter_eq_self.2 fun y hy => by simpa using List.rel_of_pairwise_cons hsorted hy
  simp [next, h, hl]

@[simp] theorem mem_insert {a x : α} : x ∈ s.insert a ↔ x = a ∨ x ∈ s := mem_place a x s.elems

@[simp] theorem mem_erase {a x : α} : x ∈ s.erase a ↔ x ≠ a ∧ x ∈ s := s.nodup.mem_erase_iff

@[simp] theorem mem_drop {a x : α} : a ∈ s.drop x ↔ a ∈ s ∧ ¬ a < x := by simp [drop, mem_def]

/-- A set that maps injectively into another is not larger. -/
theorem size_le_of_maps {t : OrdSet β} (f : α → β) (hf : ∀ a ∈ s, f a ∈ t)
    (hinj : ∀ a ∈ s, ∀ b ∈ s, f a = f b → a = b) : s.size ≤ t.size := by
  have hnodup : (s.elems.map f).Nodup := s.nodup.map_on hinj
  have hsub : s.elems.map f ⊆ t.elems := by
    intro b hb
    obtain ⟨a, ha, rfl⟩ := List.mem_map.1 hb
    exact hf a ha
  simpa [size] using (hnodup.subperm hsub).length_le

end OrdSet
