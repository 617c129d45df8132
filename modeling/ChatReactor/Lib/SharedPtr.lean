import Mathlib.Logic.Function.Basic
import Mathlib.Data.List.Basic

/-!
# Shared pointers

A heap of objects with use counts. `Counts h ptrs` says that `ptrs` are all the pointers there are: each
count is the number of pointers to the object, and every pointer names an object that was made. Then an
object is `unique` to a pointer exactly if no other pointer names it (`Counts.unique_iff`), and a new
object is named by none of the old ones.
-/

structure SharedHeap (β : Type) where
  mem : Nat → β
  count : Nat → Nat
  next : Nat

namespace SharedHeap
variable {β : Type}

/-- One object with one pointer to it, which is `0`. -/
def single (x : β) : SharedHeap β := ⟨fun _ => x, fun p => if p = 0 then 1 else 0, 1⟩

def unique (h : SharedHeap β) (p : Nat) : Bool := h.count p = 1

/-- A copy of the pointer. -/
def acquire (h : SharedHeap β) (p : Nat) : SharedHeap β := { h with count := Function.update h.count p (h.count p + 1) }

/-- A pointer goes away. -/
def release (h : SharedHeap β) (p : Nat) : SharedHeap β := { h with count := Function.update h.count p (h.count p - 1) }

/-- `p.reset(new T(x))`: afterwards the pointer is `h.next`. -/
def reset (h : SharedHeap β) (p : Nat) (x : β) : SharedHeap β :=
  ⟨Function.update h.mem h.next x, Function.update (Function.update h.count p (h.count p - 1)) h.next 1, h.next + 1⟩

/-- A write through a pointer. -/
def modify (h : SharedHeap β) (p : Nat) (f : β → β) : SharedHeap β :=
  { h with mem := Function.update h.mem p (f (h.mem p)) }

/-- The pointers to the objects are `ptrs`. -/
structure Counts (h : SharedHeap β) (ptrs : List Nat) : Prop where
  count_eq : ∀ p, h.count p = ptrs.count p
  lt_next : ∀ p ∈ ptrs, p < h.next

variable {h : SharedHeap β} {ptrs : List Nat} {p : Nat}

theorem Counts.single (x : β) : (single x).Counts [0] where
  count_eq p := by
    by_cases hp : p = 0
    · simp [SharedHeap.single, hp]
    · simp [SharedHeap.single, hp, Ne.symm hp]
  lt_next p hp := by
    rw [List.mem_singleton.1 hp]
    exact Nat.zero_lt_one

theorem Counts.perm {ptrs' : List Nat} (hc : h.Counts ptrs) (hp : ptrs.Perm ptrs') : h.Counts ptrs' where
  count_eq p := by rw [hc.count_eq, hp.count_eq]
  lt_next p hm := hc.lt_next p (hp.mem_iff.2 hm)

theorem Counts.acquire (hc : h.Counts ptrs) (hp : p ∈ ptrs) : (h.acquire p).Counts (p :: ptrs) where
  count_eq q := by
    by_cases hq : q = p
    · simp [SharedHeap.acquire, hq, hc.count_eq]
    · simp [SharedHeap.acquire, hq, Ne.symm hq, hc.count_eq]
  lt_next q hq := by
    rcases List.mem_cons.1 hq with rfl | hq
    · exact hc.lt_next q hp
    · exact hc.lt_next q hq

theorem Counts.release (hc : h.Counts (p :: ptrs)) : (h.release p).Counts ptrs where
  count_eq q := by
    by_cases hq : q = p
    · simp [SharedHeap.release, hq, hc.count_eq]
    · simp [SharedHeap.release, hq, Ne.symm hq, hc.count_eq]
  lt_next q hq := hc.lt_next q (by simp [hq])

theorem Counts.reset (hc : h.Counts (p :: ptrs)) (x : β) : (h.reset p x).Counts (h.next :: ptrs) where
  count_eq q := by
    by_cases hq : q = h.next
    · -- the name is new
      have hnew : h.next ∉ ptrs := fun hm => Nat.lt_irrefl _ (hc.lt_next _ (by simp [hm]))
      simp [SharedHeap.reset, hq, List.count_eq_zero.2 hnew]
    · by_cases hqp : q = p
      · subst hqp
        simp [SharedHeap.reset, hq, Ne.symm hq, hc.count_eq]
      · simp [SharedHeap.reset, hq, Ne.symm hq, hqp, Ne.symm hqp, hc.count_eq]
  lt_next q hq := by
    rcases List.mem_cons.1 hq with rfl | hq
    · exact Nat.lt_succ_self _
    · exact Nat.lt_succ_of_lt (hc.lt_next q (by simp [hq]))

theorem Counts.modify (hc : h.Counts ptrs) (p : Nat) (f : β → β) : (h.modify p f).Counts ptrs := ⟨hc.count_eq, hc.lt_next⟩

/-- An object is unique to a pointer exactly if no other pointer names it. -/
theorem Counts.unique_iff (hc : h.Counts (p :: ptrs)) : h.unique p = true ↔ p ∉ ptrs := by
  simp [unique, hc.count_eq, List.count_eq_zero]

@[simp] theorem mem_reset_next (x : β) : (h.reset p x).mem h.next = x := by simp [reset]

theorem mem_reset_of_lt {q : Nat} (hq : q < h.next) (x : β) : (h.reset p x).mem q = h.mem q := by
  simp [reset, Nat.ne_of_lt hq]

@[simp] theorem mem_modify_self (f : β → β) : (h.modify p f).mem p = f (h.mem p) := by simp [modify]

theorem mem_modify_of_ne {q : Nat} (hq : q ≠ p) (f : β → β) : (h.modify p f).mem q = h.mem q := by simp [modify, hq]

end SharedHeap
