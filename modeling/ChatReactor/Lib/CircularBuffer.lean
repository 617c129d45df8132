import Mathlib.Data.List.Basic

/-!
# Circular buffers as sliding windows

A circular buffer holds at most its capacity; a push into a full one drops the front. `Shows` reads a
buffer as a window over a function of the integers: its last element belongs to `last`, and the front
is implicit. The operations on the buffer are the operations on the window: a push moves it by one,
a change of one element is a change of the function at one point, and what the function does outside
the window does not matter.
-/

/-- At most `capacity` elements, the oldest first. -/
structure CircularBuffer (α : Type) (capacity : Nat) where
  elems : List α
  bounded : elems.length ≤ capacity

namespace CircularBuffer
variable {α : Type} {capacity : Nat}

def size (b : CircularBuffer α capacity) : Nat := b.elems.length

theorem size_le (b : CircularBuffer α capacity) : b.size ≤ capacity := b.bounded

/-- The new buffer, and the buffer after a clear. -/
def empty : CircularBuffer α capacity := ⟨[], Nat.zero_le _⟩

theorem length_drop_over (l : List α) : (l.drop (l.length - capacity)).length ≤ capacity := by
  rw [List.length_drop]
  omega

/-- Append at the back; what is over the capacity is dropped at the front. -/
def pushBack (b : CircularBuffer α capacity) (a : α) : CircularBuffer α capacity :=
  ⟨(b.elems ++ [a]).drop ((b.elems ++ [a]).length - capacity), length_drop_over _⟩

theorem size_pushBack (b : CircularBuffer α capacity) (a : α) : (b.pushBack a).size = min (b.size + 1) capacity := by
  simp only [size, pushBack, List.length_drop, List.length_append, List.length_singleton]
  omega

variable {b : CircularBuffer α capacity}

theorem length_modify_le (i : Nat) (f : α → α) : (b.elems.modify i f).length ≤ capacity := by
  rw [List.length_modify]
  exact b.bounded

/-- Change the element at an index, which has to be one of the buffer. -/
def modify (b : CircularBuffer α capacity) (i : Nat) (f : α → α) : Option (CircularBuffer α capacity) :=
  if i < b.size then some ⟨b.elems.modify i f, length_modify_le i f⟩ else none

/-- Change the last element: there has to be one. -/
def modifyBack (b : CircularBuffer α capacity) (f : α → α) : Option (CircularBuffer α capacity) :=
  b.modify (b.size - 1) f

/-- The buffer holds the values of `f` at the last `size` points up to `last`. -/
def Shows (b : CircularBuffer α capacity) (f : Int → α) (last : Int) : Prop :=
  ∀ i, i < b.size → b.elems[i]? = some (f (last - b.size + 1 + i))

variable {f : Int → α}

/-- Two functions that agree on the window are shown alike. -/
theorem Shows.congr {g : Int → α} {last : Int} (h : b.Shows f last)
    (hg : ∀ t, last - b.size < t → t ≤ last → g t = f t) : b.Shows g last := by
  intro i hi
  rw [h i hi, hg _ (by omega) (by omega)]

/-- A push of the next value moves the window by one. -/
theorem Shows.pushBack {last : Int} (h : b.Shows f last) : (b.pushBack (f (last + 1))).Shows f (last + 1) := by
  intro i hi
  rw [size_pushBack] at hi ⊢
  simp only [CircularBuffer.pushBack, List.getElem?_drop, List.length_append, List.length_singleton]
  change (b.elems ++ _)[b.size + 1 - capacity + i]? = _
  by_cases hlt : b.size + 1 - capacity + i < b.size
  · rw [List.getElem?_append_left hlt, h _ hlt]
    congr 2
    omega
  · -- the pushed element is the last one
    have hi' : b.size + 1 - capacity + i = b.size := by omega
    rw [hi', List.getElem?_append_right (Nat.le_refl b.size), show b.size - b.elems.length = 0 from Nat.sub_self _]
    simp only [List.getElem?_cons_zero]
    congr 2
    omega

/-- A change of one element is a change of the function at its point. -/
theorem Shows.modify {g : Int → α} {last : Int} {op : α → α} {i : Nat} (h : b.Shows f last) (hi : i < b.size)
    (hg : ∀ t, last - b.size < t → t ≤ last → g t = if t = last - b.size + 1 + i then op (f t) else f t) :
    ∃ b', b.modify i op = some b' ∧ b'.size = b.size ∧ b'.Shows g last := by
  refine ⟨⟨b.elems.modify i op, length_modify_le i op⟩, by simp [CircularBuffer.modify, hi], by simp [size], ?_⟩
  intro j hj
  have hsize : (⟨b.elems.modify i op, length_modify_le i op⟩ : CircularBuffer α capacity).size = b.size := by
    simp [size]
  rw [hsize] at hj ⊢
  rw [List.getElem?_modify, h j hj, hg _ (by omega) (by omega)]
  by_cases hij : i = j
  · simp [hij]
  · have hne : ¬ last - (b.size : Int) + 1 + j = last - b.size + 1 + i := by omega
    simp [hij, hne]

/-- The last element belongs to `last`. -/
theorem Shows.modifyBack {g : Int → α} {last : Int} {op : α → α} (h : b.Shows f last) (hb : 0 < b.size)
    (hg : ∀ t, last - b.size < t → t ≤ last → g t = if t = last then op (f t) else f t) :
    ∃ b', b.modifyBack op = some b' ∧ b'.size = b.size ∧ b'.Shows g last := by
  refine h.modify (by omega) fun t h₁ h₂ => ?_
  have hlast : last - (b.size : Int) + 1 + (b.size - 1 : Nat) = last := by omega
  rw [hg t h₁ h₂, hlast]

end CircularBuffer
