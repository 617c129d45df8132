import Mathlib.Algebra.Ring.Nat
import Mathlib.Data.List.Basic

/-!
# A log of bounded size that takes an item whole or not at all

An `Offer` is a text with the room it asks for, which is more than the text is long. A log with a capacity takes an offer
if that much room is left, and drops it otherwise. So the log is never full, and it is the concatenation of some of the
texts offered to it, in their order (`offers_kept`).
-/

namespace BoundedLog

variable {α : Type} {cap : Nat}

structure Offer (α : Type) where
  text : List α
  need : Nat
  text_lt : text.length < need

/-- A log that is not full. -/
structure Log (α : Type) (cap : Nat) where
  content : List α
  room : content.length < cap

namespace Log

@[ext] theorem ext {l l' : Log α cap} (h : l.content = l'.content) : l = l' := by
  cases l
  cases l'
  cases h
  rfl

theorem room_append {l : Log α cap} {o : Offer α} (h : l.content.length + o.need ≤ cap) :
    (l.content ++ o.text).length < cap := by
  have := o.text_lt
  rw [List.length_append]
  omega

def offer (l : Log α cap) (o : Offer α) : Log α cap :=
  if h : l.content.length + o.need ≤ cap then ⟨l.content ++ o.text, room_append h⟩ else l

def offers (l : Log α cap) (os : List (Offer α)) : Log α cap := os.foldl offer l

theorem offer_taken {l : Log α cap} {o : Offer α} (h : l.content.length + o.need ≤ cap) :
    (l.offer o).content = l.content ++ o.text := by
  rw [offer, dif_pos h]

theorem offer_dropped {l : Log α cap} {o : Offer α} (h : cap < l.content.length + o.need) : l.offer o = l :=
  dif_neg (Nat.not_le.2 h)

@[simp] theorem offers_nil (l : Log α cap) : l.offers [] = l := rfl

@[simp] theorem offers_cons (l : Log α cap) (o : Offer α) (os : List (Offer α)) :
    l.offers (o :: os) = (l.offer o).offers os := rfl

theorem offers_append (l : Log α cap) (os os' : List (Offer α)) : l.offers (os ++ os') = (l.offers os).offers os' :=
  List.foldl_append

/-- What is in the log are the texts of some of the offers, in order. -/
theorem offers_kept (l : Log α cap) (os : List (Offer α)) :
    ∃ kept : List (Offer α), kept.Sublist os ∧ (l.offers os).content = l.content ++ kept.flatMap Offer.text := by
  induction os generalizing l with
  | nil => exact ⟨[], List.Sublist.slnil, by simp⟩
  | cons o os ih =>
    obtain ⟨kept, hsub, hkept⟩ := ih (l.offer o)
    rw [offers_cons, hkept]
    by_cases h : l.content.length + o.need ≤ cap
    · refine ⟨o :: kept, hsub.cons_cons o, ?_⟩
      rw [offer_taken h, List.flatMap_cons, List.append_assoc]
    · refine ⟨kept, hsub.cons o, ?_⟩
      rw [offer_dropped (Nat.not_le.1 h)]

/-- With room for all of them every offer is taken. -/
theorem offers_all (l : Log α cap) (os : List (Offer α)) (h : l.content.length + (os.map Offer.need).sum ≤ cap) :
    (l.offers os).content = l.content ++ os.flatMap Offer.text := by
  induction os generalizing l with
  | nil => simp
  | cons o os ih =>
    rw [List.map_cons, List.sum_cons] at h
    have htaken : (l.offer o).content = l.content ++ o.text := offer_taken (by omega)
    have hlt := o.text_lt
    rw [offers_cons, ih (l.offer o) (by rw [htaken, List.length_append]; omega), htaken, List.flatMap_cons,
      List.append_assoc]

end Log

end BoundedLog
