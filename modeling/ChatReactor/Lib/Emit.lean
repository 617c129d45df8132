/-!
# Loops that build up a list

A program appends entries to a structure, one by one, in nested loops. `Emits all I f out` says: if the state is
the one for the entries so far (`I`), then `f` succeeds and leads to the state for these and `out`, as long as
they are the next entries of the list `all` that is to come out in the end. The rules follow the shape of the
loops, so that a whole loop nest needs a proof of its innermost step only.
-/

variable {S α β : Type} {all : List α} {I : List α → S → Prop} {f g : S → Option S} {out out' : List α}

def Emits (all : List α) (I : List α → S → Prop) (f : S → Option S) (out : List α) : Prop :=
  ∀ (done rest : List α) (s : S), all = done ++ (out ++ rest) → I done s → ∃ s', f s = some s' ∧ I (done ++ out) s'

namespace Emits

theorem skip : Emits all I some [] := by
  intro done rest s _ hs
  exact ⟨s, rfl, by rwa [List.append_nil]⟩

theorem seq (hf : Emits all I f out) (hg : Emits all I g out') :
    Emits all I (fun s => (f s).bind g) (out ++ out') := by
  intro done rest s hall hs
  obtain ⟨s', hs', hI⟩ := hf done (out' ++ rest) s (by rw [hall, List.append_assoc]) hs
  obtain ⟨s'', hs'', hI'⟩ := hg (done ++ out) rest s' (by rw [hall, List.append_assoc, List.append_assoc]) hI
  exact ⟨s'', by simp only [hs', Option.bind_some, hs''], by rwa [← List.append_assoc]⟩

theorem loop {step : S → β → Option S} {out : β → List α} {l : List β}
    (h : ∀ b ∈ l, Emits all I (fun s => step s b) (out b)) : Emits all I (fun s => l.foldlM step s) (l.flatMap out) := by
  induction l with
  | nil => exact skip
  | cons b l ih => exact seq (h b List.mem_cons_self) (ih fun b hb => h b (List.mem_cons_of_mem _ hb))

theorem skipIf (b : Bool) (h : Emits all I f out) :
    Emits all I (fun s => if b then some s else f s) (if b then [] else out) := by
  cases b with
  | false => exact h
  | true => exact skip

/-- The test may read the state, if the invariant fixes its outcome. -/
theorem skipUnless {c : S → Prop} [DecidablePred c] {b : Bool} (hc : ∀ done s, I done s → (c s ↔ b = false))
    (h : Emits all I f out) : Emits all I (fun s => if c s then f s else some s) (if b then [] else out) := by
  intro done rest s hall hs
  obtain ⟨s', hs', hI⟩ := skipIf b h done rest s hall hs
  refine ⟨s', ?_, hI⟩
  rw [← hs']
  simp only [hc done s hs]
  cases b <;> rfl

/-- All of the list, from the start. -/
theorem run (h : Emits all I f all) {s : S} (hs : I [] s) : ∃ s', f s = some s' ∧ I all s' :=
  h [] [] s (by simp) hs

end Emits
