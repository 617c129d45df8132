import Mathlib.Data.Finset.Card
import Mathlib.Order.Interval.Finset.Nat
import ChatReactor.SudokuSetup

/-!
# `solveSudoku` finds a completion if there is one

Two steps are left between the search and the puzzle. The exact covers of the matrix are the completions of the
board: a cover puts every missing digit into every unit, and nine digits in nine cells leave no room for any of them
twice, whatever the givens were; a completion, restricted to the empty cells, is a cover. And a board is the digits
of a puzzle.
-/

namespace ChatReactor

open SudokuSolver (Seen seen values rowOf colOf boxOf getRowCol getColCol getBoxCol)

/-! ## Rows, columns and boxes -/

inductive Kind
  | row | col | box

/-- The unit of a cell. -/
def Kind.of : Kind → Nat → Nat
  | .row => rowOf
  | .col => colOf
  | .box => boxOf

/-- The name of the column for a digit in a unit. -/
def Kind.name : Kind → Nat → Nat → Nat
  | .row => getRowCol
  | .col => getColCol
  | .box => getBoxCol

def Kind.seen (a : Seen) : Kind → Nat → Int → Bool
  | .row => a.rows
  | .col => a.cols
  | .box => a.boxes

variable {i : Nat}

theorem Kind.of_lt (k : Kind) (hi : i < 81) : k.of i < 9 := by
  cases k <;> simp only [Kind.of, rowOf, colOf, boxOf] <;> omega

theorem Kind.name_inj {k k' : Kind} {u u' v v' : Nat} (hu : u < 9) (hu' : u' < 9) (hv : 1 ≤ v ∧ v ≤ 9)
    (hv' : 1 ≤ v' ∧ v' ≤ 9) (h : k.name u v = k'.name u' v') : k = k' ∧ u = u' ∧ v = v' := by
  cases k <;> cases k' <;> simp only [Kind.name, getRowCol, getColCol, getBoxCol, kRow, kCol, kBox] at h <;>
    first
    | exact ⟨rfl, by omega, by omega⟩
    | omega

theorem Kind.le_name (k : Kind) (u v : Nat) : 100 ≤ k.name u v := by
  cases k <;> simp only [Kind.name, getRowCol, getColCol, getBoxCol, kRow, kCol, kBox] <;> omega

theorem mem_itemNames {v n : Nat} : n ∈ itemNames (i, v) ↔ n = i ∨ ∃ k : Kind, n = k.name (k.of i) v := by
  rw [itemNames_iff]
  constructor
  · rintro (rfl | rfl | rfl | rfl)
    exacts [.inl rfl, .inr ⟨.row, rfl⟩, .inr ⟨.col, rfl⟩, .inr ⟨.box, rfl⟩]
  · rintro (rfl | ⟨k, rfl⟩)
    · exact .inl rfl
    · cases k
      exacts [.inr (.inl rfl), .inr (.inr (.inl rfl)), .inr (.inr (.inr rfl))]

variable {board : Nat → Int}

theorem mem_columnNames_iff {n : Nat} : n ∈ columnNames board ↔
    (n < 81 ∧ board n = 0) ∨ ∃ (k : Kind) (u v : Nat), u < 9 ∧ (1 ≤ v ∧ v ≤ 9) ∧
      k.seen (seen board) u v = false ∧ n = k.name u v := by
  rw [mem_columnNames]
  refine or_congr_right ⟨?_, ?_⟩
  · rintro ⟨u, v, hu, hv, h | h | h⟩
    exacts [⟨.row, u, v, hu, hv, h⟩, ⟨.col, u, v, hu, hv, h⟩, ⟨.box, u, v, hu, hv, h⟩]
  · rintro ⟨k, u, v, hu, hv, h⟩
    cases k
    exacts [⟨u, v, hu, hv, .inl h⟩, ⟨u, v, hu, hv, .inr (.inl h)⟩, ⟨u, v, hu, hv, .inr (.inr h)⟩]

theorem excluded_eq_false {a : Seen} {v : Nat} : excluded a i v = false ↔ ∀ k : Kind, k.seen a (k.of i) v = false := by
  simp only [excluded, Bool.or_eq_false_iff]
  constructor
  · rintro ⟨⟨hr, hc⟩, hb⟩ k
    cases k
    exacts [hr, hc, hb]
  · exact fun h => ⟨⟨h .row, h .col⟩, h .box⟩

/-! ## What the givens say -/

theorem mark_eq_true {a : Nat → Int → Bool} {u r : Nat} {val v : Int} :
    SudokuSolver.mark a u val r v = true ↔ a r v = true ∨ u = r ∧ val = v := by
  unfold SudokuSolver.mark
  by_cases hr : r = u
  · subst hr
    by_cases hv : v = val
    · subst hv
      simp
    · simp [hv, Ne.symm hv]
  · simp [hr, Ne.symm hr]

/-- A digit is seen in a unit if a cell of it has it. -/
theorem seen_eq_true (k : Kind) {u : Nat} {v : Int} :
    k.seen (seen board) u v = true ↔ ∃ i < 81, k.of i = u ∧ board i = v := by
  have hloop : ∀ (l : List Nat) (a : Seen),
      k.seen (l.foldl (fun a i => ⟨SudokuSolver.mark a.rows (rowOf i) (board i),
        SudokuSolver.mark a.cols (colOf i) (board i), SudokuSolver.mark a.boxes (boxOf i) (board i)⟩) a) u v = true ↔
      k.seen a u v = true ∨ ∃ i ∈ l, k.of i = u ∧ board i = v := by
    intro l
    induction l with
    | nil => simp
    | cons i l ih =>
      intro a
      rw [List.foldl_cons, ih, List.exists_mem_cons_iff, ← or_assoc]
      refine or_congr_left ?_
      cases k <;> exact mark_eq_true
  rw [seen, hloop]
  have : k.seen ⟨fun _ _ => false, fun _ _ => false, fun _ _ => false⟩ u v = false := by cases k <;> rfl
  simp [this, kCells]

/-! ## Completions of a board -/

/-- Digits everywhere, the givens among them, and every digit once in every unit. -/
structure Completes (board w : Nat → Int) : Prop where
  digit : ∀ i < 81, 1 ≤ w i ∧ w i ≤ 9
  given : ∀ i < 81, board i ≠ 0 → w i = board i
  unit : ∀ (k : Kind) (u : Nat), u < 9 → ∀ v : Int, 1 ≤ v → v ≤ 9 → ∃! i, i < 81 ∧ k.of i = u ∧ w i = v

theorem Kind.card_cells (k : Kind) : ∀ u < 9, ((Finset.range 81).filter fun i => k.of i = u).card = 9 := by
  cases k <;> decide +kernel

/-- Nine cells for nine digits: a digit that is nowhere missing is nowhere twice. -/
theorem unit_unique {w : Nat → Int} (k : Kind) {u : Nat} (hu : u < 9) (hdigit : ∀ i < 81, 1 ≤ w i ∧ w i ≤ 9)
    (hsurj : ∀ v : Int, 1 ≤ v → v ≤ 9 → ∃ i < 81, k.of i = u ∧ w i = v) {j : Nat} (hi : i < 81) (hj : j < 81)
    (hiu : k.of i = u) (hju : k.of j = u) (h : w i = w j) : i = j := by
  have hmem : ∀ {i}, i ∈ (Finset.range 81).filter (fun i => k.of i = u) ↔ i < 81 ∧ k.of i = u := by simp
  have hcard : ((Finset.range 81).filter fun i => k.of i = u).card ≤ (Finset.Icc 1 9).card := by
    rw [k.card_cells u hu]
    decide
  refine Finset.inj_on_of_surj_on_of_card_le (fun i _ => (w i).toNat) (fun i hi => ?_) (fun v hv => ?_) hcard
    (hmem.2 ⟨hi, hiu⟩) (hmem.2 ⟨hj, hju⟩) (congrArg Int.toNat h)
  · have := hdigit i (hmem.1 hi).1
    rw [Finset.mem_Icc]
    omega
  · rw [Finset.mem_Icc] at hv
    obtain ⟨i, hi, hiu, hwi⟩ := hsurj v (by omega) (by omega)
    exact ⟨i, hmem.2 ⟨hi, hiu⟩, by omega⟩

/-! ### From a cover to a completion -/

/-- The board with the candidates filled in. -/
def fill (board : Nat → Int) (C : List (Nat × Nat)) : Nat → Int :=
  C.foldl (fun b p => Function.update b p.1 (p.2 : Int)) board

theorem fill_of_not_mem {C : List (Nat × Nat)} (h : ∀ p ∈ C, p.1 ≠ i) : fill board C i = board i := by
  unfold fill
  induction C generalizing board with
  | nil => rfl
  | cons p C ih =>
    obtain ⟨hp, hC⟩ := List.forall_mem_cons.1 h
    rw [List.foldl_cons, ih hC, Function.update_of_ne (Ne.symm hp)]

theorem fill_of_mem {C : List (Nat × Nat)} {v : Nat} (hmem : (i, v) ∈ C) (hone : ∀ p ∈ C, p.1 = i → p.2 = v) :
    fill board C i = v := by
  unfold fill
  induction C generalizing board with
  | nil => simp at hmem
  | cons p C ih =>
    obtain ⟨hp, hC⟩ := List.forall_mem_cons.1 hone
    rw [List.foldl_cons]
    by_cases hin : (i, v) ∈ C
    · exact ih hin hC
    · obtain rfl : p = (i, v) := by simpa [hin, eq_comm] using hmem
      have hnot : ∀ p ∈ C, p.1 ≠ i := by
        rintro ⟨j, v'⟩ hp' rfl
        obtain rfl : v' = v := hC _ hp' rfl
        exact hin hp'
      exact (fill_of_not_mem hnot).trans (Function.update_self _ _ _)

section
variable {board : Nat → Int} {C : List (Nat × Nat)}

/-- Two candidates of a cover have no column in common. -/
theorem cover_unique (h : Covers itemNames C (columnNames board)) {p p' : Nat × Nat} (hp : p ∈ C) (hp' : p' ∈ C) {n : Nat}
    (hn : n ∈ itemNames p) (hn' : n ∈ itemNames p') : p = p' := by
  by_contra hne
  have hnd : (C.flatMap itemNames).Nodup := (List.Perm.nodup_iff h).2 (columnNames_nodup board)
  have hsymm : Std.Symm (Function.onFun List.Disjoint itemNames) := ⟨fun _ _ h => h.symm⟩
  exact (List.nodup_flatMap.1 hnd).2.forall hp hp' hne hn hn'

theorem fill_eq (h : Covers itemNames C (columnNames board)) {v : Nat} (hp : (i, v) ∈ C) : fill board C i = v := by
  refine fill_of_mem hp fun p hp' hpi => ?_
  have := cover_unique h hp' hp (n := i) (by simp [itemNames, hpi]) (by simp [itemNames])
  rw [this]

/-- The cells that were given keep their digits. -/
theorem fill_given (hC : ∀ p ∈ C, p ∈ candidates board) (hi : board i ≠ 0) : fill board C i = board i := by
  refine fill_of_not_mem ?_
  rintro ⟨j, v⟩ hp rfl
  exact hi (mem_candidates.1 (hC _ hp)).2.1

section
variable (hC : ∀ p ∈ C, p ∈ candidates board) (h : Covers itemNames C (columnNames board))
include hC h

/-- An empty cell is filled, because its column is covered. -/
theorem fill_empty (hi : i < 81) (h0 : board i = 0) : 1 ≤ fill board C i ∧ fill board C i ≤ 9 := by
  obtain ⟨⟨j, v⟩, hp, hin⟩ := h.mem_iff.1 (mem_columnNames_iff.2 (.inl ⟨hi, h0⟩))
  obtain ⟨-, -, hv, hv', -⟩ := mem_candidates.1 (hC _ hp)
  rcases mem_itemNames.1 hin with rfl | ⟨k, rfl⟩
  · rw [fill_eq h hp]
    omega
  · have := k.le_name (k.of j) v
    omega

/-- A digit is in a unit, as a given or because the column for it is covered. -/
theorem exists_fill (k : Kind) {u : Nat} (hu : u < 9) {v : Int} (hv : 1 ≤ v) (hv' : v ≤ 9) :
    ∃ i < 81, k.of i = u ∧ fill board C i = v := by
  obtain ⟨v, rfl⟩ := Int.eq_ofNat_of_zero_le (by omega : 0 ≤ v)
  cases hseen : k.seen (seen board) u v with
  | true =>
    obtain ⟨i, hi, hiu, hiv⟩ := (seen_eq_true k).1 hseen
    exact ⟨i, hi, hiu, by rw [fill_given hC (by omega), hiv]⟩
  | false =>
    have hname := mem_columnNames_iff.2 (.inr ⟨k, u, v, hu, ⟨by omega, by omega⟩, hseen, rfl⟩)
    obtain ⟨⟨i, v'⟩, hp, hin⟩ := h.mem_iff.1 hname
    obtain ⟨hi, -, hv1, hv2, -⟩ := mem_candidates.1 (hC _ hp)
    rcases mem_itemNames.1 hin with heq | ⟨k', heq⟩
    · have := k.le_name u v
      omega
    · obtain ⟨rfl, rfl, rfl⟩ := Kind.name_inj hu (k'.of_lt hi) (by omega) ⟨hv1, hv2⟩ heq
      exact ⟨i, hi, rfl, fill_eq h hp⟩

theorem completes_of_covers (hboard : ∀ i < 81, 0 ≤ board i ∧ board i ≤ 9) : Completes board (fill board C) := by
  have hdigit : ∀ i < 81, 1 ≤ fill board C i ∧ fill board C i ≤ 9 := by
    intro i hi
    by_cases h0 : board i = 0
    · exact fill_empty hC h hi h0
    · rw [fill_given hC h0]
      have := hboard i hi
      omega
  refine ⟨hdigit, fun i hi h0 => fill_given hC h0, fun k u hu v hv hv' => ?_⟩
  obtain ⟨i, hi, hiu, hiv⟩ := exists_fill hC h k hu hv hv'
  refine ⟨i, ⟨hi, hiu, hiv⟩, ?_⟩
  rintro j ⟨hj, hju, hjv⟩
  exact unit_unique k hu hdigit (fun _ => exists_fill hC h k hu) hj hi hju hiu (hjv.trans hiv.symm)

end

/-! ### From a completion to a cover -/

/-- What a completion puts into the empty cells. -/
def choices (board w : Nat → Int) : List (Nat × Nat) :=
  ((List.range 81).filter fun i => board i = 0).map fun i => (i, (w i).toNat)

theorem mem_choices {w : Nat → Int} {v : Nat} : (i, v) ∈ choices board w ↔ i < 81 ∧ board i = 0 ∧ (w i).toNat = v := by
  simp only [choices, List.mem_map, List.mem_filter, List.mem_range, decide_eq_true_eq, Prod.mk.injEq]
  constructor
  · rintro ⟨i, ⟨hi, h0⟩, rfl, rfl⟩
    exact ⟨hi, h0, rfl⟩
  · rintro ⟨hi, h0, rfl⟩
    exact ⟨i, ⟨hi, h0⟩, rfl, rfl⟩

section
variable {w : Nat → Int} (h : Completes board w)
include h

/-- A unit has a digit in one cell only. -/
theorem Completes.unique (k : Kind) {j : Nat} (hi : i < 81) (hj : j < 81) (hk : k.of i = k.of j) (hw : w i = w j) :
    i = j := by
  obtain ⟨hv, hv'⟩ := h.digit j hj
  exact (h.unit k (k.of j) (k.of_lt hj) (w j) hv hv').unique ⟨hi, hk, hw⟩ ⟨hj, rfl, rfl⟩

/-- What it puts into an empty cell is not given in any unit of the cell. -/
theorem Completes.choices_sub : ∀ p ∈ choices board w, p ∈ candidates board := by
  rintro ⟨i, v⟩ hp
  obtain ⟨hi, h0, rfl⟩ := mem_choices.1 hp
  have hdigit := h.digit i hi
  refine mem_candidates.2 ⟨hi, h0, by omega, by omega, excluded_eq_false.2 fun k => ?_⟩
  rw [← Bool.not_eq_true]
  intro hseen
  obtain ⟨j, hj, hju, hjw⟩ := (seen_eq_true k).1 hseen
  have hwj : w j = w i := by rw [h.given j hj (by omega)]; omega
  obtain rfl := h.unique k hj hi hju hwj
  omega

theorem Completes.choices_nodup : ((choices board w).flatMap itemNames).Nodup := by
  rw [List.nodup_flatMap]
  refine ⟨fun p hp => (layout board).itemNames_nodup (h.choices_sub p hp), ?_⟩
  rw [choices, List.pairwise_map]
  refine (List.nodup_range.filter _).imp_of_mem fun {i j} hi hj hne n hn hn' => hne ?_
  have hi := List.mem_range.1 (List.mem_of_mem_filter hi)
  have hj := List.mem_range.1 (List.mem_of_mem_filter hj)
  have hdi := h.digit i hi
  have hdj := h.digit j hj
  rcases mem_itemNames.1 hn with rfl | ⟨k, rfl⟩ <;> rcases mem_itemNames.1 hn' with heq | ⟨k', heq⟩
  · exact heq
  · have := k'.le_name (k'.of j) (w j).toNat
    omega
  · have := k.le_name (k.of i) (w i).toNat
    omega
  · obtain ⟨rfl, hu, hv⟩ := Kind.name_inj (k.of_lt hi) (k'.of_lt hj) (by omega) (by omega) heq
    exact h.unique k hi hj hu (by omega)

theorem Completes.covers : Covers itemNames (choices board w) (columnNames board) := by
  refine (List.perm_ext_iff_of_nodup h.choices_nodup (columnNames_nodup board)).2 fun n => ?_
  rw [List.mem_flatMap]
  constructor
  · rintro ⟨p, hp, hn⟩
    exact (layout board).items_mem p (h.choices_sub p hp) n hn
  · intro hn
    rcases mem_columnNames_iff.1 hn with ⟨hi, h0⟩ | ⟨k, u, v, hu, ⟨hv, hv'⟩, hseen, rfl⟩
    · exact ⟨(n, (w n).toNat), mem_choices.2 ⟨hi, h0, rfl⟩, mem_itemNames.2 (.inl rfl)⟩
    · obtain ⟨i, ⟨hi, rfl, hiv⟩, -⟩ := h.unit k u hu v (by omega) (by omega)
      have h0 : board i = 0 := by
        by_contra h0
        have : k.seen (seen board) (k.of i) v = true := (seen_eq_true k).2 ⟨i, hi, rfl, by rw [← h.given i hi h0, hiv]⟩
        rw [hseen] at this
        cases this
      exact ⟨(i, v), mem_choices.2 ⟨hi, h0, by omega⟩, mem_itemNames.2 (.inr ⟨k, rfl⟩)⟩

end

end

/-! ## The solver on a board -/

theorem writes_eq_fill {cell val : Nat → Nat} {S : List Nat} :
    writes cell val board S = fill board (S.map fun x => (cell x, val x)) := by
  rw [writes, fill, List.foldl_map]

/-- **The solver** on a board of digits finds a completion, or there is none. -/
theorem solve_board (hboard : ∀ i < 81, 0 ≤ board i ∧ board i ≤ 9) :
    ∃ found s, ((SudokuSolver.new board).bind fun s => s.solve (kMaxNodes + 1)) = some (found, s) ∧
      if found then Completes board s.inout else ∀ w, ¬ Completes board w := by
  obtain ⟨s, hs, hlaid⟩ := new_spec board
  have hrep := hlaid.rep
  rw [hs, Option.bind_some]
  rcases solve_spec (layout board).readable hrep (by simp [hlaid.stack]) (Nat.lt_succ_of_le hrep.heads_le) with
    ⟨t, S, ht, hS, hinout⟩ | ⟨ht, hno⟩
  · refine ⟨true, t, ht, ?_⟩
    have hcov := Layout.covers_of_solution hS
    have hC : ∀ p ∈ S.map (layout board).candAt, p ∈ candidates board := by
      intro p hp
      obtain ⟨x, hx, rfl⟩ := List.mem_map.1 hp
      exact Layout.candAt_mem (hS.1 x hx)
    have hw : t.inout = fill board (S.map (layout board).candAt) := by
      rw [hinout, hlaid.stack, hlaid.inout, List.nil_append]
      exact writes_eq_fill
    rw [if_pos rfl, hw]
    exact completes_of_covers hC hcov hboard
  · refine ⟨false, s, ht, ?_⟩
    rw [if_neg (by decide)]
    intro w hw
    obtain ⟨S, hS⟩ := Layout.exists_solution_of_covers (L := layout board) hw.choices_sub hw.covers
    exact hno S hS

/-! ## Puzzles -/

def digitChar (d : Nat) : UInt8 := UInt8.ofNat (48 + d)

/-- The 81 digits of a completed puzzle: they agree with it wherever it does not have a `0`, and every digit from
1 to 9 is once in every row, column and box. -/
structure IsCompletion (puzzle result : List UInt8) : Prop where
  length : result.length = 81
  digit : ∀ i < 81, ∃ d, 1 ≤ d ∧ d ≤ 9 ∧ result.getD i 0 = digitChar d
  given : ∀ i < 81, puzzle.getD i 0 ≠ digitChar 0 → result.getD i 0 = puzzle.getD i 0
  row : ∀ r < 9, ∀ d, 1 ≤ d → d ≤ 9 → ∃! i, i < 81 ∧ i / 9 = r ∧ result.getD i 0 = digitChar d
  column : ∀ c < 9, ∀ d, 1 ≤ d → d ≤ 9 → ∃! i, i < 81 ∧ i % 9 = c ∧ result.getD i 0 = digitChar d
  box : ∀ b < 9, ∀ d, 1 ≤ d → d ≤ 9 → ∃! i, i < 81 ∧ i / 27 * 3 + i % 9 / 3 = b ∧ result.getD i 0 = digitChar d

theorem Kind.box_of (i : Nat) : Kind.box.of i = i / 27 * 3 + i % 9 / 3 := by
  simp only [Kind.of, boxOf, rowOf, colOf]
  omega

variable {result : List UInt8}

theorem IsCompletion.unit {puzzle : List UInt8} (h : IsCompletion puzzle result) (k : Kind) {u d : Nat} (hu : u < 9)
    (hd : 1 ≤ d) (hd' : d ≤ 9) : ∃! i, i < 81 ∧ k.of i = u ∧ result.getD i 0 = digitChar d := by
  cases k with
  | row => exact h.row u hu d hd hd'
  | col => exact h.column u hu d hd hd'
  | box =>
    simp only [Kind.box_of]
    exact h.box u hu d hd hd'

/-- The numbers of a puzzle. -/
def boardOf (puzzle : List UInt8) (i : Nat) : Int := charValue (puzzle.getD i 0) - 48

theorem charValue_digitChar {d : Nat} (hd : d ≤ 9) : charValue (digitChar d) - 48 = d := by
  interval_cases d <;> decide

theorem eq_digitChar_iff {c : UInt8} {d : Nat} (hd : d ≤ 9) : c = digitChar d ↔ charValue c - 48 = d := by
  have hall : ∀ n : Fin 256, ∀ d : Fin 10, charValue (UInt8.ofNat n) - 48 = (d : Nat) → UInt8.ofNat n = digitChar d := by
    decide +kernel
  constructor
  · rintro rfl
    exact charValue_digitChar hd
  · intro h
    have hc : c = UInt8.ofNat c.toNat := by simp
    rw [hc] at h ⊢
    exact hall ⟨c.toNat, c.toNat_lt⟩ ⟨d, by omega⟩ h

section
variable {puzzle : List UInt8}

/-- A puzzle that can be completed has digits only. -/
theorem IsCompletion.valid (h : IsCompletion puzzle result) : ∀ i < 81, 0 ≤ boardOf puzzle i ∧ boardOf puzzle i ≤ 9 := by
  intro i hi
  by_cases h0 : puzzle.getD i 0 = digitChar 0
  · rw [boardOf, h0, charValue_digitChar (by decide)]
    decide
  · obtain ⟨d, hd, hd', hres⟩ := h.digit i hi
    rw [boardOf, ← h.given i hi h0, hres, charValue_digitChar hd']
    omega

theorem IsCompletion.completes (h : IsCompletion puzzle result) :
    Completes (boardOf puzzle) (boardOf result) where
  digit i hi := by
    obtain ⟨d, hd, hd', hres⟩ := h.digit i hi
    rw [boardOf, hres, charValue_digitChar hd']
    omega
  given i hi h0 := by
    have hne : puzzle.getD i 0 ≠ digitChar 0 := fun he => h0 ((eq_digitChar_iff (by decide)).1 he)
    rw [boardOf, h.given i hi hne]
    rfl
  unit k u hu v hv hv' := by
    obtain ⟨d, rfl⟩ := Int.eq_ofNat_of_zero_le (by omega : 0 ≤ v)
    have hd : d ≤ 9 := by omega
    have hunit := h.unit k hu (by omega : 1 ≤ d) hd
    simp only [eq_digitChar_iff hd] at hunit
    exact hunit

/-- The result that `solveSudoku` makes of a completed board. -/
def resultOf (w : Nat → Int) : List UInt8 := (List.range kCells).map fun i => UInt8.ofInt (w i + 48)

theorem ofInt_digit {v : Int} (hv : 1 ≤ v) (hv' : v ≤ 9) : UInt8.ofInt (v + 48) = digitChar v.toNat := by
  interval_cases v <;> decide

section
variable {board w : Nat → Int} (h : Completes board w)
include h

theorem Completes.getD_resultOf (hi : i < 81) : (resultOf w).getD i 0 = digitChar (w i).toNat := by
  obtain ⟨hv, hv'⟩ := h.digit i hi
  rw [← ofInt_digit hv hv', List.getD_eq_getElem _ _ (by simpa [resultOf, kCells] using hi)]
  simp [resultOf]

theorem Completes.unit_resultOf (k : Kind) {u d : Nat} (hu : u < 9) (hd : 1 ≤ d) (hd' : d ≤ 9) :
    ∃! i, i < 81 ∧ k.of i = u ∧ (resultOf w).getD i 0 = digitChar d := by
  have hw := h.unit k u hu d (by omega) (by omega)
  refine (existsUnique_congr fun i => and_congr_right fun hi => and_congr_right fun _ => ?_).1 hw
  have hdi := h.digit i hi
  rw [h.getD_resultOf hi, eq_digitChar_iff hd', charValue_digitChar (by omega)]
  omega

end

theorem Completes.isCompletion {w : Nat → Int} (h : Completes (boardOf puzzle) w)
    (hvalid : ∀ i < 81, 0 ≤ boardOf puzzle i ∧ boardOf puzzle i ≤ 9) : IsCompletion puzzle (resultOf w) where
  length := by simp [resultOf, kCells]
  digit i hi := by
    obtain ⟨hv, hv'⟩ := h.digit i hi
    exact ⟨(w i).toNat, by omega, by omega, h.getD_resultOf hi⟩
  given i hi h0 := by
    have hb := hvalid i hi
    have hb0 : boardOf puzzle i ≠ 0 := fun he => h0 ((eq_digitChar_iff (by decide)).2 he)
    rw [h.getD_resultOf hi, h.given i hi hb0]
    refine ((eq_digitChar_iff (by omega)).2 ?_).symm
    change boardOf puzzle i = _
    omega
  row _ hr _ hd hd' := h.unit_resultOf .row hr hd hd'
  column _ hc _ hd hd' := h.unit_resultOf .col hc hd hd'
  box b hb d hd hd' := by
    have hunit := h.unit_resultOf .box hb hd hd'
    simp only [Kind.box_of] at hunit
    exact hunit

theorem solveSudoku_valid (hlen : puzzle.length = kCells)
    (hvalid : ∀ i < 81, 0 ≤ boardOf puzzle i ∧ boardOf puzzle i ≤ 9) {found : Bool} {s : SudokuSolver}
    (hsolve : ((SudokuSolver.new (boardOf puzzle)).bind fun s => s.solve (kMaxNodes + 1)) = some (found, s)) :
    solveSudoku puzzle = some (if found then resultOf s.inout else kNoSolution) := by
  obtain ⟨s₀, hs₀, hsolve⟩ := Option.bind_eq_some_iff.1 hsolve
  have hall : ((List.range kCells).all fun i => 0 ≤ boardOf puzzle i ∧ boardOf puzzle i ≤ 9) = true := by
    simpa [kCells] using hvalid
  unfold boardOf at hall hs₀
  simp only [solveSudoku, check_of hlen, Option.bind_eq_bind, Option.bind_some, hall, if_true, hs₀, hsolve]
  rfl

theorem solveSudoku_invalid (hlen : puzzle.length = kCells)
    (hvalid : ¬ ∀ i < 81, 0 ≤ boardOf puzzle i ∧ boardOf puzzle i ≤ 9) : solveSudoku puzzle = some kNoSolution := by
  have hall : ((List.range kCells).all fun i => 0 ≤ boardOf puzzle i ∧ boardOf puzzle i ≤ 9) = false := by
    rw [← Bool.not_eq_true]
    simpa [kCells] using hvalid
  unfold boardOf at hall
  simp only [solveSudoku, check_of hlen, Option.bind_eq_bind, Option.bind_some, hall, Bool.false_eq_true, if_false]

/-- No `assert` fails and every loop ends. -/
theorem solveSudoku_returns (hlen : puzzle.length = kCells) : ∃ result, solveSudoku puzzle = some result := by
  by_cases hvalid : ∀ i < 81, 0 ≤ boardOf puzzle i ∧ boardOf puzzle i ≤ 9
  · obtain ⟨found, s, hsolve, -⟩ := solve_board hvalid
    exact ⟨_, solveSudoku_valid hlen hvalid hsolve⟩
  · exact ⟨_, solveSudoku_invalid hlen hvalid⟩

/-- **`solveSudoku` is sound and complete**: on 81 characters it returns, its result is a completion of the puzzle
exactly if the puzzle has one, and `NoSolution` otherwise. -/
theorem solveSudoku_correct (puzzle : List UInt8) (hlen : puzzle.length = kCells) :
    ∃ result, solveSudoku puzzle = some result ∧
      (IsCompletion puzzle result ↔ ∃ completion, IsCompletion puzzle completion) ∧
      ((¬ ∃ completion, IsCompletion puzzle completion) → result = kNoSolution) := by
  -- with a completion the result is one; without, it says so
  suffices h : ∃ result, solveSudoku puzzle = some result ∧
      ((∃ completion, IsCompletion puzzle completion) → IsCompletion puzzle result) ∧
      ((¬ ∃ completion, IsCompletion puzzle completion) → result = kNoSolution) by
    obtain ⟨result, hres, hcomp, hnone⟩ := h
    exact ⟨result, hres, ⟨fun hr => ⟨result, hr⟩, hcomp⟩, hnone⟩
  by_cases hvalid : ∀ i < 81, 0 ≤ boardOf puzzle i ∧ boardOf puzzle i ≤ 9
  · obtain ⟨found, s, hsolve, hfound⟩ := solve_board hvalid
    refine ⟨_, solveSudoku_valid hlen hvalid hsolve, ?_⟩
    cases found with
    | true =>
      have hresult := Completes.isCompletion hfound hvalid
      exact ⟨fun _ => hresult, fun hno => absurd ⟨_, hresult⟩ hno⟩
    | false =>
      refine ⟨?_, fun _ => rfl⟩
      rintro ⟨completion, hc⟩
      exact absurd hc.completes (hfound _)
  · refine ⟨_, solveSudoku_invalid hlen hvalid, ?_, fun _ => rfl⟩
    rintro ⟨completion, hc⟩
    exact absurd hc.valid hvalid

end

/-- The empty puzzle. -/
theorem solveSudoku_correct_empty : ∃ result, solveSudoku (List.replicate 81 48) = some result ∧
    (IsCompletion (List.replicate 81 48) result ↔ ∃ completion, IsCompletion (List.replicate 81 48) completion) ∧
    ((¬ ∃ completion, IsCompletion (List.replicate 81 48) completion) → result = kNoSolution) :=
  solveSudoku_correct (List.replicate 81 48) List.length_replicate

end ChatReactor
