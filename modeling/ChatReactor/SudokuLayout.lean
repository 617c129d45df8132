import Mathlib.Data.List.GetD
import Mathlib.Data.List.Rotate
import Mathlib.Tactic.IntervalCases
import ChatReactor.DancingSearch

/-!
# The matrix of a Sudoku

A `Layout` is what the constructor of `SudokuSolver` lays out: the names of the columns and the candidates, in the
order in which the loops come to them. The column of the `k`-th name is node `k + 1`; the rows follow, four nodes
for each candidate. `Layout.matrix` is the matrix of these nodes. Its solutions are the choices of candidates that
cover the names exactly (`exists_solution_of_covers`, `Matrix.Solution.covers`).
-/

namespace ChatReactor

open Nodes (root)
open SudokuSolver (rowOf colOf boxOf getRowCol getColCol getBoxCol)

/-- The columns of a candidate: the cell, and the digit in its row, column and box. -/
def itemNames (p : Nat × Nat) : List Nat :=
  [p.1, getRowCol (rowOf p.1) p.2, getColCol (colOf p.1) p.2, getBoxCol (boxOf p.1) p.2]

variable {p : Nat × Nat}

theorem itemNames_iff {n : Nat} : n ∈ itemNames p ↔ n = p.1 ∨ n = getRowCol (rowOf p.1) p.2 ∨
    n = getColCol (colOf p.1) p.2 ∨ n = getBoxCol (boxOf p.1) p.2 := by
  simp only [itemNames, List.mem_cons, List.not_mem_nil, or_false]

/-- The name below 100 is the cell. -/
theorem cell_of_name {n : Nat} (hn : n ∈ itemNames p) (hlt : n < 100) : n = p.1 := by
  rw [itemNames_iff] at hn
  simp only [getRowCol, getColCol, getBoxCol, kRow, kCol, kBox] at hn
  omega

/-- The last digit of the others is the value. -/
theorem val_of_name {n : Nat} (hn : n ∈ itemNames p) (hle : 100 ≤ n) (hi : p.1 < 81) (hv : p.2 ≤ 9) : n % 10 = p.2 := by
  rw [itemNames_iff] at hn
  simp only [getRowCol, getColCol, getBoxCol, kRow, kCol, kBox] at hn
  omega

structure Layout where
  names : List Nat
  cands : List (Nat × Nat)
  names_nodup : names.Nodup
  names_le : names.length ≤ 81 * 4
  cands_le : cands.length ≤ 9 * 9 * 9
  cands_lt : ∀ p ∈ cands, p.1 < 81 ∧ 1 ≤ p.2 ∧ p.2 ≤ 9
  items_mem : ∀ p ∈ cands, ∀ n ∈ itemNames p, n ∈ names

variable {x : Nat}

namespace Layout
variable (L : Layout)

/-- The first node of a row. -/
def base : Nat := L.names.length + 1

/-- The names of the nodes of the rows. -/
def nodeNames : List Nat := L.cands.flatMap itemNames

def nameAt (x : Nat) : Nat := L.nodeNames.getD (x - L.base) 0

/-- The column with a name. -/
def headOf (n : Nat) : Nat := L.names.idxOf n + 1

def colAt (x : Nat) : Nat := L.headOf (L.nameAt x)

def candAt (x : Nat) : Nat × Nat := L.cands.getD ((x - L.base) / 4) (0, 0)

/-- The `t`-th node of the row of the `q`-th candidate. -/
def place (q t : Nat) : Nat := L.base + (4 * q + t)

/-- The other three nodes of a row. -/
def othersAt (x : Nat) : List Nat := [1, 2, 3].map fun k => L.place ((x - L.base) / 4) (((x - L.base) % 4 + k) % 4)

/-- The end of the nodes. -/
def top : Nat := L.base + 4 * L.cands.length

variable {L}

theorem top_le : L.top ≤ kMaxNodes := by
  have h₁ := L.names_le
  have h₂ := L.cands_le
  simp only [top, base, kMaxNodes]
  omega

theorem getD_flatMap_itemNames (cands : List (Nat × Nat)) (q t : Nat) (hq : q < cands.length) (ht : t < 4) :
    (cands.flatMap itemNames).getD (4 * q + t) 0 = (itemNames (cands.getD q (0, 0))).getD t 0 := by
  induction cands generalizing q with
  | nil => simp at hq
  | cons p l ih =>
    rw [List.flatMap_cons]
    cases q with
    | zero => rw [List.getD_append _ _ _ _ (by simp [itemNames]; omega)]; simp
    | succ q =>
      rw [List.getD_append_right _ _ _ _ (by simp [itemNames]; omega)]
      have : 4 * (q + 1) + t - (itemNames p).length = 4 * q + t := by simp [itemNames]; omega
      rw [this, ih q (by simpa using hq)]
      simp

section
variable {q t : Nat}

theorem exists_place (hx : L.base ≤ x) (hx' : x < L.top) : ∃ q t, q < L.cands.length ∧ t < 4 ∧ x = L.place q t := by
  refine ⟨(x - L.base) / 4, (x - L.base) % 4, ?_, Nat.mod_lt _ (by omega), ?_⟩
  · simp only [top] at hx'
    omega
  · simp only [place]
    omega

theorem exists_place_of_mem (hx : x ∈ List.range' L.base (4 * L.cands.length)) :
    ∃ q t, q < L.cands.length ∧ t < 4 ∧ x = L.place q t := by
  obtain ⟨hbase, htop⟩ := List.mem_range'_1.1 hx
  exact exists_place hbase htop

theorem place_lt (hq : q < L.cands.length) (ht : t < 4) : L.place q t < L.top := by
  simp only [place, top]
  omega

theorem nameAt_place (hq : q < L.cands.length) (ht : t < 4) :
    L.nameAt (L.place q t) = (itemNames (L.cands.getD q (0, 0))).getD t 0 := by
  rw [nameAt, place, Nat.add_sub_cancel_left, nodeNames, getD_flatMap_itemNames _ q t hq ht]

theorem candAt_place (ht : t < 4) : L.candAt (L.place q t) = L.cands.getD q (0, 0) := by
  have hdiv : (4 * q + t) / 4 = q := by omega
  rw [candAt, place, Nat.add_sub_cancel_left, hdiv]

theorem othersAt_place (ht : t < 4) :
    L.othersAt (L.place q t) = [L.place q ((t + 1) % 4), L.place q ((t + 2) % 4), L.place q ((t + 3) % 4)] := by
  have hdiv : (4 * q + t) / 4 = q := by omega
  have hmod : (4 * q + t) % 4 = t := by omega
  simp only [othersAt, place, Nat.add_sub_cancel_left, hdiv, hmod, List.map_cons, List.map_nil]

/-- A row from any of its nodes on is the row. -/
theorem row_perm (ht : t < 4) : (L.place q t :: L.othersAt (L.place q t)).Perm
    [L.place q 0, L.place q 1, L.place q 2, L.place q 3] := by
  rw [othersAt_place ht]
  have hrot : ∀ k, (List.rotate [L.place q 0, L.place q 1, L.place q 2, L.place q 3] k).Perm _ :=
    fun k => List.rotate_perm _ k
  interval_cases t
  · exact .refl _
  · exact hrot 1
  · exact hrot 2
  · exact hrot 3

theorem exists_of_mem_others (ht : t < 4) {y : Nat} (hy : y ∈ L.othersAt (L.place q t)) : ∃ t' < 4, y = L.place q t' := by
  rw [othersAt_place ht] at hy
  simp only [List.mem_cons, List.not_mem_nil, or_false] at hy
  rcases hy with rfl | rfl | rfl
  · exact ⟨_, Nat.mod_lt _ (by decide), rfl⟩
  · exact ⟨_, Nat.mod_lt _ (by decide), rfl⟩
  · exact ⟨_, Nat.mod_lt _ (by decide), rfl⟩

/-- The names of a row. -/
theorem map_nameAt_row (hq : q < L.cands.length) :
    [L.place q 0, L.place q 1, L.place q 2, L.place q 3].map L.nameAt = itemNames (L.cands.getD q (0, 0)) := by
  simp only [List.map_cons, List.map_nil, nameAt_place hq (by decide : 0 < 4), nameAt_place hq (by decide : 1 < 4),
    nameAt_place hq (by decide : 2 < 4), nameAt_place hq (by decide : 3 < 4)]
  rfl

theorem cand_mem (hq : q < L.cands.length) : L.cands.getD q (0, 0) ∈ L.cands := by
  rw [List.getD_eq_getElem _ _ hq]
  exact List.getElem_mem hq

end

theorem itemNames_nodup (hp : p ∈ L.cands) : (itemNames p).Nodup := by
  obtain ⟨hi, hv, hv'⟩ := L.cands_lt p hp
  simp only [itemNames, getRowCol, getColCol, getBoxCol, kRow, kCol, kBox, rowOf, colOf, boxOf, List.nodup_cons,
    List.mem_cons, List.not_mem_nil, or_false, not_or, not_false_eq_true, List.nodup_nil, and_true]
  omega

theorem headOf_inj {n n' : Nat} (hn : n ∈ L.names) (h : L.headOf n = L.headOf n') : n = n' :=
  (List.idxOf_inj hn).1 (Nat.succ.inj h)

/-- The columns of a row are those of its candidate. -/
theorem items_perm {q t : Nat} (hq : q < L.cands.length) (ht : t < 4) :
    ((L.place q t :: L.othersAt (L.place q t)).map L.colAt).Perm
      ((itemNames (L.cands.getD q (0, 0))).map L.headOf) := by
  rw [← map_nameAt_row hq, List.map_map]
  exact (row_perm ht).map L.colAt

theorem items_nodup_place {q t : Nat} (hq : q < L.cands.length) (ht : t < 4) :
    ((L.place q t :: L.othersAt (L.place q t)).map L.colAt).Nodup := by
  have hp := L.cand_mem hq
  rw [(items_perm hq ht).nodup_iff]
  refine (itemNames_nodup hp).map_on fun n hn n' _ h => headOf_inj (L.items_mem _ hp n hn) h

theorem nameAt_mem (hx : L.base ≤ x) (hx' : x < L.top) : L.nameAt x ∈ L.names := by
  obtain ⟨q, t, hq, ht, rfl⟩ := exists_place hx hx'
  refine L.items_mem _ (cand_mem hq) _ ?_
  have hlen : t < (itemNames (L.cands.getD q (0, 0))).length := ht
  rw [nameAt_place hq ht, List.getD_eq_getElem _ _ hlen]
  exact List.getElem_mem hlen

theorem colAt_lt (hx : L.base ≤ x) (hx' : x < L.top) : 1 ≤ L.colAt x ∧ L.colAt x < L.base := by
  have := List.idxOf_lt_length_iff.2 (nameAt_mem hx hx')
  simp only [colAt, headOf, base]
  omega

/-- The nodes of a column, of those before `n`. -/
def upTo (L : Layout) (n d : Nat) : List Nat := (List.range' L.base (n - L.base)).filter fun x => L.colAt x = d

theorem mem_upTo {n d : Nat} (h : x ∈ L.upTo n d) : L.base ≤ x ∧ x < n := by
  have := List.mem_range'_1.1 (List.mem_of_mem_filter h)
  omega

theorem upTo_succ {n d : Nat} (hn : L.base ≤ n) :
    L.upTo (n + 1) d = L.upTo n d ++ if L.colAt n = d then [n] else [] := by
  have hrange : List.range' L.base (n + 1 - L.base) = List.range' L.base (n - L.base) ++ [n] := by
    have : n + 1 - L.base = (n - L.base) + 1 := by omega
    rw [this, List.range'_concat, Nat.one_mul, Nat.add_sub_cancel' hn]
  rw [upTo, hrange, List.filter_append, List.filter_singleton]
  simp [upTo]

end Layout

open Layout in
/-- The matrix with all its rows. -/
def Layout.matrix (L : Layout) : Matrix where
  heads := List.range' 1 L.names.length
  nodes := List.range' L.base (4 * L.cands.length)
  col := L.colAt
  name := L.nameAt
  others := L.othersAt
  nodes_nodup := List.nodup_range'
  root_heads := by simp [root]
  heads_nodes c hc := by
    simp only [List.mem_range'_1, base] at hc ⊢
    omega
  heads_le := by
    have := L.names_le
    simp only [List.length_range', kMaxNodes]
    omega
  nodes_le := by
    have := L.cands_le
    simp only [List.length_range', kMaxNodes]
    omega
  others_mem x hx y hy := by
    obtain ⟨q, t, hq, ht, rfl⟩ := exists_place_of_mem hx
    obtain ⟨t', ht', rfl⟩ := exists_of_mem_others ht hy
    exact List.mem_range'_1.2 ⟨Nat.le_add_right _ _, place_lt hq ht'⟩
  same_row x hx y hy := by
    obtain ⟨q, t, hq, ht, rfl⟩ := exists_place_of_mem hx
    obtain ⟨t', ht', rfl⟩ := exists_of_mem_others ht hy
    exact (row_perm ht').trans (row_perm ht).symm
  items_nodup x hx := by
    obtain ⟨q, t, hq, ht, rfl⟩ := exists_place_of_mem hx
    exact items_nodup_place hq ht

namespace Layout
variable {L : Layout}

theorem mem_nodes : x ∈ L.matrix.nodes ↔ ∃ q t, q < L.cands.length ∧ t < 4 ∧ x = L.place q t := by
  constructor
  · exact exists_place_of_mem
  · rintro ⟨q, t, hq, ht, rfl⟩
    exact List.mem_range'_1.2 ⟨Nat.le_add_right _ _, place_lt hq ht⟩

/-- The names along a row. -/
theorem row_name {q t y : Nat} (hq : q < L.cands.length) (ht : t < 4)
    (hy : y ∈ L.place q t :: L.othersAt (L.place q t)) : L.nameAt y ∈ itemNames (L.cands.getD q (0, 0)) := by
  rw [← map_nameAt_row hq]
  exact List.mem_map_of_mem ((row_perm ht).mem_iff.1 hy)

/-- `solve` reads the candidate off a row, wherever it starts. -/
theorem readable (L : Layout) : Readable L.matrix (fun x => (L.candAt x).1) fun x => (L.candAt x).2 where
  cell_eq x hx y hy hname := by
    obtain ⟨q, t, hq, ht, rfl⟩ := mem_nodes.1 hx
    rw [candAt_place ht]
    exact cell_of_name (row_name hq ht hy) hname
  val_eq x hx y hy hname := by
    obtain ⟨q, t, hq, ht, rfl⟩ := mem_nodes.1 hx
    obtain ⟨hi, -, hv⟩ := L.cands_lt _ (cand_mem hq)
    rw [candAt_place ht]
    exact val_of_name (row_name hq ht hy) hname hi hv
  has_cell x hx := by
    obtain ⟨q, t, hq, ht, rfl⟩ := mem_nodes.1 hx
    obtain ⟨hi, -⟩ := L.cands_lt _ (cand_mem hq)
    refine ⟨L.place q 0, (row_perm ht).mem_iff.2 (by simp), ?_⟩
    change L.nameAt _ < 100
    rw [nameAt_place hq (by decide)]
    simp only [itemNames, List.getD_cons_zero]
    omega
  has_val x hx := by
    obtain ⟨q, t, hq, ht, rfl⟩ := mem_nodes.1 hx
    refine ⟨L.place q 1, (row_perm ht).mem_iff.2 (by simp), ?_⟩
    change 100 ≤ L.nameAt _
    rw [nameAt_place hq (by decide)]
    simp only [itemNames, List.getD_cons_zero, List.getD_cons_succ, getRowCol, kRow]
    omega

/-! ## Solutions and candidates -/

theorem heads_eq : L.matrix.heads = L.names.map L.headOf := by
  apply List.ext_getElem
  · simp [matrix]
  · intro k hk hk'
    have hlt : k < L.names.length := by simpa using hk'
    simp only [matrix, List.getElem_range', List.getElem_map, headOf, L.names_nodup.idxOf_getElem k hlt]
    omega

/-- The name of a column. -/
def nameOf (L : Layout) (d : Nat) : Nat := L.names.getD (d - 1) 0

theorem nameOf_headOf {n : Nat} (hn : n ∈ L.names) : L.nameOf (L.headOf n) = n := by
  have hlt := List.idxOf_lt_length_iff.2 hn
  rw [nameOf, headOf, Nat.add_sub_cancel, List.getD_eq_getElem _ _ hlt, List.getElem_idxOf]

theorem items_perm_candAt (hx : x ∈ L.matrix.nodes) :
    (L.matrix.items x).Perm ((itemNames (L.candAt x)).map L.headOf) := by
  obtain ⟨q, t, hq, ht, rfl⟩ := mem_nodes.1 hx
  rw [candAt_place ht]
  exact items_perm hq ht

theorem candAt_mem (hx : x ∈ L.matrix.nodes) : L.candAt x ∈ L.cands := by
  obtain ⟨q, t, hq, ht, rfl⟩ := mem_nodes.1 hx
  rw [candAt_place ht]
  exact cand_mem hq

/-- With all its columns the matrix has all its rows. -/
theorem live (hx : x ∈ L.matrix.nodes) : L.matrix.Live L.matrix.heads x := by
  intro c hc
  obtain ⟨n, hn, rfl⟩ := List.mem_map.1 ((items_perm_candAt hx).mem_iff.1 hc)
  rw [heads_eq]
  exact List.mem_map_of_mem (L.items_mem _ (candAt_mem hx) n hn)

theorem column_eq (d : Nat) : L.matrix.column L.matrix.heads d = L.upTo L.top d := by
  have hlen : L.top - L.base = 4 * L.cands.length := Nat.add_sub_cancel_left _ _
  rw [Matrix.column, upTo, hlen]
  refine List.filter_congr fun x hx => ?_
  simp only [live hx, and_true]
  rfl

theorem flatMap_items_perm {S : List Nat} (hS : ∀ x ∈ S, x ∈ L.matrix.nodes) :
    (S.flatMap L.matrix.items).Perm (((S.map L.candAt).flatMap itemNames).map L.headOf) := by
  rw [List.map_flatMap, List.flatMap_map]
  exact List.Perm.flatMap_left _ fun x hx => items_perm_candAt (hS x hx)

/-- The candidates of a solution cover the names. -/
theorem covers_of_solution {S : List Nat} (h : L.matrix.Solution L.matrix.heads S) :
    Covers itemNames (S.map L.candAt) L.names := by
  have hsub : ∀ n ∈ (S.map L.candAt).flatMap itemNames, n ∈ L.names := by
    intro n hn
    obtain ⟨p, hp, hnp⟩ := List.mem_flatMap.1 hn
    obtain ⟨x, hx, rfl⟩ := List.mem_map.1 hp
    exact L.items_mem _ (candAt_mem (h.1 x hx)) n hnp
  have hback : ∀ {l : List Nat}, (∀ n ∈ l, n ∈ L.names) → (l.map L.headOf).map L.nameOf = l := by
    intro l hl
    rw [List.map_map]
    exact (List.map_congr_left fun n hn => nameOf_headOf (hl n hn)).trans (List.map_id l)
  have hperm : (((S.map L.candAt).flatMap itemNames).map L.headOf).Perm (L.names.map L.headOf) := by
    rw [← heads_eq]
    exact (flatMap_items_perm h.1).symm.trans h.2
  have hnames := hperm.map L.nameOf
  rwa [hback hsub, hback fun n hn => hn] at hnames

/-- Candidates that cover the names are the rows of a solution. -/
theorem exists_solution_of_covers {C : List (Nat × Nat)} (hC : ∀ p ∈ C, p ∈ L.cands) (h : Covers itemNames C L.names) :
    ∃ S, L.matrix.Solution L.matrix.heads S := by
  let node (p : Nat × Nat) : Nat := L.place (L.cands.idxOf p) 0
  have hidx : ∀ p ∈ C, L.cands.idxOf p < L.cands.length := fun p hp => List.idxOf_lt_length_iff.2 (hC p hp)
  have hnodes : ∀ x ∈ C.map node, x ∈ L.matrix.nodes := by
    intro x hx
    obtain ⟨p, hp, rfl⟩ := List.mem_map.1 hx
    exact mem_nodes.2 ⟨_, 0, hidx p hp, by decide, rfl⟩
  have hcand : (C.map node).map L.candAt = C := by
    rw [List.map_map]
    refine (List.map_congr_left fun p hp => ?_).trans (List.map_id C)
    change L.candAt (L.place _ 0) = p
    rw [candAt_place (by decide), List.getD_eq_getElem _ _ (hidx p hp), List.getElem_idxOf]
  have hperm := flatMap_items_perm hnodes
  rw [hcand] at hperm
  refine ⟨C.map node, hnodes, hperm.trans ?_⟩
  rw [heads_eq]
  exact h.map L.headOf

end Layout

end ChatReactor
