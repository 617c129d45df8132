import ChatReactor.DancingUndo
import ChatReactor.SudokuProofs

/-!
# The matrix that the constructor of `SudokuSolver` makes (`sudoku.cc:24-92`)

`new_spec` says it in terms of the `Layout` of a board, node by node. `Built` says it in terms of the links and the board
alone, for whatever board: the nodes are those of a torus, each column has the size of its ring, and each row is the four
nodes of a digit that fits a cell.
-/

namespace ChatReactor

open Nodes (root)

/-- A digit that fits an empty cell: no cell of its row, column or box has it. -/
structure Candidate (board : Nat → Int) (i v : Nat) : Prop where
  cell_lt : i < 81
  empty : board i = 0
  digit : 1 ≤ v ∧ v ≤ 9
  free : ∀ (k : Kind) (j : Nat), j < 81 → k.of j = k.of i → board j ≠ v

theorem candidate_iff {board : Nat → Int} {i v : Nat} : Candidate board i v ↔ (i, v) ∈ candidates board := by
  have hseen : excluded (SudokuSolver.seen board) i v = false ↔
      ∀ (k : Kind) (j : Nat), j < 81 → k.of j = k.of i → board j ≠ v := by
    rw [excluded_eq_false]
    refine forall_congr' fun k => ?_
    rw [← Bool.not_eq_true, seen_eq_true]
    simp only [not_exists, not_and, ne_eq]
  rw [mem_candidates, hseen]
  constructor
  · exact fun ⟨hlt, hempty, hdigit, hfree⟩ => ⟨hlt, hempty, hdigit.1, hdigit.2, hfree⟩
  · exact fun ⟨hlt, hempty, hmin, hmax, hfree⟩ => ⟨hlt, hempty, ⟨hmin, hmax⟩, hfree⟩

/-- What the constructor should make of a board. -/
structure Built (board : Nat → Int) (s : SudokuSolver) (t : Torus s.nodes) : Prop where
  capacity : s.curNode ≤ kMaxNodes
  /-- there are no other nodes than the root, the headers and the nodes of the columns -/
  nodes : ∀ x < s.curNode, x = root ∨ x ∈ t.heads ∨ ∃ c ∈ t.heads, x ∈ t.column c
  size : ∀ c ∈ t.heads, s.nodes.size c = (t.column c).length
  /-- a node is in the column of its name -/
  column : ∀ c ∈ t.heads, ∀ x ∈ t.column c, s.columns (s.nodes.name x) = some c
  /-- a row ring has the four nodes of a candidate -/
  row : ∀ c ∈ t.heads, ∀ x ∈ t.column c, ∃ i v, Candidate board i v ∧
    ((x :: t.row x).map s.nodes.name).Perm (itemNames (i, v))
  /-- every candidate has a row -/
  candidate : ∀ i v, Candidate board i v → ∃ c ∈ t.heads, ∃ x ∈ t.column c,
    ((x :: t.row x).map s.nodes.name).Perm (itemNames (i, v))

section
variable {board : Nat → Int} {L : Layout} {s : SudokuSolver}

/-- The names along the row of a node. -/
theorem Laid.row_names (h : Laid board L L.cands.length 0 s) {x : Nat} (hx : x ∈ L.matrix.nodes) :
    ((x :: L.othersAt x).map s.nodes.name).Perm (itemNames (L.candAt x)) := by
  have hnames : (x :: L.othersAt x).map s.nodes.name = (x :: L.othersAt x).map L.nameAt :=
    List.map_congr_left fun y hy => h.rep.name y (Matrix.row_mem hx hy)
  obtain ⟨q, t, hq, ht, rfl⟩ := Layout.mem_nodes.1 hx
  rw [hnames, Layout.candAt_place ht, ← Layout.map_nameAt_row hq]
  exact (Layout.row_perm ht).map L.nameAt

/-- A node of the matrix is in its column. -/
theorem Layout.mem_column_colAt {x : Nat} (hx : x ∈ L.matrix.nodes) :
    L.colAt x ∈ L.matrix.heads ∧ x ∈ L.matrix.column L.matrix.heads (L.colAt x) :=
  ⟨live hx _ Matrix.col_mem_items, Matrix.mem_column.2 ⟨hx, rfl, live hx⟩⟩

/-- A node is the root, a header, or a node of the matrix. -/
theorem Layout.lt_top_cases {x : Nat} (hx : x < L.top) : x = root ∨ x ∈ L.matrix.heads ∨ x ∈ L.matrix.nodes := by
  by_cases hbase : x < L.base
  · by_cases hroot : x = root
    · exact .inl hroot
    · refine .inr (.inl (List.mem_range'_1.2 ?_))
      simp only [Layout.base, root] at hbase hroot
      omega
  · exact .inr (.inr (List.mem_range'_1.2 ⟨Nat.not_lt.1 hbase, hx⟩))

/-- The size of a column is the length of its ring. -/
theorem Laid.size_eq (h : Laid board L L.cands.length 0 s) {c : Nat} (hc : c ∈ L.matrix.heads) :
    s.nodes.size c = (L.matrix.column L.matrix.heads c).length := by
  have hrange := List.mem_range'_1.1 hc
  rw [Layout.column_eq]
  exact (h.wired.columns c hrange.1 (by rw [Layout.base]; omega)).2

end

/-- **The constructor** allocates at most `kMaxNodes` nodes, appends no column twice and calls `new_row` for columns that
exist only, and what it makes is the matrix of the board. -/
theorem constructor_built (board : Nat → Int) :
    ∃ (s : SudokuSolver) (t : Torus s.nodes), SudokuSolver.new board = some s ∧ Built board s t := by
  obtain ⟨s, hs, h⟩ := new_spec board
  refine ⟨s, h.rep.torus, hs, ?_⟩
  have hcur : s.curNode = (layout board).top := h.curNode
  constructor
  · rw [hcur]
    exact Layout.top_le
  · intro x hx
    rw [hcur] at hx
    obtain hroot | hhead | hnode := Layout.lt_top_cases hx
    · exact .inl hroot
    · exact .inr (.inl hhead)
    · obtain ⟨hhead, hcolumn⟩ := Layout.mem_column_colAt hnode
      exact .inr (.inr ⟨_, hhead, hcolumn⟩)
  · exact fun c hc => h.size_eq hc
  · intro c _ x hx
    obtain ⟨hnode, rfl, -⟩ := Matrix.mem_column.1 hx
    have hrange := List.mem_range'_1.1 hnode
    rw [h.rep.name x hnode]
    exact h.columns _ (Layout.nameAt_mem hrange.1 hrange.2)
  · intro c _ x hx
    have hnode := (Matrix.mem_column.1 hx).1
    exact ⟨_, _, candidate_iff.2 (Layout.candAt_mem hnode), h.row_names hnode⟩
  · intro i v hcand
    have hmem : (i, v) ∈ (layout board).cands := candidate_iff.1 hcand
    have hidx := List.idxOf_lt_length_iff.2 hmem
    have hnode := Layout.mem_nodes.2 ⟨_, 0, hidx, by decide, rfl⟩
    obtain ⟨hhead, hcolumn⟩ := Layout.mem_column_colAt hnode
    have hrow := h.row_names hnode
    rw [Layout.candAt_place (by decide), List.getD_eq_getElem _ _ hidx, List.getElem_idxOf] at hrow
    exact ⟨_, hhead, _, hcolumn, hrow⟩

end ChatReactor
