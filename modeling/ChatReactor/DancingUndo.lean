import ChatReactor.SudokuSetup

/-!
# What `uncover` and a failed `solve` leave behind

`Torus` says in terms of the links alone what a well-formed toroidal matrix is: the header ring, below each header the ring
of its column, and through each node the ring of its row. Nothing is said about the sizes or the names. Such links are
the links of a `Matrix` (`Torus.rep`), and the links of a `Matrix` with any columns left are such links (`Rep.torus`).
-/

namespace ChatReactor

open Nodes (root)

structure Torus (m : Nodes) where
  heads : List Nat
  /-- the nodes below a header -/
  column : Nat → List Nat
  /-- the other nodes of the row, from a node on to the right -/
  row : Nat → List Nat
  header : m.horiz.Ring root heads
  columns : ∀ c ∈ heads, m.vert.Ring c (column c)
  rows : ∀ c ∈ heads, ∀ x ∈ column c, m.horiz.Ring x (row x)
  col : ∀ c ∈ heads, ∀ x ∈ column c, m.col x = c
  /-- the other nodes of a row are in columns as well -/
  row_mem : ∀ c ∈ heads, ∀ x ∈ column c, ∀ y ∈ row x, m.col y ∈ heads ∧ y ∈ column (m.col y)
  /-- a row has at most one node in a column -/
  row_cols : ∀ c ∈ heads, ∀ x ∈ column c, ((x :: row x).map m.col).Nodup
  heads_nodes : ∀ c ∈ heads, ∀ x ∈ column c, x ∉ heads
  /-- headers and nodes are elements of `nodes_` -/
  heads_le : heads.length ≤ kMaxNodes
  nodes_le : (heads.flatMap column).length ≤ kMaxNodes

/-- The part of a `flatMap` that comes from one element, if a key tells where a value comes from. -/
theorem filter_flatMap_key {α β : Type} [DecidableEq α] {f : α → List β} {key : β → α} {l : List α} (hnd : l.Nodup)
    (hkey : ∀ a ∈ l, ∀ b ∈ f a, key b = a) {a : α} (ha : a ∈ l) : (l.flatMap f).filter (key · = a) = f a := by
  induction l with
  | nil => simp at ha
  | cons d l ih =>
    obtain ⟨hd, hnd⟩ := List.nodup_cons.1 hnd
    have hrest : ∀ e ∈ l, ∀ b ∈ f e, key b = e := fun e he => hkey e (List.mem_cons_of_mem d he)
    have hhead : ∀ b ∈ f d, key b = d := hkey d List.mem_cons_self
    rw [List.flatMap_cons, List.filter_append]
    by_cases had : a = d
    · subst had
      have hself : (f a).filter (key · = a) = f a := List.filter_eq_self.2 fun b hb => decide_eq_true (hhead b hb)
      have hnone : (l.flatMap f).filter (key · = a) = [] := by
        rw [List.filter_eq_nil_iff]
        intro b hb
        obtain ⟨e, he, hbe⟩ := List.mem_flatMap.1 hb
        have hne : e ≠ a := fun h => hd (h ▸ he)
        simpa [hrest e he b hbe] using hne
      rw [hself, hnone, List.append_nil]
    · have hnone : (f d).filter (key · = a) = [] := by
        rw [List.filter_eq_nil_iff]
        intro b hb
        simpa [hhead b hb] using Ne.symm had
      rw [hnone, List.nil_append, ih hnd hrest (List.mem_of_ne_of_mem had ha)]

namespace Torus
variable {m : Nodes} {c x y : Nat}

theorem mem_nodes (t : Torus m) : x ∈ t.heads.flatMap t.column ↔ m.col x ∈ t.heads ∧ x ∈ t.column (m.col x) := by
  rw [List.mem_flatMap]
  constructor
  · rintro ⟨c, hc, hx⟩
    obtain rfl := t.col c hc x hx
    exact ⟨hc, hx⟩
  · rintro ⟨hc, hx⟩
    exact ⟨m.col x, hc, hx⟩

theorem heads_nodup (t : Torus m) : t.heads.Nodup := (List.nodup_cons.1 t.header.nodup).2

theorem column_nodup (t : Torus m) (hc : c ∈ t.heads) : (t.column c).Nodup :=
  (List.nodup_cons.1 (t.columns c hc).nodup).2

theorem nodes_nodup (t : Torus m) : (t.heads.flatMap t.column).Nodup := by
  rw [List.nodup_flatMap]
  refine ⟨fun c hc => t.column_nodup hc, ?_⟩
  refine t.heads_nodup.imp_of_mem fun {c d} hc hd hne x hxc hxd => hne ?_
  rw [← t.col c hc x hxc, t.col d hd x hxd]

/-- The matrix that the links are. -/
def matrix (t : Torus m) : Matrix where
  heads := t.heads
  nodes := t.heads.flatMap t.column
  col := m.col
  name := m.name
  others := t.row
  nodes_nodup := t.nodes_nodup
  root_heads := (List.nodup_cons.1 t.header.nodup).1
  heads_nodes c hc hmem := by
    obtain ⟨hcol, hx⟩ := t.mem_nodes.1 hmem
    exact t.heads_nodes _ hcol c hx hc
  heads_le := t.heads_le
  nodes_le := t.nodes_le
  others_mem x hx y hy := by
    obtain ⟨hcol, hx⟩ := t.mem_nodes.1 hx
    exact t.mem_nodes.2 (t.row_mem _ hcol x hx y hy)
  same_row x hx y hy := by
    obtain ⟨hcol, hx⟩ := t.mem_nodes.1 hx
    obtain ⟨hcol', hy'⟩ := t.row_mem _ hcol x hx y hy
    exact (t.rows _ hcol x hx).perm hy (t.rows _ hcol' y hy')
  items_nodup x hx := by
    obtain ⟨hcol, hx⟩ := t.mem_nodes.1 hx
    exact t.row_cols _ hcol x hx

theorem live (t : Torus m) (hx : x ∈ t.matrix.nodes) : t.matrix.Live t.heads x := by
  intro d hd
  obtain ⟨hcol, hx⟩ := t.mem_nodes.1 hx
  obtain ⟨y, hy, rfl⟩ := List.mem_map.1 hd
  rcases List.mem_cons.1 hy with rfl | hy
  · exact hcol
  · exact (t.row_mem _ hcol x hx y hy).1

/-- All rows are there, so that a column of the matrix is the column of the links. -/
theorem matrix_column (t : Torus m) (hc : c ∈ t.heads) : t.matrix.column t.heads c = t.column c := by
  have hfilter : t.matrix.column t.heads c = (t.heads.flatMap t.column).filter (m.col · = c) := by
    refine List.filter_congr fun x hx => ?_
    simp only [t.live hx, and_true]
    rfl
  rw [hfilter, filter_flatMap_key t.heads_nodup t.col hc]

theorem rep (t : Torus m) : Rep t.matrix m t.heads where
  sub _ hd := hd
  header := t.header
  rows x hx := by
    obtain ⟨hcol, hx⟩ := t.mem_nodes.1 hx
    exact t.rows _ hcol x hx
  columns d hd := by
    rw [t.matrix_column hd]
    exact t.columns d hd
  col _ _ := rfl
  name _ _ := rfl

end Torus

/-- The links during a search are such links. -/
def Rep.torus {T : Matrix} {m : Nodes} {H : List Nat} (h : Rep T m H) : Torus m where
  heads := H
  column := T.column H
  row := T.others
  header := h.header
  columns := h.columns
  rows c _ x hx := h.rows x (Matrix.mem_column.1 hx).1
  col c _ x hx := by
    obtain ⟨hxn, hcol, -⟩ := Matrix.mem_column.1 hx
    rw [h.col x hxn, hcol]
  row_mem c _ x hx y hy := by
    obtain ⟨hxn, -, hlive⟩ := Matrix.mem_column.1 hx
    have hyn := T.others_mem x hxn y hy
    have hylive := (Matrix.other_live hxn hy).2 hlive
    rw [h.col y hyn]
    exact ⟨hylive _ Matrix.col_mem_items, Matrix.mem_column.2 ⟨hyn, rfl, hylive⟩⟩
  row_cols c _ x hx := by
    have hxn := (Matrix.mem_column.1 hx).1
    have hcols : (x :: T.others x).map m.col = T.items x :=
      List.map_congr_left fun y hy => h.col y (Matrix.row_mem hxn hy)
    rw [hcols]
    exact T.items_nodup x hxn
  heads_nodes c _ x hx := h.node_not_mem (Matrix.mem_column.1 hx).1
  heads_le := h.heads_le
  nodes_le := by
    have hnodup : (H.flatMap (T.column H)).Nodup := by
      rw [List.nodup_flatMap]
      refine ⟨fun _ _ => Matrix.column_nodup, h.heads_nodup.imp fun {c d} hne x hxc hxd => hne ?_⟩
      exact (Matrix.mem_column.1 hxc).2.1.symm.trans (Matrix.mem_column.1 hxd).2.1
    refine (List.subperm_of_subset hnodup fun x hx => ?_).length_le.trans T.nodes_le
    obtain ⟨c, -, hxc⟩ := List.mem_flatMap.1 hx
    exact (Matrix.mem_column.1 hxc).1

/-- So are those that the constructor makes. -/
theorem new_torus (board : Nat → Int) : ∃ s, SudokuSolver.new board = some s ∧ Nonempty (Torus s.nodes) := by
  obtain ⟨s, hs, h⟩ := new_spec board
  exact ⟨s, hs, ⟨h.rep.torus⟩⟩

/-! ## A search that fails -/

section
variable {T : Matrix} {m : Nodes} {H : List Nat} {c : Nat} {s s' : SudokuSolver}

/-- The loop over the rows of a covered column, with the rows `l` still to try. -/
theorem Rep.tryRows_false (h : Rep T m H) (hc : c ∈ H) {solve : SudokuSolver → Option (Bool × SudokuSolver)}
    (hsolve : ∀ {H' s s'}, Rep T s.nodes H' → solve s = some (false, s') → s' = s)
    (hs : s.nodes = Rep.coverRows T m c (T.column H c)) {l pre : List Nat} (hl : T.column H c = pre ++ l) {fuel : Nat}
    (hres : SudokuSolver.tryRows solve c fuel (l.headD c) s = some (false, s')) : s' = { s with nodes := m } := by
  induction l generalizing pre fuel with
  | nil =>
    cases fuel with
    | zero => cases hres
    | succ fuel =>
      rw [SudokuSolver.tryRows, List.headD_nil, if_pos rfl, hs, h.uncover_coverRows hc] at hres
      cases hres
      rfl
  | cons x l ih =>
    cases fuel with
    | zero => cases hres
    | succ fuel =>
      have hxc : x ∈ T.column H c := by rw [hl]; simp
      have hne : x ≠ c := fun he => h.node_not_mem (Matrix.node_of_split hl) (he ▸ hc)
      have hdown : s.nodes.down x = l.headD c := hs ▸ h.coverRows_down hc hl
      obtain ⟨m', hm', hrep, hback⟩ := h.takeRow hc hxc
      rw [← hs] at hm' hback
      rw [List.headD_cons] at hres
      -- only a row that leads nowhere lets the loop go on, and it is taken back
      cases htry : solve { s with stack := s.stack ++ [x], nodes := m' } with
      | none => simp [SudokuSolver.tryRows, hne, hm', htry] at hres
      | some r =>
        obtain ⟨found, t⟩ := r
        cases found with
        | true => cases (tryRows_found hne hm' htry).symm.trans hres
        | false =>
          obtain rfl := hsolve hrep htry
          rw [tryRows_next hne hm' htry hback, hdown] at hres
          exact ih (hl.trans (List.append_cons _ _ _)) hres

/-- A search that returns false leaves the solver as it was. -/
theorem Rep.solve_false (h : Rep T s.nodes H) {fuel : Nat} (hres : s.solve fuel = some (false, s')) : s' = s := by
  induction fuel generalizing H s s' with
  | zero => cases hres
  | succ fuel ih =>
    by_cases hH : H = []
    · subst hH
      rw [SudokuSolver.solve, if_pos (h.left_root_iff.2 rfl)] at hres
      simp at hres
    · obtain ⟨c, hc, hmin⟩ := h.getMinColumn hH
      rw [h.solve_succ hc hmin] at hres
      have heq := h.tryRows_false hc ih rfl (List.nil_append _).symm hres
      exact heq

end

/-- **Undoing is exact**: in every well-formed toroidal matrix `uncover` takes the links and sizes back to what they were
before `cover`, and a `solve` that returns false, at whatever depth, leaves links, sizes, stack and board as they were. -/
theorem undo_exact :
    (∀ (m : Nodes) (t : Torus m), ∀ c ∈ t.heads, ∃ m', m.cover c = some m' ∧ m'.uncover c = some m) ∧
    ∀ (s s' : SudokuSolver) (_ : Torus s.nodes) (fuel : Nat), s.solve fuel = some (false, s') → s' = s := by
  constructor
  · intro m t c hc
    exact ⟨_, t.rep.cover_eq hc, t.rep.uncover_coverRows hc⟩
  · intro s s' t fuel hres
    exact t.rep.solve_false hres

/-- Three columns (`1` to `3`), a row in the first two and a row in the last two: there is no exact cover. -/
def twoRows : Nodes where
  horiz := ⟨fun i => [1, 2, 3, 0, 5, 4, 7, 6].getD i 0, fun i => [3, 0, 1, 2, 5, 4, 7, 6].getD i 0⟩
  vert := ⟨fun i => [0, 4, 5, 7, 1, 6, 2, 3].getD i 0, fun i => [0, 4, 6, 7, 1, 2, 5, 3].getD i 0⟩
  col i := [0, 1, 2, 3, 1, 2, 2, 3].getD i 0
  name _ := 0
  size i := [0, 1, 2, 1].getD i 0

def twoRowsTorus : Torus twoRows where
  heads := [1, 2, 3]
  column i := [[], [4], [5, 6], [7]].getD i []
  row i := [[], [], [], [], [5], [4], [7], [6]].getD i []
  header := by decide
  columns := by decide
  rows := by decide
  col := by decide
  row_mem := by decide
  row_cols := by decide
  heads_nodes := by decide
  heads_le := by decide
  nodes_le := by decide

theorem undo_exact_two_rows : (∃ m', twoRows.cover 2 = some m' ∧ m'.uncover 2 = some twoRows) ∧
    ∃ s', SudokuSolver.solve 4 ⟨fun _ => 0, fun _ => none, [], twoRows, 8⟩ = some (false, s') ∧
      s' = ⟨fun _ => 0, fun _ => none, [], twoRows, 8⟩ := by
  refine ⟨undo_exact.1 twoRows twoRowsTorus 2 (by decide), ?_⟩
  have hfalse : (SudokuSolver.solve 4 ⟨fun _ => 0, fun _ => none, [], twoRows, 8⟩).map Prod.fst = some false := by
    decide +kernel
  obtain ⟨⟨_, s'⟩, hres, rfl⟩ := Option.map_eq_some_iff.1 hfalse
  exact ⟨s', hres, undo_exact.2 _ s' twoRowsTorus 4 hres⟩

end ChatReactor
