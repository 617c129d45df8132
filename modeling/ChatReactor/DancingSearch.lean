import ChatReactor.DancingLinks

/-!
# `solve`

`solve` is Knuth's Algorithm X on the links of `DancingLinks`: `solve_spec` says that it finds an exact cover of
the columns that are left if there is one, and writes it and what was on the stack to the board; if it returns
false, there is none and the solver is what it was.
-/

namespace ChatReactor

open Nodes (root)

variable {T : Matrix} {m : Nodes} {H : List Nat} {c x : Nat}

/-! ## Exact covers of a matrix -/

/-- Rows that cover the columns exactly, each given by one of its nodes. -/
def Matrix.Solution (T : Matrix) (H S : List Nat) : Prop := (∀ x ∈ S, x ∈ T.nodes) ∧ Covers T.items S H

theorem Matrix.Solution.cons (hH : H.Nodup) (hx : x ∈ T.column H c) {S : List Nat}
    (h : T.Solution (H.filter (· ∉ T.items x)) S) : T.Solution H (x :: S) := by
  obtain ⟨hxn, -, hlive⟩ := mem_column.1 hx
  exact ⟨List.forall_mem_cons.2 ⟨hxn, h.1⟩, .cons hH (T.items_nodup x hxn) hlive h.2⟩

/-- A solution has a row through every column. -/
theorem Matrix.Solution.exists_row (hH : H.Nodup) (hc : c ∈ H) {S : List Nat} (h : T.Solution H S) :
    ∃ x ∈ T.column H c, ∃ S', T.Solution (H.filter (· ∉ T.items x)) S' := by
  obtain ⟨y, hy, hcy⟩ := h.2.mem_iff.1 hc
  obtain ⟨S₁, S₂, rfl⟩ := List.append_of_mem hy
  have hyn := h.1 y hy
  -- the node of that row in column c
  obtain ⟨x, hx, rfl⟩ := List.mem_map.1 hcy
  have hitems := row_items hyn hx
  have hlive : T.Live H x := fun d hd => h.2.mem_iff.2 ⟨y, hy, hitems.mem_iff.1 hd⟩
  refine ⟨x, mem_column.2 ⟨row_mem hyn hx, rfl, hlive⟩, S₁ ++ S₂, fun z hz => h.1 z ?_, ?_⟩
  · rcases List.mem_append.1 hz with hz | hz <;> simp [hz]
  · simpa only [hitems.mem_iff] using h.2.erase hH

/-! ## Reading a row -/

/-- The nodes of a row have the names of the cell and of units that the value goes into. -/
structure Readable (T : Matrix) (cell val : Nat → Nat) : Prop where
  cell_eq : ∀ x ∈ T.nodes, ∀ y ∈ x :: T.others x, T.name y < 100 → T.name y = cell x
  val_eq : ∀ x ∈ T.nodes, ∀ y ∈ x :: T.others x, 100 ≤ T.name y → T.name y % 10 = val x
  has_cell : ∀ x ∈ T.nodes, ∃ y ∈ x :: T.others x, T.name y < 100
  has_val : ∀ x ∈ T.nodes, ∃ y ∈ x :: T.others x, 100 ≤ T.name y

variable {pre : List Nat}

theorem Rep.right_mid (h : Rep T m H) (hx : x ∈ T.nodes) {post : List Nat} {y : Nat}
    (hl : x :: T.others x = pre ++ y :: post) : m.right y = post.headD x := by
  have hr := h.rows x hx
  cases pre with
  | nil =>
    cases hl
    exact hr.next_head
  | cons z pre =>
    rw [List.cons_append] at hl
    obtain ⟨rfl, hl'⟩ := List.cons.inj hl
    rw [hl'] at hr
    exact hr.next_mid

variable {l : List Nat} {s : SudokuSolver}

section
variable {cell val : Nat → Nat} (hread : Readable T cell val)
include hread

/-- The loop, with the nodes `l` of the row still to visit. -/
theorem Rep.readRow_from (h : Rep T m H) (hx : x ∈ T.nodes) (hl : x :: T.others x = pre ++ l) {fuel : Nat}
    (hfuel : l.length < fuel) {i v : Int} (hi : i = -1 ∨ i = cell x) (hv : v = -1 ∨ v = val x)
    (hi' : i = -1 → ∃ y ∈ l, T.name y < 100) (hv' : v = -1 → ∃ y ∈ l, 100 ≤ T.name y) :
    m.readRow fuel (l.headD x) i v = some ((cell x : Int), (val x : Int)) := by
  induction l generalizing pre fuel i v with
  | nil =>
    have hi' : i ≠ -1 := fun he => by simpa using hi' he
    have hv' : v ≠ -1 := fun he => by simpa using hv' he
    obtain ⟨fuel, rfl⟩ := Nat.exists_eq_succ_of_ne_zero (Nat.ne_zero_of_lt hfuel)
    rw [Nodes.readRow, if_neg (not_or.2 ⟨hi', hv'⟩), hi.resolve_left hi', hv.resolve_left hv']
  | cons y l ih =>
    obtain ⟨fuel, rfl⟩ := Nat.exists_eq_succ_of_ne_zero (Nat.ne_zero_of_lt hfuel)
    have hyx : y ∈ x :: T.others x := by rw [hl]; simp
    have hl' : x :: T.others x = (pre ++ [y]) ++ l := by rw [hl]; simp
    have hfuel : l.length < fuel := by simpa using hfuel
    rw [List.headD_cons, Nodes.readRow, h.name y (Matrix.row_mem hx hyx), h.right_mid hx hl]
    split
    · split
      · rename_i hname
        refine ih hl' hfuel (.inr ?_) hv (fun he => ?_) fun he => ?_
        · rw [hread.cell_eq x hx y hyx hname]
        · omega
        · exact ((List.exists_mem_cons_iff _ _ _).1 (hv' he)).resolve_left (by omega)
      · rename_i hname
        refine ih hl' hfuel hi (.inr ?_) (fun he => ?_) fun he => ?_
        · rw [hread.val_eq x hx y hyx (by omega)]
        · exact ((List.exists_mem_cons_iff _ _ _).1 (hi' he)).resolve_left (by omega)
        · omega
    · rename_i hdone
      obtain ⟨hi', hv'⟩ := not_or.1 hdone
      rw [hi.resolve_left hi', hv.resolve_left hv']

theorem Rep.readRow (h : Rep T m H) (hx : x ∈ T.nodes) :
    m.readRow (kMaxNodes + 1) x (-1) (-1) = some ((cell x : Int), (val x : Int)) := by
  apply h.readRow_from hread hx (List.nil_append _).symm (Nat.lt_succ_of_le (Matrix.row_le hx)) (.inl rfl) (.inl rfl)
  · exact fun _ => hread.has_cell x hx
  · exact fun _ => hread.has_val x hx

/-- The board after the rows have been written to it. -/
def writes (cell val : Nat → Nat) (board : Nat → Int) (S : List Nat) : Nat → Int :=
  S.foldl (fun b x => Function.update b (cell x) (val x : Int)) board

theorem writeBack_eq (h : Rep T s.nodes H) (hstack : ∀ x ∈ s.stack, x ∈ T.nodes) :
    s.writeBack = some { s with inout := writes cell val s.inout s.stack } := by
  have hloop : ∀ (S : List Nat) (s : SudokuSolver), Rep T s.nodes H → (∀ x ∈ S, x ∈ T.nodes) →
      S.foldlM (fun s n => do
        let row ← s.nodes.readRow (kMaxNodes + 1) n (-1) (-1)
        some { s with inout := Function.update s.inout row.1.toNat row.2 }) s =
      some { s with inout := writes cell val s.inout S } := by
    intro S
    induction S with
    | nil => exact fun s _ _ => rfl
    | cons x S ih =>
      intro s h hS
      obtain ⟨hx, hS⟩ := List.forall_mem_cons.1 hS
      rw [List.foldlM_cons, h.readRow hread hx]
      exact ih { s with inout := Function.update s.inout (cell x) (val x : Int) } h hS
  exact hloop s.stack s h hstack

end

/-! ## Choosing a column -/

theorem Rep.minLoop (h : Rep T m H) (hl : H = pre ++ l) (hc : c ∈ H) {fuel : Nat} (hfuel : l.length < fuel)
    (minSize : Int) : ∃ c' ∈ H, m.minLoop fuel c (l.headD root) minSize = some c' := by
  induction l generalizing pre c fuel minSize with
  | nil =>
    obtain ⟨fuel, rfl⟩ := Nat.exists_eq_succ_of_ne_zero (Nat.ne_zero_of_lt hfuel)
    exact ⟨c, hc, by simp [Nodes.minLoop]⟩
  | cons cc l ih =>
    obtain ⟨fuel, rfl⟩ := Nat.exists_eq_succ_of_ne_zero (Nat.ne_zero_of_lt hfuel)
    have hcc : cc ∈ H := by rw [hl]; simp
    have hright : m.right cc = l.headD root := by
      have := h.header
      rw [hl] at this
      exact this.next_mid
    have hl' : H = (pre ++ [cc]) ++ l := by rw [hl]; simp
    have hfuel : l.length < fuel := by simpa using hfuel
    rw [List.headD_cons, Nodes.minLoop, if_neg (h.header.ne_head hcc), hright]
    split
    · split
      · exact ⟨cc, hcc, rfl⟩
      · exact ih hl' hcc hfuel _
    · exact ih hl' hc hfuel _

theorem Rep.heads_le (h : Rep T m H) : H.length ≤ kMaxNodes :=
  (List.subperm_of_subset h.heads_nodup h.sub).length_le.trans T.heads_le

theorem Rep.getMinColumn (h : Rep T m H) (hH : H ≠ []) : ∃ c ∈ H, m.getMinColumn = some c := by
  obtain ⟨c, l, rfl⟩ := List.exists_cons_of_ne_nil hH
  have hroot : m.right root = c := h.header.next_head
  have hring : m.horiz.Ring root ([] ++ c :: l) := h.header
  have hright : m.right c = l.headD root := hring.next_mid
  have hlen := h.heads_le
  rw [Nodes.getMinColumn, hroot, hright]
  split
  · exact h.minLoop (show c :: l = [c] ++ l from rfl) List.mem_cons_self (by simp at hlen; omega) _
  · exact ⟨c, List.mem_cons_self, rfl⟩

theorem Rep.left_root_iff (h : Rep T m H) : m.left root = root ↔ H = [] := by
  have hp : m.left root = H.reverse.headD root := h.header.swap.next_head
  rw [hp]
  constructor
  · intro hroot
    cases hrev : H.reverse with
    | nil => exact List.reverse_eq_nil_iff.1 hrev
    | cons d l =>
      rw [hrev] at hroot
      have hd : d ∈ H := by rw [← List.mem_reverse, hrev]; exact List.mem_cons_self
      exact absurd hroot (h.header.ne_head hd)
  · rintro rfl
    rfl

/-! ## The search -/

section
variable {cell val : Nat → Nat}

/-- What a search of the columns `H` from a solver comes to: a cover, written to the board after what was on
the stack; or the solver as it was, and no cover. -/
def Solves (T : Matrix) (cell val : Nat → Nat) (H : List Nat) (s : SudokuSolver)
    (r : Option (Bool × SudokuSolver)) : Prop :=
  (∃ t S, r = some (true, t) ∧ T.Solution H S ∧ t.inout = writes cell val s.inout (s.stack ++ S)) ∨
    r = some (false, s) ∧ ∀ S, ¬ T.Solution H S

section
variable {solve : SudokuSolver → Option (Bool × SudokuSolver)} {col row fuel : Nat} {s t : SudokuSolver}

theorem tryRows_found (hrow : row ≠ col)
    (hcover : s.nodes.forEach Nodes.right row (fun m j => m.cover (m.col j)) = some m)
    (hsolve : solve { s with stack := s.stack ++ [row], nodes := m } = some (true, t)) :
    SudokuSolver.tryRows solve col (fuel + 1) row s = some (true, t) := by
  simp only [SudokuSolver.tryRows, if_neg hrow, hcover, Option.bind_eq_bind, Option.bind_some, hsolve, if_true]

/-- After a row that leads nowhere the loop goes on with the solver as it was. -/
theorem tryRows_next (hrow : row ≠ col)
    (hcover : s.nodes.forEach Nodes.right row (fun m j => m.cover (m.col j)) = some m)
    (hsolve : solve { s with stack := s.stack ++ [row], nodes := m } =
      some (false, { s with stack := s.stack ++ [row], nodes := m }))
    (hback : m.forEach Nodes.left row (fun m j => m.uncover (m.col j)) = some s.nodes) :
    SudokuSolver.tryRows solve col (fuel + 1) row s =
      SudokuSolver.tryRows solve col fuel (s.nodes.down row) s := by
  simp only [SudokuSolver.tryRows, if_neg hrow, hcover, Option.bind_eq_bind, Option.bind_some, hsolve,
    Bool.false_eq_true, if_false, hback, List.dropLast_concat]

end

/-- Taking a row of a covered column: its other columns are covered as well, and can be uncovered. -/
theorem Rep.takeRow (h : Rep T m H) (hc : c ∈ H) (hx : x ∈ T.column H c) :
    ∃ m', (Rep.coverRows T m c (T.column H c)).forEach Nodes.right x (fun m j => m.cover (m.col j)) = some m' ∧
      Rep T m' (H.filter (· ∉ T.items x)) ∧
      m'.forEach Nodes.left x (fun m j => m.uncover (m.col j)) = some (Rep.coverRows T m c (T.column H c)) := by
  obtain ⟨hxn, rfl, hlive⟩ := Matrix.mem_column.1 hx
  have hcols : ∀ j ∈ T.others x, T.col j ∈ H.filter (· ≠ T.col x) := by
    intro j hj
    have hjH := hlive _ (List.mem_map_of_mem (List.mem_cons_of_mem x hj))
    exact List.mem_filter.2 ⟨hjH, decide_eq_true (Matrix.other_ne hxn hj)⟩
  obtain ⟨m', hm', hrep, hback⟩ := (h.cover hc).coverRow hxn hcols
  rw [Links.filter_ne_filter] at hrep
  exact ⟨m', hm', hrep, hback⟩

theorem Matrix.length_left_lt (hc : c ∈ H) (hx : x ∈ T.column H c) :
    (H.filter (· ∉ T.items x)).length < H.length := by
  obtain ⟨-, rfl, -⟩ := mem_column.1 hx
  exact List.length_filter_lt_length_iff_exists.2 ⟨T.col x, hc, by simp [col_mem_items]⟩

/-- In a covered column the next row is still the next one. -/
theorem Rep.coverRows_down (h : Rep T m H) (hc : c ∈ H) (hl : T.column H c = pre ++ x :: l) :
    (Rep.coverRows T m c (T.column H c)).down x = l.headD c := by
  have hring := h.coverRows_self hc ⟨[], List.append_nil _⟩
  rw [hl] at hring ⊢
  exact hring.next_mid

/-- The loop over the rows of a covered column, with the rows `l` still to try. -/
theorem Rep.tryRows (h : Rep T m H) (hc : c ∈ H) {solve : SudokuSolver → Option (Bool × SudokuSolver)}
    (hsolve : ∀ H' s, Rep T s.nodes H' → (∀ x ∈ s.stack, x ∈ T.nodes) → H'.length < H.length →
      Solves T cell val H' s (solve s)) (hs : s.nodes = Rep.coverRows T m c (T.column H c))
    (hstack : ∀ x ∈ s.stack, x ∈ T.nodes) (hl : T.column H c = pre ++ l) {fuel : Nat} (hfuel : l.length < fuel) :
    (∃ x ∈ l, ∃ t S, SudokuSolver.tryRows solve c fuel (l.headD c) s = some (true, t) ∧
      T.Solution (H.filter (· ∉ T.items x)) S ∧ t.inout = writes cell val s.inout (s.stack ++ x :: S)) ∨
    SudokuSolver.tryRows solve c fuel (l.headD c) s = some (false, { s with nodes := m }) ∧
      ∀ x ∈ l, ∀ S, ¬ T.Solution (H.filter (· ∉ T.items x)) S := by
  induction l generalizing pre fuel with
  | nil =>
    obtain ⟨fuel, rfl⟩ := Nat.exists_eq_succ_of_ne_zero (Nat.ne_zero_of_lt hfuel)
    refine .inr ⟨?_, by simp⟩
    rw [SudokuSolver.tryRows, List.headD_nil, if_pos rfl, hs, h.uncover_coverRows hc]
    rfl
  | cons x l ih =>
    obtain ⟨fuel, rfl⟩ := Nat.exists_eq_succ_of_ne_zero (Nat.ne_zero_of_lt hfuel)
    have hxc : x ∈ T.column H c := by rw [hl]; simp
    have hx := Matrix.node_of_split hl
    have hcol : x ≠ c := fun he => h.node_not_mem hx (he ▸ hc)
    have hdown : s.nodes.down x = l.headD c := hs ▸ h.coverRows_down hc hl
    have hstack' : ∀ y ∈ s.stack ++ [x], y ∈ T.nodes := by
      intro y hy
      rcases List.mem_append.1 hy with hy | hy
      · exact hstack y hy
      · exact List.mem_singleton.1 hy ▸ hx
    obtain ⟨m', hm', hrep, hback⟩ := h.takeRow hc hxc
    rw [← hs] at hm' hback
    rw [List.headD_cons]
    -- the row leads to a cover, or it is taken back and the loop goes on
    rcases hsolve _ { s with stack := s.stack ++ [x], nodes := m' } hrep hstack' (Matrix.length_left_lt hc hxc) with
      ⟨t, S, ht, hsol, hinout⟩ | ⟨ht, hno⟩
    · refine .inl ⟨x, List.mem_cons_self, t, S, tryRows_found hcol hm' ht, hsol, ?_⟩
      rw [hinout, List.append_assoc]
      rfl
    · rw [tryRows_next hcol hm' ht hback, hdown]
      rcases ih (hl.trans (List.append_cons _ _ _)) (by simpa using hfuel : l.length < fuel) with
        ⟨y, hy, t, S, hres⟩ | ⟨hres, hrest⟩
      · exact .inl ⟨y, List.mem_cons_of_mem x hy, t, S, hres⟩
      · refine .inr ⟨hres, fun y hy => ?_⟩
        rcases List.mem_cons.1 hy with rfl | hy
        · exact hno
        · exact hrest y hy

/-- One call of `solve`: the column is covered and its rows are tried. -/
theorem Rep.solve_succ (h : Rep T s.nodes H) (hc : c ∈ H) (hmin : s.nodes.getMinColumn = some c) (fuel : Nat) :
    s.solve (fuel + 1) = SudokuSolver.tryRows (SudokuSolver.solve fuel) c (kMaxNodes + 1)
      ((T.column H c).headD c) { s with nodes := Rep.coverRows T s.nodes c (T.column H c) } := by
  have hring := h.coverRows_self hc ⟨[], List.append_nil _⟩
  have hne : s.nodes.left root ≠ root := fun hl => List.ne_nil_of_mem hc (h.left_root_iff.1 hl)
  rw [SudokuSolver.solve, if_neg hne, hmin, ← hring.next_head]
  simp only [Option.bind_eq_bind, Option.bind_some, h.cover_eq hc]
  rfl

/-- **The search**: from the links of any columns that are left. -/
theorem solve_spec (hread : Readable T cell val) (h : Rep T s.nodes H) (hstack : ∀ x ∈ s.stack, x ∈ T.nodes)
    {fuel : Nat} (hfuel : H.length < fuel) : Solves T cell val H s (s.solve fuel) := by
  induction fuel generalizing H s with
  | zero => omega
  | succ fuel ih =>
    by_cases hH : H = []
    · subst hH
      have hwrite := writeBack_eq hread h hstack
      refine .inl ⟨{ s with inout := writes cell val s.inout s.stack }, [], ?_, ⟨by simp, covers_nil⟩, ?_⟩
      · rw [SudokuSolver.solve, if_pos (h.left_root_iff.2 rfl), hwrite]
        rfl
      · rw [List.append_nil]
    · obtain ⟨c, hc, hmin⟩ := h.getMinColumn hH
      let s₁ : SudokuSolver := { s with nodes := Rep.coverRows T s.nodes c (T.column H c) }
      rw [h.solve_succ hc hmin]
      rcases h.tryRows (s := s₁) hc (fun H' s hr hs hlen => ih hr hs (by omega)) rfl hstack (List.nil_append _).symm
        (Nat.lt_succ_of_le Matrix.column_le) with ⟨x, hx, t, S, hres, hsol, hinout⟩ | ⟨hres, hno⟩
      · exact .inl ⟨t, x :: S, hres, hsol.cons h.heads_nodup hx, hinout⟩
      · refine .inr ⟨hres, fun S hS => ?_⟩
        obtain ⟨x, hx, S', hS'⟩ := hS.exists_row h.heads_nodup hc
        exact hno x hx S' hS'

end

end ChatReactor
