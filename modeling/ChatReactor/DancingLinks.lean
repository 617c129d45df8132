import ChatReactor.Lib.ExactCover
import ChatReactor.Sudoku

/-!
# `cover` and `uncover`

A `Matrix` is what the constructor builds: columns, nodes, and which nodes share a row. `Rep T m H` says that
the links `m` are the matrix with the columns `H` left: the header ring runs through `H`, and the ring of a
column through the nodes whose whole row is inside `H`. The rows are never taken apart.

* `Rep.cover`: covering a column gives the links for one column less, and `uncover` takes them back to exactly
  what they were (`Rep.uncover_coverRows`).
* `Rep.coverRow`: so do the two loops of `solve` over the other columns of a row.
-/

namespace ChatReactor

open Nodes (root)

structure Matrix where
  heads : List Nat
  /-- the nodes of the rows, in the order of their creation -/
  nodes : List Nat
  col : Nat → Nat
  name : Nat → Nat
  /-- the rest of the row, from the node on to the right -/
  others : Nat → List Nat
  nodes_nodup : nodes.Nodup
  root_heads : root ∉ heads
  heads_nodes : ∀ c ∈ heads, c ∉ nodes
  heads_le : heads.length ≤ kMaxNodes
  nodes_le : nodes.length ≤ kMaxNodes
  others_mem : ∀ x ∈ nodes, ∀ y ∈ others x, y ∈ nodes
  same_row : ∀ x ∈ nodes, ∀ y ∈ others x, (y :: others y).Perm (x :: others x)
  items_nodup : ∀ x ∈ nodes, ((x :: others x).map col).Nodup

namespace Matrix
variable {T : Matrix} {H : List Nat} {c d x y : Nat}

/-- The columns of a row. -/
def items (T : Matrix) (x : Nat) : List Nat := (x :: T.others x).map T.col

/-- The row has all its columns in `H`. -/
def Live (T : Matrix) (H : List Nat) (x : Nat) : Prop := ∀ c ∈ T.items x, c ∈ H

instance : Decidable (T.Live H x) := inferInstanceAs (Decidable (∀ c ∈ T.items x, c ∈ H))

/-- The nodes left in a column. -/
def column (T : Matrix) (H : List Nat) (d : Nat) : List Nat := T.nodes.filter fun x => T.col x = d ∧ T.Live H x

theorem mem_column : x ∈ T.column H d ↔ x ∈ T.nodes ∧ T.col x = d ∧ T.Live H x := by
  simp [column]

theorem node_of_split {pre post : List Nat} (hl : T.column H d = pre ++ x :: post) : x ∈ T.nodes := by
  have hx : x ∈ T.column H d := by rw [hl]; exact List.mem_append_right pre List.mem_cons_self
  exact (mem_column.1 hx).1

theorem column_nodup : (T.column H d).Nodup := T.nodes_nodup.filter _

theorem col_mem_items : T.col x ∈ T.items x := by simp [items]

theorem other_items (hx : x ∈ T.nodes) (hy : y ∈ T.others x) : (T.items y).Perm (T.items x) :=
  (T.same_row x hx y hy).map T.col

theorem other_live (hx : x ∈ T.nodes) (hy : y ∈ T.others x) : T.Live H y ↔ T.Live H x := by
  simp only [Live, (other_items hx hy).mem_iff]

theorem other_ne (hx : x ∈ T.nodes) (hy : y ∈ T.others x) : T.col y ≠ T.col x := by
  intro h
  have := T.items_nodup x hx
  rw [List.map_cons, List.nodup_cons] at this
  exact this.1 (h ▸ List.mem_map_of_mem hy)

theorem row_nodup (hx : x ∈ T.nodes) : (x :: T.others x).Nodup := (T.items_nodup x hx).of_map

theorem others_nodup (hx : x ∈ T.nodes) : (T.others x).Nodup := (List.nodup_cons.1 (row_nodup hx)).2

theorem row_mem (hx : x ∈ T.nodes) (hy : y ∈ x :: T.others x) : y ∈ T.nodes := by
  rcases List.mem_cons.1 hy with rfl | hy
  · exact hx
  · exact T.others_mem x hx y hy

theorem row_items (hx : x ∈ T.nodes) (hy : y ∈ x :: T.others x) : (T.items y).Perm (T.items x) := by
  rcases List.mem_cons.1 hy with rfl | hy
  · exact .refl _
  · exact other_items hx hy

theorem row_le (hx : x ∈ T.nodes) : (x :: T.others x).length ≤ kMaxNodes :=
  (List.subperm_of_subset (row_nodup hx) fun _ hy => row_mem hx hy).length_le.trans T.nodes_le

theorem others_le (hx : x ∈ T.nodes) : (T.others x).length ≤ kMaxNodes :=
  (Nat.le_succ _).trans (row_le hx)

theorem column_le : (T.column H c).length ≤ kMaxNodes := (List.length_filter_le _ _).trans T.nodes_le

theorem other_symm (hx : x ∈ T.nodes) (hy : y ∈ T.others x) : x ∈ T.others y := by
  have : x ∈ y :: T.others y := (T.same_row x hx y hy).mem_iff.2 List.mem_cons_self
  rcases List.mem_cons.1 this with rfl | h
  · exact absurd rfl (other_ne hx hy)
  · exact h

/-- A row has one node in a column. -/
theorem row_unique (hx : x ∈ T.nodes) (hy : y ∈ x :: T.others x) (h : T.col y = T.col x) : y = x := by
  rcases List.mem_cons.1 hy with rfl | hy
  · rfl
  · exact absurd h (other_ne hx hy)

/-! ### The nodes that covering a column hides -/

section
variable {l : List Nat} (hsub : ∀ x ∈ l, x ∈ T.column H c)
include hsub

theorem mem_hidden {j : Nat} (hj : j ∈ l.flatMap T.others) : j ∈ T.column H (T.col j) ∧ T.col j ≠ c := by
  obtain ⟨x, hx, hjx⟩ := List.mem_flatMap.1 hj
  obtain ⟨hxn, rfl, hlive⟩ := mem_column.1 (hsub x hx)
  exact ⟨mem_column.2 ⟨T.others_mem x hxn j hjx, rfl, (other_live hxn hjx).2 hlive⟩, other_ne hxn hjx⟩

theorem hidden_nodup (hl : l.Nodup) : (l.flatMap T.others).Nodup := by
  rw [List.nodup_flatMap]
  constructor
  · exact fun x hx => others_nodup (mem_column.1 (hsub x hx)).1
  · refine hl.imp_of_mem fun {x y} hx hy hne z hzx hzy => hne ?_
    obtain ⟨hxn, hxc, -⟩ := mem_column.1 (hsub x hx)
    obtain ⟨hyn, hyc, -⟩ := mem_column.1 (hsub y hy)
    -- both are in the row of z and in column c
    have hrow : x ∈ y :: T.others y :=
      (T.same_row y hyn z hzy).mem_iff.1 (List.mem_cons_of_mem z (other_symm hxn hzx))
    exact row_unique hyn hrow (hxc.trans hyc.symm)

/-- The column itself stays as it is. -/
theorem column_filter_self : (T.column H c).filter (· ∉ l.flatMap T.others) = T.column H c := by
  rw [List.filter_eq_self]
  intro x hx
  have hxc := (mem_column.1 hx).2.1
  simpa using fun y hy hxy => (mem_hidden hsub (List.mem_flatMap.2 ⟨y, hy, hxy⟩)).2 hxc

end

/-- The other columns lose the rows through `c`. -/
theorem column_filter (hd : d ≠ c) :
    (T.column H d).filter (· ∉ (T.column H c).flatMap T.others) = T.column (H.filter (· ≠ c)) d := by
  unfold column
  rw [List.filter_filter]
  refine List.filter_congr fun x hx => ?_
  rw [Bool.eq_iff_iff]
  simp only [Bool.and_eq_true, decide_eq_true_eq]
  constructor
  · rintro ⟨hhid, rfl, hlive⟩
    refine ⟨rfl, fun e he => List.mem_filter.2 ⟨hlive e he, decide_eq_true fun hec => hhid ?_⟩⟩
    -- the node of the row in column c
    subst hec
    obtain ⟨y, hy, rfl⟩ := List.mem_map.1 he
    rcases List.mem_cons.1 hy with rfl | hy
    · exact absurd rfl hd
    · have hyn := T.others_mem x hx y hy
      refine List.mem_flatMap.2 ⟨y, List.mem_filter.2 ⟨hyn, ?_⟩, other_symm hx hy⟩
      exact decide_eq_true ⟨rfl, (other_live hx hy).2 hlive⟩
  · rintro ⟨rfl, hlive⟩
    have hH : ∀ e ∈ T.items x, e ∈ H ∧ e ≠ c := fun e he => by simpa using List.mem_filter.1 (hlive e he)
    refine ⟨fun hhid => ?_, rfl, fun e he => (hH e he).1⟩
    obtain ⟨y, hy, hxy⟩ := List.mem_flatMap.1 hhid
    obtain ⟨hyn, hyc, -⟩ := mem_column.1 (show y ∈ T.column H c from hy)
    refine (hH (T.col y) ?_).2 hyc
    exact (other_items hyn hxy).mem_iff.2 col_mem_items

end Matrix

/-! ## The links of a matrix with some of its columns -/

structure Rep (T : Matrix) (m : Nodes) (H : List Nat) : Prop where
  sub : ∀ d ∈ H, d ∈ T.heads
  header : m.horiz.Ring root H
  rows : ∀ x ∈ T.nodes, m.horiz.Ring x (T.others x)
  columns : ∀ d ∈ H, m.vert.Ring d (T.column H d)
  col : ∀ x ∈ T.nodes, m.col x = T.col x
  name : ∀ x ∈ T.nodes, m.name x = T.name x

/-! ## `cover` and `uncover` -/

namespace Nodes

/-- What hiding one node leaves alone, hiding many does. -/
theorem foldl_hide_frame {α : Type} {g : Nodes → α} (hg : ∀ m j, g (m.hide j) = g m) (m : Nodes) (J : List Nat) :
    g (J.foldl hide m) = g m := by
  induction J generalizing m with
  | nil => rfl
  | cons j J ih => exact (ih (m.hide j)).trans (hg m j)

theorem foldl_hide_horiz (m : Nodes) (J : List Nat) : (J.foldl hide m).horiz = m.horiz :=
  foldl_hide_frame (fun _ _ => rfl) m J

theorem foldl_hide_col (m : Nodes) (J : List Nat) : (J.foldl hide m).col = m.col :=
  foldl_hide_frame (fun _ _ => rfl) m J

theorem foldl_hide_name (m : Nodes) (J : List Nat) : (J.foldl hide m).name = m.name :=
  foldl_hide_frame (fun _ _ => rfl) m J

theorem foldl_hide_vert (m : Nodes) (J : List Nat) : (J.foldl hide m).vert = J.foldl Links.unlink m.vert :=
  (List.foldl_hom Nodes.vert fun _ _ => rfl).symm

theorem unhide_hide {m : Nodes} {j : Nat} (h : m.vert.Linked j) : (m.hide j).unhide j = m := by
  have hsize : Function.update (Function.update m.size (m.col j) (m.size (m.col j) - 1)) (m.col j)
      (m.size (m.col j) - 1 + 1) = m.size := by
    rw [Function.update_idem, Int.sub_add_cancel, Function.update_eq_self]
  simp only [hide, unhide, Function.update_self, hsize, h.relink_unlink]

/-- A `for` loop along a ring, in either direction. -/
theorem forEach_ring (L : Nodes → Links Nat) {next : Nodes → Nat → Nat} (hnext : next = fun m => (L m).next)
    {stop : Nat} {body : Nodes → Nat → Option Nodes} {f : Nodes → Nat → Nodes} {l : List Nat} {m : Nodes}
    (hlen : l.length ≤ kMaxNodes) (hr : (L m).Ring stop l)
    (h : ∀ pre p post, l = pre ++ p :: post → body (pre.foldl f m) p = some (f (pre.foldl f m) p) ∧
      (L (f (pre.foldl f m) p)).Ring stop l) : m.forEach next stop body = some (l.foldl f m) := by
  subst hnext
  exact follow_ring L (Nat.lt_succ_of_le hlen) hr h

/-- The way back. -/
theorem forEach_undo (L : Nodes → Links Nat) {prev : Nodes → Nat → Nat} (hprev : prev = fun m => (L m).prev)
    {stop : Nat} {body : Nodes → Nat → Option Nodes} {f : Nodes → Nat → Nodes} {l : List Nat} {m : Nodes}
    (hlen : l.length ≤ kMaxNodes) (hr : (L (l.foldl f m)).Ring stop l)
    (h : ∀ pre p post, l = pre ++ p :: post → body (f (pre.foldl f m) p) p = some (pre.foldl f m) ∧
      (L (pre.foldl f m)).Ring stop l) : (l.foldl f m).forEach prev stop body = some m := by
  subst hprev
  exact follow_undo L (Nat.lt_succ_of_le hlen) hr h

end Nodes

/-- A row is hidden from the columns of its other nodes. -/
def hideRow (T : Matrix) (m : Nodes) (x : Nat) : Nodes := (T.others x).foldl Nodes.hide m

theorem foldl_hideRow (T : Matrix) (m : Nodes) (l : List Nat) :
    l.foldl (hideRow T) m = (l.flatMap T.others).foldl Nodes.hide m := List.foldl_flatMap.symm

theorem forEach_right {T : Matrix} {m : Nodes} {x : Nat} (hx : x ∈ T.nodes) (hr : m.horiz.Ring x (T.others x)) :
    m.forEach Nodes.right x (fun m j => some (m.hide j)) = some (hideRow T m x) := by
  refine Nodes.forEach_ring Nodes.horiz rfl (Matrix.others_le hx) hr fun pre p post _ => ⟨rfl, ?_⟩
  have hhoriz : ((pre.foldl Nodes.hide m).hide p).horiz = m.horiz := Nodes.foldl_hide_horiz m pre
  rw [hhoriz]
  exact hr

namespace Rep
variable {T : Matrix} {m : Nodes} {H : List Nat} {c d x : Nat} {P Q : List Nat}

theorem heads_nodup (h : Rep T m H) : H.Nodup := (List.nodup_cons.1 h.header.nodup).2

theorem node_not_mem (h : Rep T m H) (hx : x ∈ T.nodes) : x ∉ H := fun hH => T.heads_nodes x (h.sub x hH) hx

/-- The links after the header of a column has been taken out, and some of its rows hidden. -/
def coverRows (T : Matrix) (m : Nodes) (c : Nat) (P : List Nat) : Nodes :=
  P.foldl (hideRow T) { m with horiz := m.horiz.unlink c }

theorem coverRows_horiz : (coverRows T m c P).horiz = m.horiz.unlink c := by
  rw [coverRows, foldl_hideRow, Nodes.foldl_hide_horiz]

theorem coverRows_vert : (coverRows T m c P).vert = (P.flatMap T.others).foldl Links.unlink m.vert := by
  rw [coverRows, foldl_hideRow, Nodes.foldl_hide_vert]

/-- What is hidden are different nodes of columns that are left. -/
theorem hidden (h : Rep T m H) (hP : P <+: T.column H c) : (P.flatMap T.others).Nodup ∧
    ∀ j ∈ P.flatMap T.others, ¬ j ∈ H ∧ ∃ d, d ∈ H ∧ j ∈ T.column H d := by
  have hsub : ∀ x ∈ P, x ∈ T.column H c := fun _ hx => hP.subset hx
  refine ⟨Matrix.hidden_nodup hsub (Matrix.column_nodup.sublist hP.sublist), fun j hj => ?_⟩
  have hcol := (Matrix.mem_hidden hsub hj).1
  obtain ⟨hjn, -, hlive⟩ := Matrix.mem_column.1 hcol
  exact ⟨h.node_not_mem hjn, T.col j, hlive _ Matrix.col_mem_items, hcol⟩

theorem coverRows_columns (h : Rep T m H) (hP : P <+: T.column H c) (hd : d ∈ H) :
    (coverRows T m c P).vert.Ring d ((T.column H d).filter (· ∉ P.flatMap T.others)) := by
  obtain ⟨hnodup, hmem⟩ := h.hidden hP
  rw [coverRows_vert]
  exact Links.rings_unlink (D := (· ∈ H)) h.columns hnodup hmem hd

section
variable (h : Rep T m H) (hc : c ∈ H)
include h hc

theorem head_linked : m.horiz.Linked c := h.header.linked hc

theorem coverRows_rows (hx : x ∈ T.nodes) : (coverRows T m c P).horiz.Ring x (T.others x) := by
  have hxc : x ≠ c := fun he => h.node_not_mem hx (he ▸ hc)
  have hr := (h.head_linked hc).ring_unlink (h.rows x hx) hxc
  have hself : (T.others x).filter (· ≠ c) = T.others x := by
    rw [List.filter_eq_self]
    intro y hy
    exact decide_eq_true fun he => h.node_not_mem (T.others_mem x hx y hy) (he ▸ hc)
  rwa [hself, ← coverRows_horiz] at hr

/-- Hiding one more row is undone by the loop of `uncover` along the row. -/
theorem forEach_left (hx : x ∈ T.nodes) (hP : P ++ [x] <+: T.column H c) :
    (hideRow T (coverRows T m c P) x).forEach Nodes.left x (fun m j => some (m.unhide j)) =
      some (coverRows T m c P) := by
  refine Nodes.forEach_undo Nodes.horiz rfl (Matrix.others_le hx) ?_ fun pre j post hj => ⟨?_, ?_⟩
  · rw [Nodes.foldl_hide_horiz]
    exact h.coverRows_rows hc hx
  · have hall : (P ++ [x]).flatMap T.others = (P.flatMap T.others ++ pre) ++ j :: post := by simp [hj]
    obtain ⟨hnodup, hmem⟩ := h.hidden hP
    refine congrArg some (Nodes.unhide_hide ?_)
    rw [Nodes.foldl_hide_vert, coverRows_vert, ← List.foldl_append]
    exact Links.linked_unlink (D := (· ∈ H)) h.columns hnodup hmem hall
  · rw [Nodes.foldl_hide_horiz]
    exact h.coverRows_rows hc hx

/-- The ring of the column that is being covered stays. -/
theorem coverRows_self (hP : P <+: T.column H c) : (coverRows T m c P).vert.Ring c (T.column H c) := by
  have := h.coverRows_columns hP hc
  rwa [Matrix.column_filter_self fun _ hx => hP.subset hx] at this

/-- `cover` hides all rows of the column. -/
theorem cover_eq : m.cover c = some (coverRows T m c (T.column H c)) := by
  refine Nodes.forEach_ring Nodes.vert rfl Matrix.column_le (h.columns c hc) fun pre x post hl => ⟨?_, ?_⟩
  · have hx := Matrix.node_of_split hl
    exact forEach_right hx (h.coverRows_rows hc hx)
  · have := h.coverRows_self hc (P := pre ++ [x]) ⟨post, by rw [hl]; simp⟩
    rwa [coverRows, List.foldl_append] at this

/-- `uncover` takes them back. -/
theorem uncover_coverRows : (coverRows T m c (T.column H c)).uncover c = some m := by
  have hloop : (coverRows T m c (T.column H c)).forEach Nodes.up c
      (fun m row => m.forEach Nodes.left row fun m j => some (m.unhide j)) =
      some { m with horiz := m.horiz.unlink c } := by
    refine Nodes.forEach_undo Nodes.vert rfl Matrix.column_le (h.coverRows_self hc ⟨[], List.append_nil _⟩)
      fun pre x post hl => ⟨?_, h.coverRows_self hc ⟨x :: post, hl.symm⟩⟩
    exact h.forEach_left hc (Matrix.node_of_split hl) ⟨post, by rw [hl]; simp⟩
  rw [Nodes.uncover, hloop]
  simp only [Option.map_some, (h.head_linked hc).relink_unlink]

/-- **Covering a column** leaves the matrix with one column less. -/
theorem cover : Rep T (coverRows T m c (T.column H c)) (H.filter (· ≠ c)) where
  sub d hd := h.sub d (List.mem_of_mem_filter hd)
  header := by
    rw [coverRows_horiz]
    exact (h.head_linked hc).ring_unlink h.header (h.header.ne_head hc).symm
  rows x hx := h.coverRows_rows hc hx
  columns d hd := by
    obtain ⟨hdH, hdc⟩ := List.mem_filter.1 hd
    have := h.coverRows_columns (c := c) ⟨[], List.append_nil _⟩ hdH
    rwa [Matrix.column_filter (of_decide_eq_true hdc)] at this
  col x hx := by
    rw [coverRows, foldl_hideRow, Nodes.foldl_hide_col]
    exact h.col x hx
  name x hx := by
    rw [coverRows, foldl_hideRow, Nodes.foldl_hide_name]
    exact h.name x hx

end

/-! ### The columns of a row, one after the other -/

def coverCol (m : Nodes) (j : Nat) : Nodes := (m.cover (m.col j)).getD m

section
variable {j : Nat} (h : Rep T m H) (hj : j ∈ T.nodes) (hcol : T.col j ∈ H)
include h hj hcol

theorem cover_col : m.cover (m.col j) = some (coverCol m j) := by
  rw [coverCol, h.col j hj, h.cover_eq hcol]
  rfl

theorem coverCol_rep : Rep T (coverCol m j) (H.filter (· ≠ T.col j)) := by
  rw [coverCol, h.col j hj, h.cover_eq hcol]
  exact h.cover hcol

theorem uncover_col : (coverCol m j).uncover ((coverCol m j).col j) = some m := by
  rw [(h.coverCol_rep hj hcol).col j hj, coverCol, h.col j hj, h.cover_eq hcol]
  exact h.uncover_coverRows hcol

end

theorem foldl_coverCol {js : List Nat} (h : Rep T m H) (hjs : ∀ j ∈ js, j ∈ T.nodes ∧ T.col j ∈ H)
    (hnd : (js.map T.col).Nodup) : Rep T (js.foldl coverCol m) (H.filter (· ∉ js.map T.col)) := by
  induction js generalizing m H with
  | nil => simpa using h
  | cons j js ih =>
    obtain ⟨hj, hcol⟩ := hjs j List.mem_cons_self
    rw [List.map_cons, List.nodup_cons] at hnd
    have hrec := ih (h.coverCol_rep hj hcol) (fun i hi => ?_) hnd.2
    · rwa [Links.filter_ne_filter] at hrec
    · obtain ⟨hin, hicol⟩ := hjs i (List.mem_cons_of_mem j hi)
      have hne : T.col i ≠ T.col j := fun he => hnd.1 (he ▸ List.mem_map_of_mem hi)
      exact ⟨hin, List.mem_filter.2 ⟨hicol, decide_eq_true hne⟩⟩

section
variable {pre post : List Nat} {j : Nat} (h : Rep T m H) (hx : x ∈ T.nodes) (hcols : ∀ j ∈ T.others x, T.col j ∈ H)
include hx hcols

include h in
/-- The links after the first few columns of a row. -/
theorem coverCols_rep (hl : T.others x = pre ++ post) :
    Rep T (pre.foldl coverCol m) (H.filter (· ∉ pre.map T.col)) := by
  refine h.foldl_coverCol (fun j hj => ?_) ?_
  · have hjx : j ∈ T.others x := by rw [hl]; exact List.mem_append_left post hj
    exact ⟨T.others_mem x hx j hjx, hcols j hjx⟩
  · have hnd := (List.nodup_cons.1 (T.items_nodup x hx)).2
    rw [hl, List.map_append] at hnd
    exact (List.nodup_append.1 hnd).1

/-- The column of the next node is still there. -/
theorem coverCols_next (hl : T.others x = pre ++ j :: post) :
    j ∈ T.nodes ∧ T.col j ∈ H.filter (· ∉ pre.map T.col) := by
  have hjx : j ∈ T.others x := by rw [hl]; exact List.mem_append_right pre List.mem_cons_self
  have hnd := (List.nodup_cons.1 (T.items_nodup x hx)).2
  rw [hl, List.map_append, List.map_cons] at hnd
  refine ⟨T.others_mem x hx j hjx, List.mem_filter.2 ⟨hcols j hjx, decide_eq_true fun hmem => ?_⟩⟩
  exact (List.nodup_append.1 hnd).2.2 _ hmem _ List.mem_cons_self rfl

include h in
/-- The loops of `solve` over the other columns of a row: the second one undoes the first. -/
theorem coverRow :
    ∃ m', m.forEach Nodes.right x (fun m j => m.cover (m.col j)) = some m' ∧
      Rep T m' (H.filter (· ∉ (T.others x).map T.col)) ∧
      m'.forEach Nodes.left x (fun m j => m.uncover (m.col j)) = some m := by
  have hall := h.coverCols_rep hx hcols (List.append_nil _).symm
  refine ⟨(T.others x).foldl coverCol m, ?_, hall, ?_⟩
  · apply Nodes.forEach_ring Nodes.horiz rfl (Matrix.others_le hx) (h.rows x hx)
    intro pre j post hl
    have hpre := h.coverCols_rep hx hcols hl
    obtain ⟨hj, hcol⟩ := coverCols_next hx hcols hl
    exact ⟨hpre.cover_col hj hcol, (hpre.coverCol_rep hj hcol).rows x hx⟩
  · apply Nodes.forEach_undo Nodes.horiz rfl (Matrix.others_le hx) (hall.rows x hx)
    intro pre j post hl
    have hpre := h.coverCols_rep hx hcols hl
    obtain ⟨hj, hcol⟩ := coverCols_next hx hcols hl
    exact ⟨hpre.uncover_col hj hcol, hpre.rows x hx⟩

end

end Rep

end ChatReactor
