import ChatReactor.Lib.Emit
import ChatReactor.SudokuLayout

/-!
# The constructor of `SudokuSolver`

The loops append the columns `columnNames` and add the rows `candidates`; `Headed` and `Laid` describe the solver
after the first so many of them. `new_spec` says that no assertion fails and that the links the constructor has
made are those of the matrix with all its columns.
-/

namespace ChatReactor

open Nodes (root)
open SudokuSolver (rowOf colOf boxOf getRowCol getColCol getBoxCol)

/-! ## Making the columns -/

/-- The solver after the columns `done`. -/
structure Headed (board : Nat → Int) (done : List Nat) (s : SudokuSolver) : Prop where
  inout : s.inout = board
  stack : s.stack = []
  curNode : s.curNode = done.length + 1
  columns : ∀ n, s.columns n = if n ∈ done then some (done.idxOf n + 1) else none
  header : s.nodes.horiz.Ring root (List.range' 1 done.length)
  empty : ∀ d, 1 ≤ d → d ≤ done.length → s.nodes.vert.Ring d [] ∧ s.nodes.size d = 0

variable {s : SudokuSolver}

theorem appendColumn_eq {n : Nat} (hcol : s.columns n = none) (hcur : s.curNode < kMaxNodes) :
    s.appendColumn n = some
      { s with
        nodes := { (s.nodes.clear s.curNode).putLeft root s.curNode with
                   name := Function.update (s.nodes.clear s.curNode).name s.curNode n }
        columns := Function.update s.columns n (some s.curNode)
        curNode := s.curNode + 1 } := by
  simp only [SudokuSolver.appendColumn, SudokuSolver.newColumn, check_of hcol, check_of hcur, Option.bind_eq_bind,
    Option.bind_some]
  rfl

variable {board : Nat → Int}

theorem Headed.appendColumn {done : List Nat} (h : Headed board done s) {n : Nat} (hn : n ∉ done)
    (hlen : done.length + 1 < kMaxNodes) : ∃ s', s.appendColumn n = some s' ∧ Headed board (done ++ [n]) s' := by
  have hcol : s.columns n = none := by rw [h.columns, if_neg hn]
  have hnew : s.curNode ∉ root :: List.range' 1 done.length := by
    simp only [h.curNode, List.mem_cons, List.mem_range'_1, root]
    omega
  refine ⟨_, appendColumn_eq hcol (by rw [h.curNode]; exact hlen), h.inout, h.stack, ?_, fun n' => ?_, ?_, fun d hd hd' => ?_⟩
  · simp [h.curNode]
  · by_cases hn' : n' = n
    · subst hn'
      simp [h.curNode, List.idxOf_append_of_notMem hn]
    · by_cases hmem : n' ∈ done
      · simp [hn', h.columns, hmem, List.idxOf_append_of_mem hmem]
      · simp [hn', h.columns, hmem]
  · have hring := (h.header.fresh hnew).insertBefore hnew
    have hrange : List.range' 1 (done ++ [n]).length = List.range' 1 done.length ++ [s.curNode] := by
      rw [h.curNode, List.length_append, List.length_singleton, List.range'_concat]
      simp [Nat.add_comm]
    rw [hrange]
    exact hring
  · by_cases hnewd : d = s.curNode
    · subst hnewd
      exact ⟨Links.ring_fresh _ _, Function.update_self _ _ _⟩
    · have hle : d ≤ done.length := by
        rw [h.curNode] at hnewd
        simp only [List.length_append, List.length_singleton] at hd'
        omega
      obtain ⟨hring, hsize⟩ := h.empty d hd hle
      exact ⟨hring.fresh (by simpa using Ne.symm hnewd), (Function.update_of_ne hnewd _ _).trans hsize⟩

/-- The constructor's first step: only the root. -/
theorem Headed.root (board : Nat → Int) :
    ∃ s, (SudokuSolver.blank board).newColumn 0 = some (Nodes.root, s) ∧ Headed board [] s := by
  refine ⟨_, by simp only [SudokuSolver.newColumn, Option.bind_eq_bind]; rfl, rfl, rfl, rfl, fun n => rfl, ?_, ?_⟩
  · exact Links.ring_fresh _ _
  · intro d hd hd'
    simp at hd'
    omega

/-! ## The loops over the columns -/

section
open SudokuSolver (Seen seen values appendColumns addCandidates)

variable {α β : Type}

def keepUnless (b : Bool) (l : List α) : List α := if b then [] else l

/-- The columns for a digit in a row, a column and a box. -/
def unitNames (a : Seen) (i v : Nat) : List Nat :=
  keepUnless (a.rows i v) [getRowCol i v] ++
    (keepUnless (a.cols i v) [getColCol i v] ++ keepUnless (a.boxes i v) [getBoxCol i v])

def columnNames (board : Nat → Int) : List Nat :=
  (List.range kCells).flatMap (fun i => keepUnless (board i != 0) [i]) ++
    (List.range 9).flatMap fun i => values.flatMap fun v => unitNames (seen board) i v

/-- All the columns of an empty board. -/
def allNames : List Nat :=
  List.range kCells ++ (List.range 9).flatMap fun i => values.flatMap fun v =>
    [getRowCol i v, getColCol i v, getBoxCol i v]

theorem keepUnless_sublist (b : Bool) (l : List α) : List.Sublist (keepUnless b l) l := by
  cases b
  · exact .refl l
  · exact List.nil_sublist l

theorem flatMap_sublist {f g : α → List β} {l : List α} (h : ∀ a ∈ l, List.Sublist (f a) (g a)) :
    List.Sublist (l.flatMap f) (l.flatMap g) := by
  induction l with
  | nil => exact .refl _
  | cons a l ih =>
    exact (h a List.mem_cons_self).append (ih fun b hb => h b (List.mem_cons_of_mem a hb))

theorem columnNames_sublist (board : Nat → Int) : List.Sublist (columnNames board) allNames := by
  refine List.Sublist.append ?_ (flatMap_sublist fun i _ => flatMap_sublist fun v _ => ?_)
  · have := flatMap_sublist (g := fun i => [i]) (l := List.range kCells) fun i _ => keepUnless_sublist (board i != 0) [i]
    simpa using this
  · exact (keepUnless_sublist _ _).append ((keepUnless_sublist _ _).append (keepUnless_sublist _ _))

theorem mem_unit {i v n : Nat} : n ∈ [getRowCol i v, getColCol i v, getBoxCol i v] ↔
    n = 100 + i * 10 + v ∨ n = 200 + i * 10 + v ∨ n = 300 + i * 10 + v := by
  simp [getRowCol, getColCol, getBoxCol, kRow, kCol, kBox]

theorem mem_values {v : Nat} : v ∈ values ↔ 1 ≤ v ∧ v ≤ 9 := by
  simp only [values, List.mem_range'_1]
  omega

theorem allNames_nodup : allNames.Nodup := by
  rw [allNames, List.nodup_append, List.nodup_flatMap]
  refine ⟨List.nodup_range, ⟨fun i hi => ?_, ?_⟩, fun n hn m hm => ?_⟩
  · rw [List.nodup_flatMap]
    refine ⟨fun v _ => by simp [getRowCol, getColCol, getBoxCol, kRow, kCol, kBox], ?_⟩
    have hnd : values.Nodup := List.nodup_range'
    refine hnd.imp_of_mem fun {v w} hv hw hne n hn hn' => ?_
    rw [mem_values] at hv hw
    rw [List.mem_range] at hi
    rw [mem_unit] at hn hn'
    omega
  · refine List.nodup_range.imp_of_mem fun {i j} hi hj hne n hn hn' => ?_
    obtain ⟨v, hv, hn⟩ := List.mem_flatMap.1 hn
    obtain ⟨w, hw, hn'⟩ := List.mem_flatMap.1 hn'
    rw [List.mem_range] at hi hj
    rw [mem_values] at hv hw
    rw [mem_unit] at hn hn'
    omega
  · obtain ⟨i, hi, hm⟩ := List.mem_flatMap.1 hm
    obtain ⟨v, hv, hm⟩ := List.mem_flatMap.1 hm
    rw [List.mem_range, kCells] at hn
    rw [mem_unit] at hm
    omega

theorem columnNames_nodup (board : Nat → Int) : (columnNames board).Nodup :=
  allNames_nodup.sublist (columnNames_sublist board)

theorem columnNames_le (board : Nat → Int) : (columnNames board).length ≤ 81 * 4 :=
  (columnNames_sublist board).length_le.trans (by decide +kernel)

variable {board : Nat → Int}

theorem emits_column (n : Nat) : Emits (columnNames board) (Headed board) (fun s => s.appendColumn n) [n] := by
  intro done rest s hall hs
  have hnd := columnNames_nodup board
  have hle := columnNames_le board
  rw [hall] at hnd hle
  refine hs.appendColumn (fun hn => ?_) ?_
  · exact (List.nodup_append.1 hnd).2.2 n hn n (by simp) rfl
  · simp only [List.length_append, List.length_singleton] at hle
    simp only [kMaxNodes]
    omega

theorem emits_unless (b : Bool) (n : Nat) :
    Emits (columnNames board) (Headed board) (fun s => s.appendColumnUnless b n) (keepUnless b [n]) :=
  Emits.skipIf b (emits_column n)

/-- The loops over the cells pass over those that are given. -/
theorem emits_ifEmpty {all out : List α} {I : List α → SudokuSolver → Prop} {f : SudokuSolver → Option SudokuSolver}
    (hI : ∀ done s, I done s → s.inout = board) (i : Nat) (h : Emits all I f out) :
    Emits all I (fun s => if s.inout i = 0 then f s else some s) (keepUnless (board i != 0) out) := by
  refine Emits.skipUnless (fun done s hs => ?_) h
  rw [hI done s hs, bne_eq_false_iff_eq]

/-- The second and the third loop. -/
theorem emits_columns : Emits (columnNames board) (Headed board) (appendColumns (seen board)) (columnNames board) := by
  refine Emits.seq (Emits.loop fun i _ => ?_) (Emits.loop fun i _ => Emits.loop fun v _ => ?_)
  · exact emits_ifEmpty (fun _ _ hs => hs.inout) i (emits_column i)
  · exact Emits.seq (emits_unless _ _) (Emits.seq (emits_unless _ _) (emits_unless _ _))

end

/-! ## Making the rows -/

/-- The links after the nodes before `n`, of which those before `b` have been joined into rows. -/
structure Wired (L : Layout) (m : Nodes) (b n : Nat) : Prop where
  header : m.horiz.Ring root (List.range' 1 L.names.length)
  rows : ∀ x, L.base ≤ x → x < b → m.horiz.Ring x (L.othersAt x)
  single : ∀ x, b ≤ x → x < n → m.horiz.Ring x []
  columns : ∀ d, 1 ≤ d → d < L.base → m.vert.Ring d (L.upTo n d) ∧ m.size d = (L.upTo n d).length
  col : ∀ x, L.base ≤ x → x < n → m.col x = L.colAt x
  name : ∀ x, L.base ≤ x → x < n → m.name x = L.nameAt x

/-- The links that `new_row` makes. -/
def addNode (m : Nodes) (r name c : Nat) : Nodes :=
  { m.clear r with name := Function.update (m.clear r).name r name }.putUp c r

theorem newRow_eq {n c : Nat} (hcol : s.columns n = some c) (hcur : s.curNode < kMaxNodes) :
    s.newRow n = some (s.curNode, { s with nodes := addNode s.nodes s.curNode n c, curNode := s.curNode + 1 }) := by
  simp only [SudokuSolver.newRow, hcol, check_of hcur, Option.bind_eq_bind, Option.bind_some]
  rfl

theorem addNode_col (m : Nodes) (r name c x : Nat) : (addNode m r name c).col x = if x = r then c else m.col x := by
  have hcol : (addNode m r name c).col = Function.update (Function.update m.col r r) r c := rfl
  rw [hcol, Function.update_idem, Function.update_apply]

theorem addNode_name (m : Nodes) (r name c x : Nat) :
    (addNode m r name c).name x = if x = r then name else m.name x := by
  have hname : (addNode m r name c).name = Function.update (Function.update m.name r 0) r name := rfl
  rw [hname, Function.update_idem, Function.update_apply]

theorem addNode_size (m : Nodes) {r name c d : Nat} (hd : d ≠ r) :
    (addNode m r name c).size d = m.size d + if c = d then 1 else 0 := by
  have hclear : (m.clear r).size d = m.size d := Function.update_of_ne hd _ _
  by_cases hcd : c = d
  · subst hcd
    rw [if_pos rfl, ← hclear]
    exact Function.update_self _ _ _
  · rw [if_neg hcd, Int.add_zero, ← hclear]
    exact Function.update_of_ne (Ne.symm hcd) _ _

/-- The new node goes to the end of its column, the other columns stay. -/
theorem Wired.addNode_column {L : Layout} {m : Nodes} {b n d : Nat} (h : Wired L m b n) (hn : L.base ≤ n)
    (hn' : n < L.top) (hd : 1 ≤ d) (hd' : d < L.base) :
    (addNode m n (L.nameAt n) (L.colAt n)).vert.Ring d (L.upTo (n + 1) d) := by
  have hnot : ∀ {x d}, x ≠ d → x < L.base ∨ n ≤ x → x ∉ d :: L.upTo n d := by
    intro x d hxd hx hmem
    rcases List.mem_cons.1 hmem with heq | hmem
    · exact hxd heq
    · have := Layout.mem_upTo hmem
      omega
  have hfresh : ∀ d, 1 ≤ d → d < L.base → (m.vert.fresh n).Ring d (L.upTo n d) := fun d hd hd' =>
    (h.columns d hd hd').1.fresh (hnot (by omega) (.inr le_rfl))
  obtain ⟨hc, hc'⟩ := Layout.colAt_lt hn hn'
  rw [Layout.upTo_succ hn]
  by_cases hdc : L.colAt n = d
  · subst hdc
    rw [if_pos rfl]
    exact (hfresh _ hd hd').insertBefore (hnot (by omega) (.inr le_rfl))
  · rw [if_neg hdc, List.append_nil]
    exact (hfresh d hd hd').insertBefore_other (hfresh _ hc hc').path.last_adj (by omega)
      (hnot (by omega) (.inr le_rfl)) (hnot hdc (.inl hc'))

theorem Wired.addNode {L : Layout} {m : Nodes} {b n : Nat} (h : Wired L m b n) (hb : L.base ≤ b) (hbn : b ≤ n)
    (hn : n < L.top) (hrows : ∀ x, L.base ≤ x → x < b → n ∉ x :: L.othersAt x) :
    Wired L (addNode m n (L.nameAt n) (L.colAt n)) b (n + 1) := by
  constructor
  · refine h.header.fresh ?_
    simp only [List.mem_cons, List.mem_range'_1, root]
    simp only [Layout.base] at hb
    omega
  · exact fun x hx hx' => (h.rows x hx hx').fresh (hrows x hx hx')
  · intro x hx hx'
    by_cases hxn : x = n
    · subst hxn
      exact Links.ring_fresh _ _
    · exact (h.single x hx (by omega)).fresh (by simpa using Ne.symm hxn)
  · intro d hd hd'
    refine ⟨h.addNode_column (hb.trans hbn) hn hd hd', ?_⟩
    rw [addNode_size m (by omega), (h.columns d hd hd').2, Layout.upTo_succ (hb.trans hbn)]
    split <;> simp
  · intro x hx hx'
    rw [addNode_col]
    split
    · next hxn => rw [hxn]
    · exact h.col x hx (by omega)
  · intro x hx hx'
    rw [addNode_name]
    split
    · next hxn => rw [hxn]
    · exact h.name x hx (by omega)

section
variable {L : Layout} {m : Nodes} {q t : Nat}

theorem place_inj {q' t' : Nat} (ht : t < 4) (ht' : t' < 4) (h : L.place q t = L.place q' t') : q = q' ∧ t = t' := by
  simp only [Layout.place] at h
  omega

/-- The nodes of a row are not in the rows before it. -/
theorem place_not_mem {x : Nat} (hq : q < L.cands.length) (hx : L.base ≤ x) (hxq : x < L.place q 0) (ht : t < 4) :
    L.place q t ∉ x :: L.othersAt x := by
  have hxt : x < L.top := hxq.trans (Layout.place_lt hq (by decide))
  obtain ⟨q', t', -, ht', rfl⟩ := Layout.exists_place hx hxt
  have hne : q ≠ q' := by
    rintro rfl
    simp only [Layout.place] at hxq
    omega
  intro hmem
  rcases List.mem_cons.1 hmem with heq | hmem
  · exact hne (place_inj ht ht' heq).1
  · obtain ⟨t'', ht'', heq⟩ := Layout.exists_of_mem_others ht' hmem
    exact hne (place_inj ht ht'' heq).1

/-- The three calls of `put_left` that join the nodes of a row. -/
def joinRow (m : Nodes) (n0 nr nc nb : Nat) : Nodes := ((m.putLeft n0 nr).putLeft n0 nc).putLeft n0 nb

theorem joinRow_ring {n0 nr nc nb : Nat} (hnd : [n0, nr, nc, nb].Nodup) (h : m.horiz.Ring n0 []) :
    (joinRow m n0 nr nc nb).horiz.Ring n0 [nr, nc, nb] ∧
      ∀ {a : Nat} {l : List Nat}, m.horiz.Ring a l → (∀ n ∈ [n0, nr, nc, nb], n ∉ a :: l) →
        (joinRow m n0 nr nc nb).horiz.Ring a l := by
  simp only [List.nodup_cons, List.mem_cons, List.not_mem_nil, or_false, not_or, not_false_eq_true, List.nodup_nil,
    and_true] at hnd
  obtain ⟨⟨h01, h02, h03⟩, ⟨h12, h13⟩, h23⟩ := hnd
  have h₁ := h.insertBefore (x := nr) (by simpa using Ne.symm h01)
  have h₂ := h₁.insertBefore (x := nc) (by simp [Ne.symm h02, Ne.symm h12])
  have h₃ := h₂.insertBefore (x := nb) (by simp [Ne.symm h03, Ne.symm h13, Ne.symm h23])
  refine ⟨h₃, fun {a l} hr hnot => ?_⟩
  have hn0 : n0 ∉ a :: l := hnot n0 (by simp)
  have hr₁ := hr.insertBefore_other h.path.last_adj (Ne.symm h01) (hnot nr (by simp)) hn0
  have hr₂ := hr₁.insertBefore_other h₁.path.last_adj (Ne.symm h02) (hnot nc (by simp)) hn0
  exact hr₂.insertBefore_other h₂.path.last_adj (Ne.symm h03) (hnot nb (by simp)) hn0

theorem Wired.join (hq : q < L.cands.length) (h : Wired L m (L.place q 0) (L.place (q + 1) 0)) :
    Wired L (joinRow m (L.place q 0) (L.place q 1) (L.place q 2) (L.place q 3)) (L.place (q + 1) 0)
      (L.place (q + 1) 0) := by
  have hnd : [L.place q 0, L.place q 1, L.place q 2, L.place q 3].Nodup := by simp [Layout.place]
  have hsingle := h.single (L.place q 0) le_rfl (by simp [Layout.place])
  obtain ⟨hrow, hother⟩ := joinRow_ring hnd hsingle
  have hmem : ∀ n ∈ [L.place q 0, L.place q 1, L.place q 2, L.place q 3], ∃ t < 4, n = L.place q t := by
    simp only [List.mem_cons, List.not_mem_nil, or_false]
    rintro n (rfl | rfl | rfl | rfl)
    exacts [⟨0, by decide, rfl⟩, ⟨1, by decide, rfl⟩, ⟨2, by decide, rfl⟩, ⟨3, by decide, rfl⟩]
  refine ⟨?_, fun x hx hx' => ?_, fun x hx hx' => by omega, h.columns, h.col, h.name⟩
  · refine hother h.header fun n hn => ?_
    obtain ⟨t, -, rfl⟩ := hmem n hn
    simp only [List.mem_cons, List.mem_range'_1, root, Layout.place, Layout.base]
    omega
  · by_cases hxq : x < L.place q 0
    · refine hother (h.rows x hx hxq) fun n hn => ?_
      obtain ⟨t, ht, rfl⟩ := hmem n hn
      exact place_not_mem hq hx hxq ht
    · -- the four nodes of the row itself
      obtain ⟨t, ht, rfl⟩ : ∃ t < 4, x = L.place q t := by
        refine ⟨x - L.place q 0, ?_, ?_⟩ <;> simp only [Layout.place] at hxq hx' ⊢ <;> omega
      rw [Layout.othersAt_place ht]
      interval_cases t
      · exact hrow
      · exact hrow.rotate
      · exact hrow.rotate.rotate
      · exact hrow.rotate.rotate.rotate

end

/-- The solver after the rows of `q` candidates, and `t` nodes of the next one. -/
structure Laid (board : Nat → Int) (L : Layout) (q t : Nat) (s : SudokuSolver) : Prop where
  inout : s.inout = board
  stack : s.stack = []
  curNode : s.curNode = L.place q t
  columns : ∀ n ∈ L.names, s.columns n = some (L.headOf n)
  wired : Wired L s.nodes (L.place q 0) (L.place q t)

section
variable {board : Nat → Int} {L : Layout} {q t : Nat} {s : SudokuSolver}

/-- Before the first row. -/
theorem Headed.laid (h : Headed board L.names s) : Laid board L 0 0 s where
  inout := h.inout
  stack := h.stack
  curNode := h.curNode
  columns n hn := by
    rw [h.columns, if_pos hn]
    rfl
  wired := by
    have hbase : L.place 0 0 = L.base := rfl
    rw [hbase]
    refine ⟨h.header, fun x hx hx' => by omega, fun x hx hx' => by omega, fun d hd hd' => ?_, fun x hx hx' => by omega,
      fun x hx hx' => by omega⟩
    have hnil : L.upTo L.base d = [] := by simp [Layout.upTo]
    rw [hnil]
    exact h.empty d hd (Nat.le_of_lt_succ hd')

theorem Laid.newRow (h : Laid board L q t s) (hq : q < L.cands.length) (ht : t < 4) :
    ∃ s', s.newRow (L.nameAt (L.place q t)) = some (L.place q t, s') ∧ Laid board L q (t + 1) s' := by
  have hlt : L.place q t < L.top := Layout.place_lt hq ht
  have hbase : L.base ≤ L.place q 0 := Nat.le_add_right _ _
  have hle : L.place q 0 ≤ L.place q t := by simp [Layout.place]
  have hcol := h.columns _ (Layout.nameAt_mem (hbase.trans hle) hlt)
  have heq := newRow_eq hcol (by rw [h.curNode]; exact hlt.trans_le Layout.top_le)
  have hwired := h.wired.addNode hbase hle hlt fun x hx hxq => place_not_mem hq hx hxq ht
  rw [h.curNode] at heq
  exact ⟨_, heq, h.inout, h.stack, rfl, h.columns, hwired⟩

theorem Laid.addCandidate (h : Laid board L q 0 s) (hq : q < L.cands.length) :
    ∃ s', s.addCandidate (L.cands.getD q (0, 0)).1 (L.cands.getD q (0, 0)).2 = some s' ∧ Laid board L (q + 1) 0 s' := by
  have hname : ∀ t, t < 4 → L.nameAt (L.place q t) = (itemNames (L.cands.getD q (0, 0))).getD t 0 :=
    fun t ht => Layout.nameAt_place hq ht
  obtain ⟨s₁, hs₁, h₁⟩ := h.newRow hq (by decide)
  obtain ⟨s₂, hs₂, h₂⟩ := h₁.newRow hq (by decide)
  obtain ⟨s₃, hs₃, h₃⟩ := h₂.newRow hq (by decide)
  obtain ⟨s₄, hs₄, h₄⟩ := h₃.newRow hq (by decide)
  rw [hname _ (by decide)] at hs₁ hs₂ hs₃ hs₄
  refine ⟨{ s₄ with nodes := joinRow s₄.nodes (L.place q 0) (L.place q 1) (L.place q 2) (L.place q 3) }, ?_, ?_⟩
  · simp only [itemNames, List.getD_cons_zero, List.getD_cons_succ] at hs₁ hs₂ hs₃ hs₄
    simp only [SudokuSolver.addCandidate, hs₁, hs₂, hs₃, hs₄, Option.bind_eq_bind, Option.bind_some]
    rfl
  · exact ⟨h₄.inout, h₄.stack, h₄.curNode, h₄.columns, h₄.wired.join hq⟩

end

/-- With all its rows the solver holds the matrix. -/
theorem Laid.rep {L : Layout} (h : Laid board L L.cands.length 0 s) :
    Rep L.matrix s.nodes L.matrix.heads where
  sub d hd := hd
  header := h.wired.header
  rows x hx := h.wired.rows x (List.mem_range'_1.1 hx).1 (List.mem_range'_1.1 hx).2
  columns d hd := by
    have hd := List.mem_range'_1.1 hd
    rw [Layout.column_eq]
    exact (h.wired.columns d hd.1 (by rw [Layout.base]; omega)).1
  col x hx := h.wired.col x (List.mem_range'_1.1 hx).1 (List.mem_range'_1.1 hx).2
  name x hx := h.wired.name x (List.mem_range'_1.1 hx).1 (List.mem_range'_1.1 hx).2

/-! ## The loops over the candidates -/

section
open SudokuSolver (Seen seen values appendColumns addCandidates)

/-- The digit is given in a unit of the cell. -/
def excluded (a : Seen) (i v : Nat) : Bool := a.rows (rowOf i) v || a.cols (colOf i) v || a.boxes (boxOf i) v

def candidates (board : Nat → Int) : List (Nat × Nat) :=
  (List.range kCells).flatMap fun i => keepUnless (board i != 0)
    (values.flatMap fun v => keepUnless (excluded (seen board) i v) [(i, v)])

theorem candidates_sublist (board : Nat → Int) :
    List.Sublist (candidates board) ((List.range kCells).flatMap fun i => values.flatMap fun v => [(i, v)]) :=
  flatMap_sublist fun _ _ => (keepUnless_sublist _ _).trans (flatMap_sublist fun _ _ => keepUnless_sublist _ _)

theorem mem_keepUnless {α : Type} {b : Bool} {l : List α} {x : α} : x ∈ keepUnless b l ↔ b = false ∧ x ∈ l := by
  cases b <;> simp [keepUnless]

theorem mem_candidates {i v : Nat} : (i, v) ∈ candidates board ↔
    i < 81 ∧ board i = 0 ∧ 1 ≤ v ∧ v ≤ 9 ∧ excluded (seen board) i v = false := by
  simp only [candidates, List.mem_flatMap, mem_keepUnless, List.mem_range, kCells, mem_values, List.mem_singleton,
    Prod.mk.injEq, bne_eq_false_iff_eq]
  constructor
  · rintro ⟨i, hi, h0, v, hv, hex, rfl, rfl⟩
    exact ⟨hi, h0, hv.1, hv.2, hex⟩
  · rintro ⟨hi, h0, hv, hv', hex⟩
    exact ⟨i, hi, h0, v, ⟨hv, hv'⟩, hex, rfl, rfl⟩

theorem mem_columnNames {n : Nat} : n ∈ columnNames board ↔
    (n < 81 ∧ board n = 0) ∨ ∃ i v : Nat, i < 9 ∧ (1 ≤ v ∧ v ≤ 9) ∧
      ((seen board).rows i v = false ∧ n = getRowCol i v ∨ (seen board).cols i v = false ∧ n = getColCol i v ∨
        (seen board).boxes i v = false ∧ n = getBoxCol i v) := by
  simp only [columnNames, unitNames, List.mem_append, List.mem_flatMap, mem_keepUnless, List.mem_range, kCells,
    mem_values, List.mem_singleton, bne_eq_false_iff_eq]
  constructor
  · rintro (⟨i, hi, h0, rfl⟩ | ⟨i, hi, v, hv, h⟩)
    · exact .inl ⟨hi, h0⟩
    · exact .inr ⟨i, v, hi, hv, h⟩
  · rintro (⟨hi, h0⟩ | ⟨i, v, hi, hv, h⟩)
    · exact .inl ⟨n, hi, h0, rfl⟩
    · exact .inr ⟨i, hi, v, hv, h⟩

theorem candidates_le (board : Nat → Int) : (candidates board).length ≤ 9 * 9 * 9 :=
  (candidates_sublist board).length_le.trans (by decide +kernel)

theorem candidates_lt : ∀ p ∈ candidates board, p.1 < 81 ∧ 1 ≤ p.2 ∧ p.2 ≤ 9 := by
  rintro ⟨i, v⟩ hp
  obtain ⟨hi, -, hv, hv', -⟩ := mem_candidates.1 hp
  exact ⟨hi, hv, hv'⟩

/-- The columns that a candidate covers exist. -/
theorem itemNames_mem : ∀ p ∈ candidates board, ∀ n ∈ itemNames p, n ∈ columnNames board := by
  rintro ⟨i, v⟩ hp n hn
  obtain ⟨hi, h0, hv, hv', hex⟩ := mem_candidates.1 hp
  simp only [excluded, Bool.or_eq_false_iff] at hex
  have hrow : rowOf i < 9 := by simp only [rowOf]; omega
  have hcol : colOf i < 9 := by simp only [colOf]; omega
  have hbox : boxOf i < 9 := by simp only [boxOf, rowOf, colOf]; omega
  rw [mem_columnNames]
  rcases itemNames_iff.1 hn with rfl | rfl | rfl | rfl
  · exact .inl ⟨hi, h0⟩
  · exact .inr ⟨rowOf i, v, hrow, ⟨hv, hv'⟩, .inl ⟨hex.1.1, rfl⟩⟩
  · exact .inr ⟨colOf i, v, hcol, ⟨hv, hv'⟩, .inr (.inl ⟨hex.1.2, rfl⟩)⟩
  · exact .inr ⟨boxOf i, v, hbox, ⟨hv, hv'⟩, .inr (.inr ⟨hex.2, rfl⟩)⟩

/-- What the constructor lays out for a board. -/
def layout (board : Nat → Int) : Layout where
  names := columnNames board
  cands := candidates board
  names_nodup := columnNames_nodup board
  names_le := columnNames_le board
  cands_le := candidates_le board
  cands_lt := candidates_lt
  items_mem := itemNames_mem

variable {board : Nat → Int}

/-- The solver after the first candidates. -/
def LaidOut (board : Nat → Int) (done : List (Nat × Nat)) (s : SudokuSolver) : Prop :=
  Laid board (layout board) done.length 0 s

theorem emits_candidate (i v : Nat) :
    Emits (candidates board) (LaidOut board) (fun s => s.addCandidate i v) [(i, v)] := by
  intro done rest s hall hs
  have hq : done.length < (layout board).cands.length := by simp [layout, hall]
  have hp : (layout board).cands.getD done.length (0, 0) = (i, v) := by simp [layout, hall]
  obtain ⟨s', hs', h'⟩ := Laid.addCandidate hs hq
  rw [hp] at hs'
  refine ⟨s', hs', ?_⟩
  rw [LaidOut, List.length_append]
  exact h'

theorem emits_candidates :
    Emits (candidates board) (LaidOut board) (addCandidates (seen board)) (candidates board) := by
  refine Emits.loop fun i _ => emits_ifEmpty (fun _ _ hs => hs.inout) i ?_
  exact Emits.loop fun v _ => Emits.skipIf (excluded (seen board) i v) (emits_candidate i v)

/-- **The constructor** fails no assertion and lays out the columns and candidates of the board. -/
theorem new_spec (board : Nat → Int) :
    ∃ s, SudokuSolver.new board = some s ∧ Laid board (layout board) (layout board).cands.length 0 s := by
  obtain ⟨s₀, hs₀, h₀⟩ := Headed.root board
  obtain ⟨s₁, hs₁, h₁⟩ := emits_columns.run h₀
  obtain ⟨s₂, hs₂, h₂⟩ := emits_candidates.run (show LaidOut board [] s₁ from h₁.laid)
  refine ⟨s₂, ?_, h₂⟩
  simp only [SudokuSolver.new, hs₀, hs₁, hs₂, Option.bind_eq_bind, Option.bind_some]

end

end ChatReactor
