import Mathlib.Logic.Function.Basic
import Mathlib.Data.List.Induction
import Mathlib.Data.List.Nodup

/-!
# Circular doubly linked lists

Links are two functions on the nodes, `next` and `prev`. A `Ring` with head `d` is a cycle from `d` through
the nodes of a list and back to `d`; one pair of functions holds many rings. Everything rests on which pairs
of nodes are adjacent (`Adj`): taking a node out or putting one in changes that for its neighbours only.
A node that was taken out keeps its own links, so `relink` undoes `unlink` exactly.
-/

structure Links (N : Type) where
  next : N → N
  prev : N → N

namespace Links
variable {N : Type} {k k' : Links N} {a b d j x y : N} {l l' : List N}

/-- The same lists, read backwards. -/
def swap (k : Links N) : Links N := { next := k.prev, prev := k.next }

/-! ## Adjacent nodes, paths and rings -/

structure Adj (k : Links N) (x y : N) : Prop where
  next : k.next x = y
  prev : k.prev y = x

theorem Adj.swap (h : k.Adj x y) : k.swap.Adj y x := ⟨h.prev, h.next⟩

/-- From `a` through the nodes of a list to `b`. -/
def Path (k : Links N) : N → List N → N → Prop
  | a, [], b => k.Adj a b
  | a, x :: l, b => k.Adj a x ∧ k.Path x l b

/-- From `d` through the nodes of a list and back. -/
structure Ring (k : Links N) (d : N) (l : List N) : Prop where
  path : k.Path d l d
  nodup : (d :: l).Nodup

section
variable [DecidableEq N]

instance : Decidable (k.Adj x y) := decidable_of_iff (k.next x = y ∧ k.prev y = x) ⟨fun h => ⟨h.1, h.2⟩, fun h => ⟨h.1, h.2⟩⟩

instance decidablePath : (a : N) → (l : List N) → (b : N) → Decidable (k.Path a l b)
  | a, [], b => inferInstanceAs (Decidable (k.Adj a b))
  | a, x :: l, b => @instDecidableAnd (k.Adj a x) (k.Path x l b) inferInstance (decidablePath x l b)

instance : Decidable (k.Ring d l) :=
  decidable_of_iff (k.Path d l d ∧ (d :: l).Nodup) ⟨fun h => ⟨h.1, h.2⟩, fun h => ⟨h.1, h.2⟩⟩

end

/-- A node between two neighbours, neither of which it is. -/
structure Linked (k : Links N) (j : N) : Prop where
  left : k.Adj (k.prev j) j
  right : k.Adj j (k.next j)
  ne : k.next j ≠ j

theorem Linked.prev_ne (h : k.Linked j) : k.prev j ≠ j := by
  intro he
  have := h.left.next
  rw [he] at this
  exact h.ne this

namespace Path

theorem next_eq : ∀ {l : List N} {a : N}, k.Path a l b → k.next a = l.headD b
  | [], _, h => h.next
  | _ :: _, _, h => h.1.next

theorem append_iff : ∀ {l : List N} {a : N}, k.Path a (l ++ x :: l') b ↔ k.Path a l x ∧ k.Path x l' b
  | [], _ => Iff.rfl
  | y :: l, a => by
    simp only [List.cons_append, Path, append_iff (l := l), and_assoc]

theorem swap : ∀ {l : List N} {a : N}, k.Path a l b → k.swap.Path b l.reverse a
  | [], _, h => Adj.swap h
  | x :: l, a, h => by
    rw [List.reverse_cons]
    exact append_iff.2 ⟨swap h.2, h.1.swap⟩

theorem first_adj {l : List N} (h : k.Path a l b) : k.Adj a (k.next a) := by
  cases l with
  | nil => rw [h.next]; exact h
  | cons x l => rw [h.1.next]; exact h.1

theorem last_adj {l : List N} (h : k.Path a l b) : k.Adj (k.prev b) b := by
  induction l generalizing a with
  | nil => rw [h.prev]; exact h
  | cons x l ih => exact ih h.2

/-- A path survives where the nodes on it stay adjacent. -/
theorem mono : ∀ {l : List N} {a : N}, k.Path a l b →
    (∀ x y, x ∈ a :: l → y ∈ b :: l → k.Adj x y → k'.Adj x y) → k'.Path a l b
  | [], a, h, hadj => hadj a b (by simp) (by simp) h
  | x :: l, a, h, hadj => by
    refine ⟨hadj a x (by simp) (by simp) h.1, mono h.2 fun y z hy hz => hadj y z ?_ ?_⟩
    · exact List.mem_cons_of_mem a hy
    · rcases List.mem_cons.1 hz with rfl | hz
      · exact List.mem_cons_self
      · exact List.mem_cons_of_mem _ (List.mem_cons_of_mem _ hz)

end Path

/-- A path is determined by where it begins and ends. -/
theorem Path.unique : ∀ {l l' : List N} {a : N}, k.Path a l b → k.Path a l' b → b ∉ l → b ∉ l' → l = l'
  | [], [], _, _, _, _, _ => rfl
  | [], y :: l', a, h, h', _, hb' => by
    have hy : y = b := h'.1.next.symm.trans h.next
    exact absurd (hy ▸ List.mem_cons_self) hb'
  | x :: l, [], a, h, h', hb, _ => by
    have hx : x = b := h.1.next.symm.trans h'.next
    exact absurd (hx ▸ List.mem_cons_self) hb
  | x :: l, y :: l', a, h, h', hb, hb' => by
    obtain rfl : x = y := h.1.next.symm.trans h'.1.next
    rw [unique h.2 h'.2 (fun hm => hb (List.mem_cons_of_mem x hm)) fun hm => hb' (List.mem_cons_of_mem x hm)]

namespace Ring

theorem next_head (h : k.Ring d l) : k.next d = l.headD d := h.path.next_eq

theorem next_mid {l₁ l₂ : List N} (h : k.Ring d (l₁ ++ x :: l₂)) : k.next x = l₂.headD d :=
  (Path.append_iff.1 h.path).2.next_eq

theorem ne_head (h : k.Ring d l) (hx : x ∈ l) : x ≠ d := by
  rintro rfl
  exact (List.nodup_cons.1 h.nodup).1 hx

theorem swap (h : k.Ring d l) : k.swap.Ring d l.reverse where
  path := h.path.swap
  nodup := by
    have := h.nodup
    rw [List.nodup_cons] at this ⊢
    rwa [List.mem_reverse, List.nodup_reverse]

theorem prev_mem (h : k.Ring d l) : k.prev d ∈ d :: l := by
  have hp : k.prev d = l.reverse.headD d := h.swap.next_head
  rw [hp]
  cases hl : l.reverse with
  | nil => exact List.mem_cons_self
  | cons y l' =>
    have hy : y ∈ l := by rw [← List.mem_reverse, hl]; exact List.mem_cons_self
    exact List.mem_cons_of_mem d hy

theorem mono (h : k.Ring d l) (hadj : ∀ x y, x ∈ d :: l → y ∈ d :: l → k.Adj x y → k'.Adj x y) : k'.Ring d l where
  path := h.path.mono hadj
  nodup := h.nodup

/-- There is one ring through a node. -/
theorem unique (h : k.Ring d l) (h' : k.Ring d l') : l = l' :=
  h.path.unique h'.path (List.nodup_cons.1 h.nodup).1 (List.nodup_cons.1 h'.nodup).1

/-- Every node of a ring is a head. -/
theorem rotate_mid {l₁ l₂ : List N} (h : k.Ring d (l₁ ++ x :: l₂)) : k.Ring x (l₂ ++ d :: l₁) where
  path := by
    obtain ⟨hto, hback⟩ := Path.append_iff.1 h.path
    exact Path.append_iff.2 ⟨hback, hto⟩
  nodup := by
    have : (x :: (l₂ ++ d :: l₁)).Perm (d :: (l₁ ++ x :: l₂)) := by
      rw [← List.cons_append, ← List.cons_append]
      exact List.perm_append_comm
    exact this.nodup_iff.2 h.nodup

/-- The ring of another node of it is the same cycle. -/
theorem perm (h : k.Ring d l) (hx : x ∈ l) (h' : k.Ring x l') : (x :: l').Perm (d :: l) := by
  obtain ⟨l₁, l₂, rfl⟩ := List.append_of_mem hx
  rw [h'.unique h.rotate_mid, ← List.cons_append, ← List.cons_append]
  exact List.perm_append_comm

/-- The next node is a head as well. -/
theorem rotate (h : k.Ring d (x :: l)) : k.Ring x (l ++ [d]) :=
  rotate_mid (show k.Ring d ([] ++ x :: l) from h)

theorem linked (h : k.Ring d l) (hj : j ∈ l) : k.Linked j := by
  obtain ⟨l₁, l₂, rfl⟩ := List.append_of_mem hj
  obtain ⟨hleft, hright⟩ := Path.append_iff.1 h.path
  refine ⟨hleft.last_adj, hright.first_adj, fun he => ?_⟩
  have hn := hright.next_eq
  rw [he] at hn
  cases l₂ with
  | nil => exact h.ne_head hj hn
  | cons y l₂ =>
    have hnd := List.nodup_append.1 (List.nodup_cons.1 h.nodup).2
    exact (List.nodup_cons.1 hnd.2.1).1 (by rw [hn]; exact List.mem_cons_self)

end Ring

/-! ## Taking a node out and putting it back -/

variable [DecidableEq N]

def unlink (k : Links N) (j : N) : Links N :=
  let k := { k with prev := Function.update k.prev (k.next j) (k.prev j) }
  { k with next := Function.update k.next (k.prev j) (k.next j) }

/-- Put a node back between the neighbours it still points to. -/
def relink (k : Links N) (j : N) : Links N :=
  let k := { k with prev := Function.update k.prev (k.next j) j }
  { k with next := Function.update k.next (k.prev j) j }

theorem update_back {f : N → N} (v : N) (h : f a = b) : Function.update (Function.update f a v) a b = f := by
  rw [Function.update_idem, ← h, Function.update_eq_self]

namespace Linked

theorem unlink_eq (h : k.Linked j) : k.unlink j =
    ⟨Function.update k.next (k.prev j) (k.next j), Function.update k.prev (k.next j) (k.prev j)⟩ := by
  simp [unlink, Function.update_of_ne h.ne.symm]

/-- Nodes that were adjacent still are, unless the node was one of them. -/
theorem adj_unlink (h : k.Linked j) (hxy : k.Adj x y) (hx : x ≠ j) (hy : y ≠ j) : (k.unlink j).Adj x y := by
  have hx' : x ≠ k.prev j := by
    rintro rfl
    exact hy (hxy.next.symm.trans h.left.next)
  have hy' : y ≠ k.next j := by
    rintro rfl
    exact hx (hxy.prev.symm.trans h.right.prev)
  rw [h.unlink_eq]
  constructor
  · exact (Function.update_of_ne hx' _ _).trans hxy.next
  · exact (Function.update_of_ne hy' _ _).trans hxy.prev

theorem adj_joined (h : k.Linked j) : (k.unlink j).Adj (k.prev j) (k.next j) := by
  rw [h.unlink_eq]
  exact ⟨Function.update_self _ _ _, Function.update_self _ _ _⟩

/-- **Exact undo.** -/
theorem relink_unlink (h : k.Linked j) : (k.unlink j).relink j = k := by
  rw [h.unlink_eq]
  simp only [relink, Function.update_of_ne h.prev_ne.symm, update_back _ h.right.prev, update_back _ h.left.next]

/-- On a path, a start that is taken out is replaced by the node before it. -/
theorem path_unlink (h : k.Linked j) (hb : b ≠ j) {l : List N} (hp : k.Path a l b) :
    (k.unlink j).Path (if a = j then k.prev j else a) (l.filter (· ≠ j)) b := by
  induction l generalizing a with
  | nil =>
    by_cases ha : a = j
    · subst ha
      rw [if_pos rfl]
      have : b = k.next a := hp.next.symm
      rw [this]
      exact h.adj_joined
    · rw [if_neg ha]
      exact h.adj_unlink hp ha hb
  | cons x l ih =>
    have ih := ih hp.2
    by_cases hx : x = j
    · subst hx
      have ha : a = k.prev x := hp.1.prev.symm
      rw [if_pos rfl, ← ha] at ih
      rw [if_neg (ha ▸ h.prev_ne)]
      simpa using ih
    · rw [if_neg hx] at ih
      rw [List.filter_cons_of_pos (by simpa using hx)]
      refine ⟨?_, ih⟩
      by_cases ha : a = j
      · subst ha
        have : x = k.next a := hp.1.next.symm
        rw [if_pos rfl, this]
        exact h.adj_joined
      · rw [if_neg ha]
        exact h.adj_unlink hp.1 ha hx

/-- Taking a node out takes it out of every ring, unless it is the head. -/
theorem ring_unlink (h : k.Linked j) (hr : k.Ring d l) (hd : d ≠ j) : (k.unlink j).Ring d (l.filter (· ≠ j)) where
  path := by
    have := h.path_unlink hd hr.path
    rwa [if_neg hd] at this
  nodup := hr.nodup.sublist (List.filter_sublist.cons_cons d)

end Linked

/-- Taking out one node and then the others. -/
theorem filter_ne_filter (l : List N) (j : N) (J : List N) :
    (l.filter (· ≠ j)).filter (· ∉ J) = l.filter (· ∉ j :: J) := by
  rw [List.filter_filter]
  congr 1
  funext i
  simp [Bool.and_comm]

/-- Several nodes, one after the other, out of a family of rings. -/
theorem rings_unlink {D : N → Prop} {V : N → List N} (hr : ∀ d, D d → k.Ring d (V d)) {J : List N} (hJ : J.Nodup)
    (hmem : ∀ j ∈ J, ¬ D j ∧ ∃ d, D d ∧ j ∈ V d) (hd : D d) :
    (J.foldl unlink k).Ring d ((V d).filter (· ∉ J)) := by
  induction J generalizing k V with
  | nil => simpa using hr d hd
  | cons j J ih =>
    obtain ⟨hjJ, hJ⟩ := List.nodup_cons.1 hJ
    obtain ⟨hjD, d', hd', hj⟩ := hmem j List.mem_cons_self
    have hlinked := (hr d' hd').linked hj
    have hrec := ih (k := k.unlink j) (V := fun d => (V d).filter (· ≠ j))
      (fun d hd => hlinked.ring_unlink (hr d hd) fun he => hjD (he ▸ hd)) hJ fun i hi => by
        obtain ⟨hiD, e, he, hie⟩ := hmem i (List.mem_cons_of_mem j hi)
        have hij : i ≠ j := fun h => hjJ (h ▸ hi)
        exact ⟨hiD, e, he, by simp [hie, hij]⟩
    rwa [filter_ne_filter] at hrec

/-- When its turn comes, each of them is still linked. -/
theorem linked_unlink {D : N → Prop} {V : N → List N} (hr : ∀ d, D d → k.Ring d (V d)) {J : List N} (hJ : J.Nodup)
    (hmem : ∀ j ∈ J, ¬ D j ∧ ∃ d, D d ∧ j ∈ V d) {pre post : List N} (h : J = pre ++ j :: post) :
    (pre.foldl unlink k).Linked j := by
  subst h
  obtain ⟨hpre, -, hdisj⟩ := List.nodup_append.1 hJ
  obtain ⟨-, d, hd, hj⟩ := hmem j (by simp)
  have hring := rings_unlink hr hpre (fun i hi => hmem i (by simp [hi])) hd
  refine hring.linked ?_
  rw [List.mem_filter]
  exact ⟨hj, by simpa using fun hi => hdisj j hi j (by simp) rfl⟩

/-! ## New nodes -/

/-- A node by itself. -/
def fresh (k : Links N) (x : N) : Links N :=
  { next := Function.update k.next x x, prev := Function.update k.prev x x }

theorem ring_fresh (k : Links N) (x : N) : (k.fresh x).Ring x [] where
  path := ⟨Function.update_self _ _ _, Function.update_self _ _ _⟩
  nodup := List.nodup_singleton x

theorem Ring.fresh (hr : k.Ring d l) (hx : x ∉ d :: l) : (k.fresh x).Ring d l := by
  refine hr.mono fun a b ha hb hab => ⟨?_, ?_⟩
  · have : a ≠ x := fun h => hx (h ▸ ha)
    exact (Function.update_of_ne this _ _).trans hab.next
  · have : b ≠ x := fun h => hx (h ▸ hb)
    exact (Function.update_of_ne this _ _).trans hab.prev

/-- Put `x` in before `d`. -/
def insertBefore (k : Links N) (d x : N) : Links N :=
  let k := { k with prev := Function.update k.prev x (k.prev d) }
  let k := { k with next := Function.update k.next x d }
  let k := { k with next := Function.update k.next (k.prev d) x }
  { k with prev := Function.update k.prev d x }

theorem insertBefore_eq (hx : x ≠ d) : k.insertBefore d x =
    ⟨Function.update (Function.update k.next x d) (k.prev d) x,
      Function.update (Function.update k.prev x (k.prev d)) d x⟩ := by
  simp [insertBefore, Function.update_of_ne hx.symm]

theorem Adj.insertBefore (hab : k.Adj a b) (hd : k.Adj (k.prev d) d) (hx : x ≠ d) (ha : a ≠ x) (hb : b ≠ x)
    (hbd : b ≠ d) : (k.insertBefore d x).Adj a b := by
  have had : a ≠ k.prev d := by
    rintro rfl
    exact hbd (hab.next.symm.trans hd.next)
  rw [insertBefore_eq hx]
  constructor
  · exact ((Function.update_of_ne had _ _).trans (Function.update_of_ne ha _ _)).trans hab.next
  · exact ((Function.update_of_ne hbd _ _).trans (Function.update_of_ne hb _ _)).trans hab.prev

/-- A ring that neither node is on stays. -/
theorem Ring.insertBefore_other (hr : k.Ring a l) (hd : k.Adj (k.prev d) d) (hx : x ≠ d) (hxl : x ∉ a :: l)
    (hdl : d ∉ a :: l) : (k.insertBefore d x).Ring a l :=
  hr.mono fun _ _ hy hz hyz =>
    hyz.insertBefore hd hx (fun h => hxl (h ▸ hy)) (fun h => hxl (h ▸ hz)) fun h => hdl (h ▸ hz)

/-- A path to `d` now ends in the new node. -/
theorem Path.insertBefore (hd : k.Adj (k.prev d) d) (hx : x ≠ d) {l : List N} (hp : k.Path a l d) (hxl : x ∉ a :: l)
    (hdl : d ∉ l) : (k.insertBefore d x).Path a l x := by
  induction l generalizing a with
  | nil =>
    have ha : k.prev d = a := hp.prev
    rw [insertBefore_eq hx, ha]
    constructor
    · exact Function.update_self _ _ _
    · exact (Function.update_of_ne hx _ _).trans (Function.update_self _ _ _)
  | cons y l ih =>
    simp only [List.mem_cons, not_or] at hxl hdl
    exact ⟨hp.1.insertBefore hd hx (Ne.symm hxl.1) (Ne.symm hxl.2.1) (Ne.symm hdl.1),
      ih hp.2 (by simp [hxl.2]) hdl.2⟩

/-- The ring with that head gets the new node at its end. -/
theorem Ring.insertBefore (hr : k.Ring d l) (hx : x ∉ d :: l) : (k.insertBefore d x).Ring d (l ++ [x]) := by
  have hxd : x ≠ d := fun h => hx (h ▸ List.mem_cons_self)
  have hxp : x ≠ k.prev d := fun h => hx (h ▸ hr.prev_mem)
  have hlast : (k.insertBefore d x).Adj x d := by
    rw [insertBefore_eq hxd]
    constructor
    · exact (Function.update_of_ne hxp _ _).trans (Function.update_self _ _ _)
    · exact Function.update_self _ _ _
  constructor
  · exact Path.append_iff.2 ⟨hr.path.insertBefore hr.path.last_adj hxd hx (List.nodup_cons.1 hr.nodup).1, hlast⟩
  · have : (d :: (l ++ [x])).Perm (x :: d :: l) := by
      rw [← List.cons_append]
      exact List.perm_append_singleton x (d :: l)
    exact this.nodup_iff.2 (List.nodup_cons.2 ⟨hx, hr.nodup⟩)

end Links

/-! ## Loops -/

/-- Undoing in reverse order. -/
theorem foldl_undo {M N : Type} {f g : M → N → M} {l : List N} {m : M}
    (h : ∀ pre p post, l = pre ++ p :: post → g (f (pre.foldl f m) p) p = pre.foldl f m) :
    l.reverse.foldl g (l.foldl f m) = m := by
  induction l using List.reverseRecOn with
  | nil => rfl
  | append_singleton l p ih =>
    rw [List.reverse_append, List.reverse_singleton, List.singleton_append, List.foldl_cons, List.foldl_append,
      List.foldl_cons, List.foldl_nil, h l p [] rfl]
    exact ih fun pre q post hl => h pre q (post ++ [p]) (by rw [hl]; simp)

section
variable {M N : Type} [DecidableEq N] {next : M → N → N} {stop : N} {body : M → N → Option M} {f : M → N → M}

/-- `for (p = ...; p != stop; p = next(p)) body`, where the body may change the links; it runs out of fuel if
it does not come back to `stop`. -/
def follow (next : M → N → N) (stop : N) (body : M → N → Option M) : Nat → N → M → Option M
  | 0, _, _ => none
  | fuel + 1, p, m => if p = stop then some m else (body m p).bind fun m' => follow next stop body fuel (next m' p) m'

/-- The loop visits the nodes of a list, if after each of them the links lead to the one after it. -/
theorem follow_eq_foldl {l : List N} {m : M} {fuel : Nat} (hfuel : l.length < fuel)
    (h : ∀ pre p post, l = pre ++ p :: post → p ≠ stop ∧ body (pre.foldl f m) p = some (f (pre.foldl f m) p) ∧
      next (f (pre.foldl f m) p) p = post.headD stop) :
    follow next stop body fuel (l.headD stop) m = some (l.foldl f m) := by
  induction l generalizing m fuel with
  | nil =>
    obtain ⟨fuel, rfl⟩ := Nat.exists_eq_succ_of_ne_zero (Nat.ne_zero_of_lt hfuel)
    simp [follow]
  | cons p l ih =>
    obtain ⟨fuel, rfl⟩ := Nat.exists_eq_succ_of_ne_zero (Nat.ne_zero_of_lt hfuel)
    obtain ⟨hp, hbody, hnext⟩ := h [] p l rfl
    have hrec : follow next stop body fuel (l.headD stop) (f m p) = some (l.foldl f (f m p)) :=
      ih (by simpa using hfuel) fun pre q post hl => h (p :: pre) q post (by rw [hl, List.cons_append])
    simp only [List.foldl_nil] at hbody hnext
    rw [List.headD_cons, follow, if_neg hp, hbody, Option.bind_some, hnext, hrec, List.foldl_cons]

/-- A loop along a ring, if the ring is still there after each of its nodes. -/
theorem follow_ring (L : M → Links N) {l : List N} {m : M} {fuel : Nat} (hfuel : l.length < fuel)
    (hr : (L m).Ring stop l)
    (h : ∀ pre p post, l = pre ++ p :: post → body (pre.foldl f m) p = some (f (pre.foldl f m) p) ∧
      (L (f (pre.foldl f m) p)).Ring stop l) :
    follow (fun m => (L m).next) stop body fuel ((L m).next stop) m = some (l.foldl f m) := by
  rw [hr.next_head]
  refine follow_eq_foldl hfuel fun pre p post hl => ?_
  obtain ⟨hbody, hring⟩ := h pre p post hl
  have hp : p ∈ l := by rw [hl]; simp
  refine ⟨hr.ne_head hp, hbody, ?_⟩
  rw [hl] at hring
  exact hring.next_mid

/-- A second loop, the other way round the ring, that takes back what the first one did step by step. -/
theorem follow_undo (L : M → Links N) {l : List N} {m : M} {fuel : Nat} (hfuel : l.length < fuel)
    (hr : (L (l.foldl f m)).Ring stop l)
    (h : ∀ pre p post, l = pre ++ p :: post → body (f (pre.foldl f m) p) p = some (pre.foldl f m) ∧
      (L (pre.foldl f m)).Ring stop l) :
    follow (fun m => (L m).prev) stop body fuel ((L (l.foldl f m)).prev stop) (l.foldl f m) = some m := by
  let g : M → N → M := fun m p => (body m p).getD m
  -- the states on the way back are those of the first loop, in reverse order
  have hback : ∀ {pre post : List N}, l = pre ++ post → post.reverse.foldl g (l.foldl f m) = pre.foldl f m := by
    intro pre post hl
    rw [hl, List.foldl_append]
    refine foldl_undo fun pre' p post' hl' => ?_
    have hbody := (h (pre ++ pre') p post' (by rw [hl, hl', List.append_assoc])).1
    rw [List.foldl_append] at hbody
    simp [g, hbody]
  have hloop : follow (fun m => (L m).swap.next) stop body fuel ((L (l.foldl f m)).swap.next stop) (l.foldl f m) =
      some (l.reverse.foldl g (l.foldl f m)) := by
    refine follow_ring (fun m => (L m).swap) (by simpa using hfuel) hr.swap fun pre p post hl => ?_
    have hl : l = post.reverse ++ p :: pre.reverse := by
      rw [← List.reverse_reverse l, hl]
      simp
    have hpre := hback (hl.trans (List.append_cons _ _ _))
    rw [List.reverse_reverse, List.foldl_append, List.foldl_cons, List.foldl_nil] at hpre
    obtain ⟨hbody, hring⟩ := h _ p _ hl
    have hg : g (pre.foldl g (l.foldl f m)) p = post.reverse.foldl f m := by
      rw [hpre]
      change (body _ p).getD _ = _
      rw [hbody, Option.getD_some]
    rw [hg]
    exact ⟨by rw [hpre, hbody], hring.swap⟩
  rwa [hback (List.nil_append l).symm] at hloop

end
