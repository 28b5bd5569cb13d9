import Mathlib
import TreeSelectors.Tree.Walk

/-!
# Proofs/Tree/Order — what a walk meets, and in which order

On any tree the list of pending nodes visits what the recursive walk lists.  Where children and
parents agree (`Linked`), a walk meets each node below its top once, a node before what lies below
it and an earlier branch before a later one (`Precedes`).
-/

namespace TreeSelectors

universe u

/-- `x` and `y` are in `l`, and `x` has the earlier place. -/
def Earlier {ν : Type u} [DecidableEq ν] (l : List ν) (x y : ν) : Prop :=
  x ∈ l ∧ y ∈ l ∧ l.idxOf x < l.idxOf y

theorem Earlier.asymm {ν : Type u} [DecidableEq ν] {l : List ν} {x y : ν} (h : Earlier l x y) :
    ¬Earlier l y x :=
  fun h' => Nat.lt_asymm h.2.2 h'.2.2

theorem Earlier.ne {ν : Type u} [DecidableEq ν] {l : List ν} {x y : ν} (h : Earlier l x y) :
    x ≠ y := by
  rintro rfl
  exact h.asymm h

/-- Without repetitions each entry is earlier than those behind it. -/
theorem pairwise_earlier {ν : Type u} [DecidableEq ν] {l : List ν} (h : l.Nodup) :
    l.Pairwise (Earlier l) := by
  rw [List.pairwise_iff_getElem]
  intro i j hi hj hij
  refine ⟨List.getElem_mem hi, List.getElem_mem hj, ?_⟩
  rwa [h.idxOf_getElem i hi, h.idxOf_getElem j hj]

namespace TreeView

variable {ν : Type u} {t : TreeView ν}

/-! ## Walks -/

/-- **The pending list visits what the walks of its nodes list.** -/
theorem preOrder_eq (pending : List t.Ground) : t.preOrder pending = pending.flatMap t.walk := by
  induction pending using preOrder.induct with
  | case1 => rw [preOrder, List.flatMap_nil]
  | case2 n pending ih =>
    rw [preOrder, ih, List.flatMap_append, List.flatMap_cons, t.walk_eq, List.cons_append]

/-- A walk meets what can be reached from its top by taking children. -/
theorem mem_walk {n : ν} {top : t.Ground} :
    n ∈ t.walk top ↔ Relation.ReflTransGen (fun p c => c ∈ t.children p) top.node n := by
  induction top using walk.induct with
  | case1 top ih =>
    rw [t.walk_eq, List.mem_cons, List.mem_flatMap, Relation.ReflTransGen.cases_head_iff, eq_comm]
    refine or_congr Iff.rfl ⟨?_, ?_⟩
    · rintro ⟨c, hc, hn⟩
      exact ⟨c.node, t.mem_children_of_mem_below hc, (ih ⟨c, hc⟩).1 hn⟩
    · rintro ⟨_, hc, hn⟩
      rw [← t.map_below] at hc
      obtain ⟨c, hbelow, rfl⟩ := List.mem_map.1 hc
      exact ⟨c, hbelow, (ih ⟨c, hbelow⟩).2 hn⟩

/-! ## Above and below -/

variable (t) in
/-- `n` is `top`, or its chain of parents passes through `top`. -/
def Under (top n : ν) : Prop :=
  Relation.ReflTransGen (fun c p => t.parent? c = some p) n top

namespace Under

@[refl] theorem refl (n : ν) : t.Under n n :=
  Relation.ReflTransGen.refl

theorem trans {a b c : ν} (hab : t.Under a b) (hbc : t.Under b c) : t.Under a c :=
  Relation.ReflTransGen.trans hbc hab

theorem of_parent {p n : ν} (h : t.parent? n = some p) : t.Under p n :=
  Relation.ReflTransGen.single h

/-- The chain of parents, from below. -/
theorem iff_parent {top n : ν} :
    t.Under top n ↔ n = top ∨ ∃ p, t.parent? n = some p ∧ t.Under top p :=
  Relation.ReflTransGen.cases_head_iff

/-- The chain of parents, from above. -/
theorem iff_child {top n : ν} :
    t.Under top n ↔ top = n ∨ ∃ c, t.Under c n ∧ t.parent? c = some top :=
  Relation.ReflTransGen.cases_tail_iff _ _ _

/-- Of two nodes above a third one lies above the other. -/
theorem comparable {a b n : ν} (ha : t.Under a n) (hb : t.Under b n) :
    t.Under a b ∨ t.Under b a := by
  refine (Relation.ReflTransGen.total_of_right_unique ?_ ha hb).symm
  intro c p q hp hq
  exact Option.some.inj (hp.symm.trans hq)

/-- A node stays under `top` in another tree if nothing above it gets another parent there. -/
theorem of_parent?_eq {t' : TreeView ν} {top n : ν} (hu : t.Under top n)
    (h : ∀ m, t.Under m n → t'.parent? m = t.parent? m) : t'.Under top n := by
  induction hu using Relation.ReflTransGen.head_induction_on with
  | refl => exact .refl top
  | @head n p hp _ ih =>
    have hp' : t'.parent? n = some p := (h n (.refl n)).trans hp
    exact (ih fun m hm => h m (hm.trans (.of_parent hp))).trans (.of_parent hp')

end Under

variable (t) in
/-- `a` is at or above both `n` and `m`, and nothing lower is. -/
def LowestAbove (a n m : ν) : Prop :=
  t.Under a n ∧ t.Under a m ∧ ∀ b, t.Under b n → t.Under b m → t.Under b a

variable (t) in
/-- **Document order**: `n` lies above `m`, or `n` lies in an earlier branch than `m` of the lowest
node above both. -/
def Precedes [DecidableEq ν] (n m : ν) : Prop :=
  (n ≠ m ∧ t.Under n m) ∨ ∃ a x y, t.LowestAbove a n m ∧ Earlier (t.children a) x y ∧
    t.Under x n ∧ t.Under y m

variable (t) in
/-- `ns` lists the nodes with the property `p`, each of them once, in document order. -/
structure ListsInOrder [DecidableEq ν] (ns : List ν) (p : ν → Prop) : Prop where
  mem_iff : ∀ n, n ∈ ns ↔ p n
  nodup : ns.Nodup
  order : ∀ n ∈ ns, ∀ m ∈ ns, Earlier ns n m ↔ t.Precedes n m

/-! ## Linked trees -/

variable (t) in
/-- Children and parents agree, no child is listed twice, and taking children ends. -/
structure Linked : Prop where
  mem_children_iff : ∀ {p n : ν}, n ∈ t.children p ↔ t.parent? n = some p
  nodup_children : ∀ p, (t.children p).Nodup
  grounded : ∀ n, t.Grounded n

namespace Linked

/-- A child is its parent's only. -/
theorem eq_of_mem_children (h : t.Linked) {p q n : ν} (hp : n ∈ t.children p)
    (hq : t.parent? n = some q) : p = q :=
  Option.some.inj ((h.mem_children_iff.1 hp).symm.trans hq)

/-- Where the same nodes have `n` as a child, `n` has the same parent. -/
theorem parent?_congr (h : t.Linked) {t' : TreeView ν} (h' : t'.Linked) {n : ν}
    (hn : ∀ p, n ∈ t'.children p ↔ n ∈ t.children p) : t'.parent? n = t.parent? n :=
  Option.ext fun p => h'.mem_children_iff.symm.trans ((hn p).trans h.mem_children_iff)

/-- A walk meets what lies under its top. -/
theorem mem_walk_iff (h : t.Linked) {n : ν} {top : t.Ground} :
    n ∈ t.walk top ↔ t.Under top.node n := by
  rw [mem_walk, Under, ← Relation.reflTransGen_swap]
  simp only [h.mem_children_iff]

/-- **No node lies under its own child**, since taking children ends. -/
theorem not_under_child (h : t.Linked) {a x : ν} (hx : x ∈ t.children a) : ¬t.Under x a := by
  induction h.grounded a generalizing x with
  | intro a _ ih =>
    intro hu
    obtain rfl | ⟨y, hy, hyx⟩ := Under.iff_child.1 hu
    · exact ih x hx hx (.refl x)
    · have hay : t.Under y x := hy.trans (.of_parent (h.mem_children_iff.1 hx))
      exact ih x hx (h.mem_children_iff.2 hyx) hay

/-- **Links have no cycle**: nodes under each other are the same. -/
theorem eq_of_under (h : t.Linked) {a b : ν} (hab : t.Under a b) (hba : t.Under b a) : a = b := by
  obtain rfl | ⟨c, hc, hca⟩ := Under.iff_child.1 hab
  · rfl
  · exact absurd (hc.trans hba) (h.not_under_child (h.mem_children_iff.2 hca))

/-- Neither of two branches lies under the other… -/
theorem eq_of_under_sibling (h : t.Linked) {a x y : ν} (hx : x ∈ t.children a)
    (hy : y ∈ t.children a) (hu : t.Under x y) : x = y := by
  obtain rfl | ⟨p, hp, hxp⟩ := Under.iff_parent.1 hu
  · rfl
  · obtain rfl : a = p := h.eq_of_mem_children hy hp
    exact absurd hxp (h.not_under_child hx)

/-- …and no node lies in both. -/
theorem branch_unique (h : t.Linked) {a x y n : ν} (hx : x ∈ t.children a)
    (hy : y ∈ t.children a) (hxn : t.Under x n) (hyn : t.Under y n) : x = y :=
  (hxn.comparable hyn).elim (h.eq_of_under_sibling hx hy)
    fun hu => (h.eq_of_under_sibling hy hx hu).symm

section Order

variable [DecidableEq ν] (h : t.Linked)

include h

/-- Where two branches part is the lowest node above them. -/
theorem lowestAbove {a x y n m : ν} (hxy : Earlier (t.children a) x y) (hx : t.Under x n)
    (hy : t.Under y m) : t.LowestAbove a n m := by
  have hxa : t.Under a x := .of_parent (h.mem_children_iff.1 hxy.1)
  have hya : t.Under a y := .of_parent (h.mem_children_iff.1 hxy.2.1)
  refine ⟨hxa.trans hx, hya.trans hy, fun b hbn hbm => ?_⟩
  have hapart (hu : t.Under x m) : False := hxy.ne (h.branch_unique hxy.1 hxy.2.1 hu hy)
  obtain hbx | hxb := hbn.comparable hx
  · obtain rfl | ⟨p, hp, hbp⟩ := Under.iff_parent.1 hbx
    · exact (hapart hbm).elim
    · obtain rfl : a = p := h.eq_of_mem_children hxy.1 hp
      exact hbp
  · exact (hapart (hxb.trans hbm)).elim

/-- Of nodes in two branches neither lies under the other. -/
theorem not_under_of_branches {a x y n m : ν} (hxy : Earlier (t.children a) x y)
    (hx : t.Under x n) (hy : t.Under y m) : ¬t.Under n m ∧ ¬t.Under m n :=
  ⟨fun hu => hxy.ne (h.branch_unique hxy.1 hxy.2.1 (hx.trans hu) hy),
    fun hu => hxy.ne (h.branch_unique hxy.1 hxy.2.1 hx (hy.trans hu))⟩

/-- **No two nodes precede each other.** -/
theorem precedes_asymm {n m : ν} (hnm : t.Precedes n m) : ¬t.Precedes m n := by
  intro hmn
  obtain ⟨hne, hu⟩ | ⟨a, x, y, ha, hxy, hx, hy⟩ := hnm
  · obtain ⟨-, hu'⟩ | ⟨b, v, w, -, hvw, hv, hw⟩ := hmn
    · exact hne (h.eq_of_under hu hu')
    · exact (h.not_under_of_branches hvw hv hw).2 hu
  · obtain ⟨-, hu'⟩ | ⟨b, v, w, hb, hvw, hv, hw⟩ := hmn
    · exact (h.not_under_of_branches hxy hx hy).2 hu'
    · obtain rfl : a = b :=
        h.eq_of_under (hb.2.2 a ha.2.1 ha.1) (ha.2.2 b hb.2.1 hb.1)
      obtain rfl : x = w := h.branch_unique hxy.1 hvw.2.1 hx hw
      obtain rfl : y = v := h.branch_unique hxy.2.1 hvw.1 hy hv
      exact hxy.asymm hvw

/-- No node comes before itself. -/
theorem ne_of_precedes {n m : ν} (hnm : t.Precedes n m) : n ≠ m := by
  rintro rfl
  exact h.precedes_asymm hnm hnm

/-- **A walk is in document order.**  The induction is on its top: each child's walk is in order,
and the walks of two children keep to their branches. -/
theorem pairwise_walk (top : t.Ground) : (t.walk top).Pairwise t.Precedes := by
  induction top using walk.induct with
  | case1 top ih =>
    rw [t.walk_eq, List.pairwise_cons, List.pairwise_flatMap]
    refine ⟨fun m hm => .inl ?_, fun c hc => ih ⟨c, hc⟩, ?_⟩
    · obtain ⟨c, hc, hcm⟩ := List.mem_flatMap.1 hm
      have hctop := t.mem_children_of_mem_below hc
      have hm : t.Under c.node m := h.mem_walk_iff.1 hcm
      refine ⟨?_, (Under.of_parent (h.mem_children_iff.1 hctop)).trans hm⟩
      rintro rfl
      exact h.not_under_child hctop hm
    · have hchildren := pairwise_earlier (h.nodup_children top.node)
      rw [← t.map_below, List.pairwise_map, t.map_below] at hchildren
      refine hchildren.imp fun {c d} hcd n hn m hm => ?_
      have hn' := h.mem_walk_iff.1 hn
      have hm' := h.mem_walk_iff.1 hm
      exact .inr ⟨top.node, c.node, d.node, h.lowestAbove hcd hn' hm', hcd, hn', hm'⟩

/-- In a list in document order the earlier place is the preceding node's. -/
theorem earlier_iff_precedes {l : List ν} (hl : l.Pairwise t.Precedes) {n m : ν} (hn : n ∈ l)
    (hm : m ∈ l) : Earlier l n m ↔ t.Precedes n m := by
  have hlt {x y : ν} (hx : x ∈ l) (hy : y ∈ l) (hxy : l.idxOf x < l.idxOf y) :
      t.Precedes x y := by
    have hp := List.pairwise_iff_getElem.1 hl _ _ (List.idxOf_lt_length_iff.2 hx)
      (List.idxOf_lt_length_iff.2 hy) hxy
    rwa [List.getElem_idxOf, List.getElem_idxOf] at hp
  refine ⟨fun hnm => hlt hn hm hnm.2.2, fun hnm => ⟨hn, hm, ?_⟩⟩
  obtain hnm' | he | hmn := Nat.lt_trichotomy (l.idxOf n) (l.idxOf m)
  · exact hnm'
  · exact absurd ((List.idxOf_inj hn).1 he) (h.ne_of_precedes hnm)
  · exact absurd (hlt hm hn hmn) (h.precedes_asymm hnm)

/-- **Whatever is kept of a walk** is listed in document order. -/
theorem listsInOrder_filter (p : ν → Bool) (top : t.Ground) :
    t.ListsInOrder ((t.walk top).filter p) fun n => t.Under top.node n ∧ p n := by
  have hpairs : ((t.walk top).filter p).Pairwise t.Precedes := (h.pairwise_walk top).filter p
  refine ⟨fun n => ?_, hpairs.imp h.ne_of_precedes, fun n hn m hm => ?_⟩
  · rw [List.mem_filter, h.mem_walk_iff]
  · exact h.earlier_iff_precedes hpairs hn hm

end Order

end Linked

end TreeView

end TreeSelectors
