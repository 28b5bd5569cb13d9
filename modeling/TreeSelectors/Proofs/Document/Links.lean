import Mathlib
import TreeSelectors.Document.Basic
import TreeSelectors.Proofs.Document.Forest
import TreeSelectors.Proofs.Tree.Order

/-!
# Proofs/Document/Links — a document is one tree

The view of a document is linked (`Document.linked`), a walk of it lists labels as the forest does,
and what is live is what lies under the document node.  `Document.Sound` collects what a caller sees
of this.
-/

namespace TreeSelectors.Document

open TreeView

variable {d : Document} {n m p : Nat}

/-! ## Live nodes and their links -/

variable (d) in
theorem children_view (p : Nat) : d.view.children p = d.tree.children p := rfl

theorem isLive_iff_content? : d.isLive n ↔ (d.content? n).isSome := by
  rw [isLive, content?, Option.isSome_map]

theorem content?_eq_none : d.content? n = none ↔ ¬d.isLive n := by
  rw [isLive_iff_content?, Option.not_isSome_iff_eq_none]

variable (d) in
/-- **The view of a document is linked.** -/
theorem linked : d.view.Linked where
  mem_children_iff := Forest.mem_children_iff d.nodup
  nodup_children := Forest.nodup_children d.nodup
  grounded := d.grounded

variable (d) in
theorem tops_tree : d.tree.tops = [0] := by
  obtain ⟨below, hb⟩ := d.rooted
  rw [hb]
  rfl

variable (d) in
theorem isLive_zero : d.isLive 0 :=
  d.isLive_iff.2 (Forest.mem_labels_of_mem_tops (by simp [d.tops_tree]))

variable (d) in
theorem parent?_zero : d.view.parent? 0 = none :=
  Forest.parent?_of_mem_tops d.nodup (by simp [d.tops_tree])

/-- Every other live node has a parent… -/
theorem exists_parent? (h : d.isLive n) (hn : n ≠ 0) : ∃ p, d.view.parent? n = some p := by
  refine (Forest.mem_tops_or_parent? (d.isLive_iff.1 h)).resolve_left fun ht => hn ?_
  rw [d.tops_tree] at ht
  exact List.mem_singleton.1 ht

/-- …and links join live nodes only. -/
theorem isLive_of_parent? (h : d.view.parent? n = some p) : d.isLive p ∧ d.isLive n :=
  ⟨d.isLive_iff.2 (Forest.mem_of_parent? h).1, d.isLive_iff.2 (Forest.mem_of_parent? h).2⟩

theorem children_of_not_isLive (h : ¬d.isLive n) : d.view.children n = [] :=
  List.eq_nil_iff_forall_not_mem.2 fun _ hm =>
    h (isLive_of_parent? (d.linked.mem_children_iff.1 hm)).1

theorem parent?_of_not_isLive (h : ¬d.isLive n) : d.view.parent? n = none :=
  Option.eq_none_iff_forall_ne_some.2 fun _ hp => h (isLive_of_parent? hp).2

/-- A parent has the smaller label. -/
theorem lt_of_parent? (h : d.view.parent? n = some p) : p < n :=
  (d.lt_of_mem_children (d.linked.mem_children_iff.2 h)).1

/-- What is live was handed out. -/
theorem lt_next (h : d.isLive n) : n < d.next :=
  d.handedOut n (d.isLive_iff.1 h)

/-! ## Walks -/

/-- A walk is a node and the walks of its children. -/
theorem walk_ground (n : Nat) : d.view.walk (d.ground n) =
    n :: (d.view.children n).flatMap fun c => d.view.walk (d.ground c) := by
  have hb : (d.view.below (d.ground n)).map Ground.node = d.view.children n := d.view.map_below _
  rw [d.view.walk_eq, ← hb, List.flatMap_map]
  rfl

/-- A part of the document lists the labels that the walks from its top meet. -/
theorem labels_eq_flatMap_walk {f : Forest} (hf : f.labels.Nodup)
    (hd : ∀ n x, f.find? n = some x → d.tree.find? n = some x) :
    f.labels = f.tops.flatMap fun n => d.view.walk (d.ground n) := by
  induction f with
  | nil => rfl
  | cons l c below right ihb ihr =>
    obtain ⟨-, hb, hr, -⟩ := Forest.nodup_cons.1 hf
    have hl : d.view.children l = below.tops := by
      rw [children_view, Forest.children, hd l (c, below) (if_pos rfl)]
      rfl
    have hbelow : below.labels = below.tops.flatMap fun n => d.view.walk (d.ground n) := by
      refine ihb hb fun n x hn => hd n x ?_
      have hmem : n ∈ below.labels := Forest.isSome_find?.1 (by rw [hn]; rfl)
      rw [Forest.find?_cons_of_mem_below hf hmem, hn]
    have hright : right.labels = right.tops.flatMap fun n => d.view.walk (d.ground n) := by
      refine ihr hr fun n x hn => hd n x ?_
      have hmem : n ∈ right.labels := Forest.isSome_find?.1 (by rw [hn]; rfl)
      rw [Forest.find?_cons_of_mem_right hf hmem, hn]
    rw [Forest.labels, Forest.tops, List.flatMap_cons, walk_ground, hl, ← hbelow, ← hright,
      List.cons_append]

variable (d) in
/-- **The labels of the tree, in document order, are what the walk from the top meets.** -/
theorem labels_eq_walk : d.tree.labels = d.view.walk (d.ground 0) := by
  have h := labels_eq_flatMap_walk d.nodup fun _ _ h => h
  rwa [d.tops_tree, List.flatMap_singleton] at h

/-- **What is below a node is what a walk from it meets**, in the same order. -/
theorem branch_eq_walk (h : d.isLive n) : d.tree.branch n = d.view.walk (d.ground n) := by
  obtain ⟨⟨c, below⟩, hn⟩ := Option.isSome_iff_exists.1 h
  have hsub := (Forest.labels_sublist_of_find? hn).nodup d.nodup
  have hchildren : d.view.children n = below.tops := by
    rw [children_view, Forest.children, hn]
    rfl
  rw [Forest.branch_eq d.nodup hn, walk_ground, hchildren,
    labels_eq_flatMap_walk (List.nodup_cons.1 hsub).2 fun m x hm =>
      Forest.find?_of_find? d.nodup hn hm]

/-! ## What lies under a node -/

/-- The branch of a live node is what lies under it. -/
theorem mem_branch_iff (h : d.isLive n) : m ∈ d.tree.branch n ↔ d.view.Under n m := by
  rw [branch_eq_walk h]
  exact d.linked.mem_walk_iff

/-- **What is live is what lies under the document node.** -/
theorem isLive_iff_under : d.isLive n ↔ d.view.Under 0 n := by
  rw [d.isLive_iff, d.labels_eq_walk]
  exact d.linked.mem_walk_iff

/-- Below a live node everything is live. -/
theorem isLive_of_under (h : d.view.Under n m) (hn : d.isLive n) : d.isLive m :=
  isLive_iff_under.2 ((isLive_iff_under.1 hn).trans h)

/-- What is above a live node is live. -/
theorem isLive_of_above (h : d.view.Under n m) (hm : d.isLive m) : d.isLive n := by
  obtain rfl | ⟨_, -, hp⟩ := Under.iff_child.1 h
  · exact hm
  · exact (isLive_of_parent? hp).1

/-- What lies under a node was handed out after it. -/
theorem le_of_under (h : d.view.Under n m) : n ≤ m := by
  induction h using Relation.ReflTransGen.head_induction_on with
  | refl => exact le_rfl
  | head hp _ ih => exact ih.trans (lt_of_parent? hp).le

/-- The chain of parents of a live node leads to the document node, and meets no node twice. -/
theorem exists_chain (h : d.isLive n) : ∃ ns, (n :: ns).Nodup ∧
    (n :: ns).IsChain (fun c p => d.view.parent? c = some p) ∧ (n :: ns).getLast? = some 0 := by
  obtain ⟨ns, hchain, hlast⟩ :=
    List.exists_isChain_cons_of_relationReflTransGen (isLive_iff_under.1 h)
  have hfalls : (n :: ns).IsChain (· > ·) := hchain.imp fun _ _ hp => lt_of_parent? hp
  refine ⟨ns, (List.isChain_iff_pairwise.1 hfalls).imp fun h => h.ne', hchain, ?_⟩
  rw [List.getLast?_eq_some_getLast (List.cons_ne_nil n ns), hlast]

/-! ## What a caller sees -/

/-- **One tree**: the document node on top, every other live node in one place below a live one, and
nothing to see of any label besides. -/
structure Sound (d : Document) : Prop where
  top : d.isLive 0 ∧ d.view.parent? 0 = none
  place : ∀ n, d.isLive n → n ≠ 0 → ∃ p, d.view.parent? n = some p ∧ d.isLive p ∧
    (d.view.children p).count n = 1 ∧ ∀ q, n ∈ d.view.children q → q = p
  child : ∀ p n, n ∈ d.view.children p → d.isLive n ∧ d.view.parent? n = some p
  chain : ∀ n, d.isLive n → ∃ ns, (n :: ns).Nodup ∧
    (n :: ns).IsChain (fun c p => d.view.parent? c = some p) ∧ (n :: ns).getLast? = some 0
  missing : ∀ n, ¬d.isLive n → d.view.parent? n = none ∧ d.view.children n = [] ∧
    d.view.isElement n = false ∧ d.view.tagName n = "" ∧ d.view.text? n = none ∧
    d.view.attributes n = []

variable (d) in
/-- **Every document is sound.** -/
theorem sound : d.Sound where
  top := ⟨d.isLive_zero, d.parent?_zero⟩
  place n h hn := by
    obtain ⟨p, hp⟩ := exists_parent? h hn
    have hmem : n ∈ d.view.children p := d.linked.mem_children_iff.2 hp
    refine ⟨p, hp, (isLive_of_parent? hp).1, ?_, fun q hq => ?_⟩
    · exact List.count_eq_one_of_mem (d.linked.nodup_children p) hmem
    · exact d.linked.eq_of_mem_children hq hp
  child p n h := by
    have hp := d.linked.mem_children_iff.1 h
    exact ⟨(isLive_of_parent? hp).2, hp⟩
  chain _ h := exists_chain h
  missing n h := by
    have hc : d.content? n = none := content?_eq_none.2 h
    refine ⟨parent?_of_not_isLive h, children_of_not_isLive h, ?_⟩
    simp [view, hc]

end TreeSelectors.Document
