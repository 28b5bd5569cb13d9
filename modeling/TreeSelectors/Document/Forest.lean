import TreeSelectors.Tree.View

/-!
# Document/Forest — labelled trees side by side

A `Forest` is a row of trees: either nothing, or a node with the forest below it and the forest to
its right. Every node has a label and a content. `labels` lists the labels in document order; the
edits are described by what they do to it. A forest is `Rising` when every label is greater than the
labels above it.
-/

namespace TreeSelectors

/-- What a node of a document holds. -/
inductive Content
  | document
  | element (tag : String) (attributes : List Attribute)
  | text (s : String)
  | comment (s : String)
  deriving DecidableEq, Repr

/-- Labelled trees side by side. -/
inductive Forest
  | nil
  /-- A tree with its label, its content and the forest below it, and the forest to its right. -/
  | cons (label : Nat) (content : Content) (below right : Forest)
  deriving DecidableEq, Repr

namespace Forest

/-! ## Looking -/

/-- The labels of the trees side by side. -/
def tops : Forest → List Nat
  | nil => []
  | cons l _ _ right => l :: right.tops

/-- All labels, in document order. -/
def labels : Forest → List Nat
  | nil => []
  | cons l _ below right => l :: (below.labels ++ right.labels)

/-- The content of the node labelled `n`, and the forest below it. -/
def find? (n : Nat) : Forest → Option (Content × Forest)
  | nil => none
  | cons l c below right => if l = n then some (c, below) else (below.find? n).or (right.find? n)

/-- The label of the node right above the one labelled `n`. -/
def parent? (n : Nat) : Forest → Option Nat
  | nil => none
  | cons l _ below right =>
    if n ∈ below.tops then some l else (below.parent? n).or (right.parent? n)

/-! ## Edits -/

/-- The forest with one more tree at its right end, a node alone. -/
def snoc (label : Nat) (content : Content) : Forest → Forest
  | nil => cons label content nil nil
  | cons l c below right => cons l c below (right.snoc label content)

/-- The forest with a new last child below the node labelled `p`. -/
def appendUnder (p label : Nat) (content : Content) : Forest → Forest
  | nil => nil
  | cons l c below right =>
    cons l c (if l = p then below.snoc label content else below.appendUnder p label content)
      (right.appendUnder p label content)

/-- The forest with `f` applied to the content of the node labelled `n`. -/
def modify (n : Nat) (f : Content → Content) : Forest → Forest
  | nil => nil
  | cons l c below right =>
    cons l (if l = n then f c else c) (below.modify n f) (right.modify n f)

/-- The forest without the tree whose top is labelled `n`. -/
def prune (n : Nat) : Forest → Forest
  | nil => nil
  | cons l c below right =>
    if l = n then right.prune n else cons l c (below.prune n) (right.prune n)

/-! ## Labels -/

theorem mem_labels_of_mem_tops {n : Nat} {f : Forest} (h : n ∈ f.tops) : n ∈ f.labels := by
  induction f with
  | nil => exact h
  | cons l c below right _ ih =>
    rcases List.mem_cons.1 h with rfl | h
    · exact List.mem_cons_self
    · exact List.mem_cons_of_mem _ (List.mem_append_right _ (ih h))

/-- The labels below a node that is found are labels of the forest. -/
theorem labels_subset_of_find? {n : Nat} {f below : Forest} {c : Content}
    (h : f.find? n = some (c, below)) : below.labels ⊆ f.labels := by
  induction f with
  | nil => simp [find?] at h
  | cons l d inner right ihi ihr =>
    intro m hm
    rw [find?] at h
    split at h
    · cases h; exact List.mem_cons_of_mem _ (List.mem_append_left _ hm)
    · rcases Option.or_eq_some_iff.1 h with h | ⟨_, h⟩
      · exact List.mem_cons_of_mem _ (List.mem_append_left _ (ihi h hm))
      · exact List.mem_cons_of_mem _ (List.mem_append_right _ (ihr h hm))

/-- A node can be found exactly if its label is in the forest. -/
theorem isSome_find? {n : Nat} {f : Forest} : (f.find? n).isSome ↔ n ∈ f.labels := by
  induction f with
  | nil => simp [find?, labels]
  | cons l c below right ihb ihr =>
    rw [find?, labels]
    split
    · simp_all
    · next h => simp [ihb, ihr, Ne.symm h]

/-- A new tree on the right comes last in the order. -/
theorem labels_snoc (l : Nat) (c : Content) (f : Forest) :
    (f.snoc l c).labels = f.labels ++ [l] := by
  induction f with
  | nil => rfl
  | cons k d below right _ ih => simp [snoc, labels, ih]

/-- An append under a label that is not there changes nothing. -/
theorem appendUnder_of_notMem {p l : Nat} {c : Content} {f : Forest} (h : p ∉ f.labels) :
    f.appendUnder p l c = f := by
  induction f with
  | nil => rfl
  | cons k d below right ihb ihr =>
    simp only [labels, List.mem_cons, List.mem_append, not_or] at h
    rw [appendUnder, if_neg (Ne.symm h.1), ihb h.2.1, ihr h.2.2]

/-- An append under a label that is there once adds its own label once. -/
theorem labels_appendUnder_perm {p l : Nat} {c : Content} {f : Forest} (hn : f.labels.Nodup)
    (hp : p ∈ f.labels) : (f.appendUnder p l c).labels.Perm (l :: f.labels) := by
  induction f with
  | nil => simp [labels] at hp
  | cons k d below right ihb ihr =>
    obtain ⟨hk, hb, hr, hd⟩ : k ∉ below.labels ++ right.labels ∧ below.labels.Nodup ∧
        right.labels.Nodup ∧ ∀ a ∈ below.labels, ∀ b ∈ right.labels, a ≠ b := by
      simpa only [labels, List.nodup_cons, List.nodup_append] using hn
    rw [appendUnder, labels, labels]
    refine .trans (.cons k ?_) (.swap l k _)
    by_cases h : k = p
    · have hpr : p ∉ right.labels := fun hm => hk (List.mem_append_right _ (h ▸ hm))
      rw [if_pos h, appendUnder_of_notMem hpr, labels_snoc, List.append_assoc]
      exact List.perm_middle
    · rw [if_neg h]
      by_cases hpb : p ∈ below.labels
      · rw [appendUnder_of_notMem fun hm => hd p hpb p hm rfl]
        exact (ihb hb hpb).append_right _
      · have hpr : p ∈ right.labels := by
          simpa [labels, Ne.symm h, hpb] using hp
        rw [appendUnder_of_notMem hpb]
        exact ((ihr hr hpr).append_left _).trans List.perm_middle

theorem labels_modify (n : Nat) (g : Content → Content) (f : Forest) :
    (f.modify n g).labels = f.labels := by
  induction f with
  | nil => rfl
  | cons l c below right ihb ihr => simp [modify, labels, ihb, ihr]

/-- Pruning takes labels out and moves none. -/
theorem labels_prune_sublist (n : Nat) (f : Forest) : (f.prune n).labels.Sublist f.labels := by
  induction f with
  | nil => exact .slnil
  | cons l c below right ihb ihr =>
    rw [prune]
    split
    · exact (ihr.trans (List.sublist_append_right _ _)).cons _
    · exact (ihb.append ihr).cons_cons _

/-! ## Rising labels -/

/-- Every label is greater than the labels above it. -/
def Rising : Forest → Prop
  | nil => True
  | cons l _ below right => (∀ m ∈ below.labels, l < m) ∧ below.Rising ∧ right.Rising

/-- The labels below a node that is found are greater than its own. -/
theorem Rising.lt_of_find? {n m : Nat} {f below : Forest} {c : Content} (hf : f.Rising)
    (h : f.find? n = some (c, below)) (hm : m ∈ below.labels) : n < m := by
  induction f with
  | nil => simp [find?] at h
  | cons l d inner right ihi ihr =>
    rw [find?] at h
    split at h
    · next hl => cases h; exact hl ▸ hf.1 m hm
    · rcases Option.or_eq_some_iff.1 h with h | ⟨_, h⟩
      · exact ihi hf.2.1 h
      · exact ihr hf.2.2 h

theorem Rising.snoc {l : Nat} {c : Content} {f : Forest} (hf : f.Rising) :
    (f.snoc l c).Rising := by
  induction f with
  | nil => exact ⟨fun _ h => absurd h List.not_mem_nil, trivial, trivial⟩
  | cons k d below right _ ih => exact ⟨hf.1, hf.2.1, ih hf.2.2⟩

theorem mem_labels_appendUnder {p l m : Nat} {c : Content} {f : Forest}
    (h : m ∈ (f.appendUnder p l c).labels) : m = l ∨ m ∈ f.labels := by
  induction f with
  | nil => simp [appendUnder, labels] at h
  | cons k d below right ihb ihr =>
    rw [appendUnder, labels, List.mem_cons, List.mem_append] at h
    simp only [labels, List.mem_cons, List.mem_append]
    rcases h with h | h | h
    · exact .inr (.inl h)
    · split at h
      · rw [labels_snoc, List.mem_append, List.mem_singleton] at h
        exact h.elim (fun h => .inr (.inr (.inl h))) .inl
      · exact (ihb h).imp_right fun h => .inr (.inl h)
    · exact (ihr h).imp_right fun h => .inr (.inr h)

/-- A label greater than all others may come anywhere. -/
theorem Rising.appendUnder {p l : Nat} {c : Content} {f : Forest} (hf : f.Rising)
    (hl : ∀ m ∈ f.labels, m < l) : (f.appendUnder p l c).Rising := by
  induction f with
  | nil => trivial
  | cons k d below right ihb ihr =>
    simp only [labels, List.mem_cons, List.mem_append] at hl
    have hk := hl k (.inl rfl)
    refine ⟨fun m hm => ?_, ?_, ihr hf.2.2 fun m hm => hl m (.inr (.inr hm))⟩
    · split at hm
      · rw [labels_snoc, List.mem_append, List.mem_singleton] at hm
        exact hm.elim (hf.1 m) (· ▸ hk)
      · exact (mem_labels_appendUnder hm).elim (· ▸ hk) (hf.1 m)
    · split
      · exact hf.2.1.snoc
      · exact ihb hf.2.1 fun m hm => hl m (.inr (.inl hm))

theorem Rising.modify {n : Nat} {g : Content → Content} {f : Forest} (hf : f.Rising) :
    (f.modify n g).Rising := by
  induction f with
  | nil => trivial
  | cons l c below right ihb ihr =>
    refine ⟨?_, ihb hf.2.1, ihr hf.2.2⟩
    rw [labels_modify]
    exact hf.1

/-- What is left of rising labels rises. -/
theorem Rising.prune {n : Nat} {f : Forest} (hf : f.Rising) : (f.prune n).Rising := by
  induction f with
  | nil => trivial
  | cons l c below right ihb ihr =>
    rw [Forest.prune]
    split
    · exact ihr hf.2.2
    · exact ⟨fun m hm => hf.1 m ((labels_prune_sublist n below).subset hm), ihb hf.2.1, ihr hf.2.2⟩

end Forest

end TreeSelectors
