import Mathlib
import TreeSelectors.Document.Forest

/-!
# Proofs/Document/Forest — looking up nodes, and looking again after an edit

The labels of a forest are taken to be distinct, so a look-up meets its node in one part only
(`nodup_cons`).  Parents and children then agree, and each edit changes what is found at one place:
an append at its parent, a prune on the *branch* that it takes away.
-/

namespace TreeSelectors.Forest

variable {f below right : Forest} {l n m p : Nat} {c : Content}

/-! ## Distinct labels -/

/-- The label on top and the two parts under and beside it have no label in common. -/
theorem nodup_cons : (cons l c below right).labels.Nodup ↔
    (l ∉ below.labels ∧ l ∉ right.labels) ∧ below.labels.Nodup ∧ right.labels.Nodup ∧
      ∀ a ∈ below.labels, a ∉ right.labels := by
  rw [labels, List.nodup_cons, List.mem_append, not_or, List.nodup_append]
  refine and_congr_right fun _ => and_congr_right fun _ => and_congr_right fun _ => ?_
  exact ⟨fun h a ha hb => h a ha a hb rfl, fun h a ha b hb e => h a ha (e ▸ hb)⟩

theorem find?_eq_none : f.find? n = none ↔ n ∉ f.labels := by
  rw [← isSome_find?, Option.not_isSome_iff_eq_none]

/-- A label below the top one is looked up there… -/
theorem find?_cons_of_mem_below (hf : (cons l c below right).labels.Nodup)
    (hn : n ∈ below.labels) : (cons l c below right).find? n = below.find? n := by
  obtain ⟨⟨hlb, -⟩, -, -, hd⟩ := nodup_cons.1 hf
  have hne : l ≠ n := fun e => hlb (e ▸ hn)
  rw [find?, if_neg hne, find?_eq_none.2 (hd n hn), Option.or_none]

/-- …and one beside it there. -/
theorem find?_cons_of_mem_right (hf : (cons l c below right).labels.Nodup)
    (hn : n ∈ right.labels) : (cons l c below right).find? n = right.find? n := by
  obtain ⟨⟨-, hlr⟩, -, -, hd⟩ := nodup_cons.1 hf
  have hne : l ≠ n := fun e => hlr (e ▸ hn)
  rw [find?, if_neg hne, find?_eq_none.2 fun h => hd n h hn, Option.none_or]

theorem tops_sublist (f : Forest) : f.tops.Sublist f.labels := by
  induction f with
  | nil => exact .slnil
  | cons l c below right _ ih => exact (ih.trans (List.sublist_append_right _ _)).cons_cons _

/-- The label that is looked up and those below it stand in this order in the whole forest. -/
theorem labels_sublist_of_find? (h : f.find? n = some (c, below)) :
    (n :: below.labels).Sublist f.labels := by
  induction f with
  | nil => cases h
  | cons l d inner right ihi ihr =>
    rw [find?] at h
    split at h
    · next hl =>
      cases h
      subst hl
      exact (List.sublist_append_left _ _).cons_cons _
    · rcases Option.or_eq_some_iff.1 h with h | ⟨_, h⟩
      · exact ((ihi h).trans (List.sublist_append_left _ _)).cons _
      · exact ((ihr h).trans (List.sublist_append_right _ _)).cons _

/-- What is found below a node that is found is found from the top as well. -/
theorem find?_of_find? (hf : f.labels.Nodup) (hn : f.find? n = some (c, below))
    {x : Content × Forest} (hm : below.find? m = some x) : f.find? m = some x := by
  have hbelow : m ∈ below.labels := isSome_find?.1 (by rw [hm]; rfl)
  induction f with
  | nil => cases hn
  | cons l d inner right ihi ihr =>
    obtain ⟨-, hi, hr, -⟩ := nodup_cons.1 hf
    rw [find?] at hn
    split at hn
    · cases hn
      rw [find?_cons_of_mem_below hf hbelow, hm]
    · rcases Option.or_eq_some_iff.1 hn with hn | ⟨_, hn⟩
      · rw [find?_cons_of_mem_below hf (labels_subset_of_find? hn hbelow), ihi hi hn]
      · rw [find?_cons_of_mem_right hf (labels_subset_of_find? hn hbelow), ihr hr hn]

/-! ## Parents and children -/

/-- The labels right below `p`. -/
def children (f : Forest) (p : Nat) : List Nat :=
  ((f.find? p).map fun x => x.2.tops).getD []

/-- A parent and its child are both in the forest. -/
theorem mem_of_parent? (h : f.parent? n = some p) : p ∈ f.labels ∧ n ∈ f.labels := by
  induction f with
  | nil => cases h
  | cons l c below right ihb ihr =>
    rw [parent?] at h
    simp only [labels, List.mem_cons, List.mem_append]
    split at h
    · next hn =>
      cases h
      exact ⟨.inl rfl, .inr (.inl (mem_labels_of_mem_tops hn))⟩
    · rcases Option.or_eq_some_iff.1 h with h | ⟨_, h⟩
      · exact ⟨.inr (.inl (ihb h).1), .inr (.inl (ihb h).2)⟩
      · exact ⟨.inr (.inr (ihr h).1), .inr (.inr (ihr h).2)⟩

theorem parent?_eq_none_of_notMem (h : n ∉ f.labels) : f.parent? n = none :=
  Option.eq_none_iff_forall_ne_some.2 fun _ hp => h (mem_of_parent? hp).2

/-- Nothing lies above the top. -/
theorem parent?_of_mem_tops (hf : f.labels.Nodup) (h : n ∈ f.tops) : f.parent? n = none := by
  induction f with
  | nil => rfl
  | cons l c below right _ ihr =>
    obtain ⟨⟨hlb, hlr⟩, hb, hr, hd⟩ := nodup_cons.1 hf
    have hnb : n ∉ below.labels := by
      obtain rfl | h := List.mem_cons.1 h
      · exact hlb
      · exact fun hn => hd n hn (mem_labels_of_mem_tops h)
    rw [parent?, if_neg fun hn => hnb (mem_labels_of_mem_tops hn), parent?_eq_none_of_notMem hnb,
      Option.none_or]
    obtain rfl | h := List.mem_cons.1 h
    · exact parent?_eq_none_of_notMem hlr
    · exact ihr hr h

/-- Every label stands at the top or below another. -/
theorem mem_tops_or_parent? (h : n ∈ f.labels) : n ∈ f.tops ∨ ∃ p, f.parent? n = some p := by
  induction f with
  | nil => cases h
  | cons l c below right ihb ihr =>
    rw [parent?]
    by_cases hn : n ∈ below.tops
    · exact .inr ⟨l, if_pos hn⟩
    rw [if_neg hn]
    cases hp : below.parent? n with
    | some p => exact .inr ⟨p, rfl⟩
    | none =>
      rw [Option.none_or]
      rcases List.mem_cons.1 h with rfl | h
      · exact .inl List.mem_cons_self
      rcases List.mem_append.1 h with h | h
      · exact absurd (ihb h) (by simp [hn, hp])
      · exact (ihr h).imp_left (List.mem_cons_of_mem _)

/-- **Parents and children agree.**  The induction is on the forest: of its three parts the one that
holds `p` decides, and the labels of the others are different ones. -/
theorem mem_children_iff (hf : f.labels.Nodup) : n ∈ f.children p ↔ f.parent? n = some p := by
  induction f with
  | nil => exact ⟨nofun, nofun⟩
  | cons l c below right ihb ihr =>
    obtain ⟨⟨hlb, hlr⟩, hb, hr, hd⟩ := nodup_cons.1 hf
    rw [children, find?, parent?]
    by_cases hlp : l = p
    · subst hlp
      rw [if_pos rfl]
      refine ⟨fun h => if_pos h, fun h => ?_⟩
      split at h
      · assumption
      · rcases Option.or_eq_some_iff.1 h with h | ⟨_, h⟩
        · exact absurd (mem_of_parent? h).1 hlb
        · exact absurd (mem_of_parent? h).1 hlr
    rw [if_neg hlp]
    by_cases hpb : p ∈ below.labels
    · have hpr : p ∉ right.labels := hd p hpb
      rw [find?_eq_none.2 hpr, Option.or_none, ← children, ihb hb]
      constructor
      · intro h
        have htop : n ∉ below.tops := fun hn => by
          rw [parent?_of_mem_tops hb hn] at h
          cases h
        rw [if_neg htop, h, Option.some_or]
      · intro h
        split at h
        · exact absurd (Option.some.inj h) hlp
        · rcases Option.or_eq_some_iff.1 h with h | ⟨_, h⟩
          · exact h
          · exact absurd (mem_of_parent? h).1 hpr
    · rw [find?_eq_none.2 hpb, Option.none_or, ← children, ihr hr]
      constructor
      · intro h
        have hnb : n ∉ below.labels := fun hn => hd n hn (mem_of_parent? h).2
        rw [if_neg fun hn => hnb (mem_labels_of_mem_tops hn), parent?_eq_none_of_notMem hnb, h,
          Option.none_or]
      · intro h
        split at h
        · exact absurd (Option.some.inj h) hlp
        · rcases Option.or_eq_some_iff.1 h with h | ⟨_, h⟩
          · exact absurd (mem_of_parent? h).1 hpb
          · exact h

/-- No child is listed twice. -/
theorem nodup_children (hf : f.labels.Nodup) (p : Nat) : (f.children p).Nodup := by
  rw [children]
  cases hp : f.find? p with
  | none => exact List.nodup_nil
  | some x =>
    have hx := (labels_sublist_of_find? hp).nodup hf
    exact (tops_sublist x.2).nodup (List.nodup_cons.1 hx).2

/-! ## Appending -/

theorem tops_snoc (l : Nat) (c : Content) (f : Forest) : (f.snoc l c).tops = f.tops ++ [l] := by
  induction f with
  | nil => rfl
  | cons k d below right _ ih => rw [snoc, tops, ih, tops, List.cons_append]

theorem find?_snoc (l : Nat) (c : Content) (f : Forest) (n : Nat) :
    (f.snoc l c).find? n = (f.find? n).or (if l = n then some (c, nil) else none) := by
  induction f with
  | nil => simp [snoc, find?]
  | cons k d below right _ ih =>
    rw [snoc, find?, find?, ih]
    split
    · rfl
    · rw [Option.or_assoc]

theorem tops_appendUnder (p l : Nat) (c : Content) (f : Forest) :
    (f.appendUnder p l c).tops = f.tops := by
  induction f with
  | nil => rfl
  | cons k d below right _ ih => rw [appendUnder, tops, ih, tops]

/-- The node that is appended stands alone. -/
theorem find?_appendUnder_self (hf : f.labels.Nodup) (hp : p ∈ f.labels) (hl : l ∉ f.labels) :
    (f.appendUnder p l c).find? l = some (c, nil) := by
  induction f with
  | nil => cases hp
  | cons k d below right ihb ihr =>
    obtain ⟨⟨hkb, hkr⟩, hb, hr, hd⟩ := nodup_cons.1 hf
    simp only [labels, List.mem_cons, List.mem_append, not_or] at hl
    rw [appendUnder, find?, if_neg (Ne.symm hl.1)]
    by_cases hkp : k = p
    · subst hkp
      rw [if_pos rfl, find?_snoc, find?_eq_none.2 hl.2.1, Option.none_or, if_pos rfl,
        Option.some_or]
    rw [if_neg hkp]
    by_cases hpb : p ∈ below.labels
    · rw [ihb hb hpb hl.2.1, Option.some_or]
    · have hpr : p ∈ right.labels := by simpa [labels, Ne.symm hkp, hpb] using hp
      rw [appendUnder_of_notMem hpb, find?_eq_none.2 hl.2.1, Option.none_or, ihr hr hpr hl.2.2]

/-- Every other node is found as it was, with the append below it. -/
theorem find?_appendUnder_of_ne (hf : f.labels.Nodup) (hn : n ≠ l) :
    (f.appendUnder p l c).find? n = (f.find? n).map fun x =>
      (x.1, if n = p then x.2.snoc l c else x.2.appendUnder p l c) := by
  induction f with
  | nil => rfl
  | cons k d below right ihb ihr =>
    obtain ⟨⟨hkb, -⟩, hb, hr, -⟩ := nodup_cons.1 hf
    rw [appendUnder, find?, find?]
    by_cases hkn : k = n
    · rw [if_pos hkn, if_pos hkn, Option.map_some, hkn]
    rw [if_neg hkn, if_neg hkn, Option.map_or, ← ihr hr, ← ihb hb]
    by_cases hkp : k = p
    · subst hkp
      rw [if_pos rfl, find?_snoc, if_neg (Ne.symm hn), Option.or_none, appendUnder_of_notMem hkb]
    · rw [if_neg hkp]

/-- The new label comes last among the children of `p`. -/
theorem children_appendUnder (hf : f.labels.Nodup) (hp : p ∈ f.labels) (hl : l ∉ f.labels)
    (n : Nat) : (f.appendUnder p l c).children n = f.children n ++ if n = p then [l] else [] := by
  rw [children, children]
  by_cases hn : n = l
  · subst hn
    have hnp : n ≠ p := fun e => hl (e ▸ hp)
    rw [find?_appendUnder_self hf hp hl, find?_eq_none.2 hl, if_neg hnp]
    rfl
  · rw [find?_appendUnder_of_ne hf hn, Option.map_map]
    cases hx : f.find? n with
    | none =>
      have hnp : n ≠ p := fun e => find?_eq_none.1 hx (e ▸ hp)
      rw [if_neg hnp]
      rfl
    | some x =>
      simp only [Option.map_some, Function.comp_apply, Option.getD_some]
      split
      · exact tops_snoc l c x.2
      · rw [tops_appendUnder, List.append_nil]

/-! ## Changing contents -/

theorem tops_modify (n : Nat) (g : Content → Content) (f : Forest) :
    (f.modify n g).tops = f.tops := by
  induction f with
  | nil => rfl
  | cons l c below right _ ih => rw [modify, tops, ih, tops]

/-- Content changes at the label alone; what is below a node changes with it. -/
theorem find?_modify (n : Nat) (g : Content → Content) (f : Forest) (m : Nat) :
    (f.modify n g).find? m = (f.find? m).map fun x =>
      (if m = n then g x.1 else x.1, x.2.modify n g) := by
  induction f with
  | nil => rfl
  | cons l c below right ihb ihr =>
    rw [modify, find?, find?]
    by_cases hlm : l = m
    · rw [if_pos hlm, if_pos hlm, Option.map_some, hlm]
    · rw [if_neg hlm, if_neg hlm, Option.map_or, ihb, ihr]

/-- No link changes. -/
theorem children_modify (n : Nat) (g : Content → Content) (f : Forest) (m : Nat) :
    (f.modify n g).children m = f.children m := by
  rw [children, children, find?_modify, Option.map_map]
  simp only [Function.comp_def, tops_modify]

/-! ## Pruning -/

/-- The labels of the tree with `n` on top, in document order. -/
def branch (n : Nat) : Forest → List Nat
  | nil => []
  | cons l _ below right => if l = n then l :: below.labels else below.branch n ++ right.branch n

theorem branch_subset (n : Nat) (f : Forest) : f.branch n ⊆ f.labels := by
  induction f with
  | nil => exact List.Subset.refl _
  | cons l c below right ihb ihr =>
    rw [branch, labels]
    split
    · exact List.cons_subset_cons _ (List.subset_append_left _ _)
    · refine List.Subset.trans (List.append_subset.2 ⟨?_, ?_⟩) (List.subset_cons_self _ _)
      · exact List.subset_append_of_subset_left _ ihb
      · exact List.subset_append_of_subset_right _ ihr

theorem branch_of_notMem (h : n ∉ f.labels) : f.branch n = [] := by
  induction f with
  | nil => rfl
  | cons l c below right ihb ihr =>
    simp only [labels, List.mem_cons, List.mem_append, not_or] at h
    rw [branch, if_neg (Ne.symm h.1), ihb h.2.1, ihr h.2.2, List.append_nil]

/-- A branch begins with its top. -/
theorem branch_eq (hf : f.labels.Nodup) (h : f.find? n = some (c, below)) :
    f.branch n = n :: below.labels := by
  induction f with
  | nil => cases h
  | cons l d inner right ihi ihr =>
    obtain ⟨-, hi, hr, hd⟩ := nodup_cons.1 hf
    rw [find?] at h
    rw [branch]
    split at h
    · next hl =>
      cases h
      rw [if_pos hl, hl]
    · next hl =>
      rw [if_neg hl]
      rcases Option.or_eq_some_iff.1 h with h | ⟨hnone, h⟩
      · have hmem : n ∈ inner.labels := isSome_find?.1 (by rw [h]; rfl)
        rw [ihi hi h, branch_of_notMem (hd n hmem), List.append_nil]
      · rw [branch_of_notMem (find?_eq_none.1 hnone), ihr hr h, List.nil_append]

/-- Pruning takes a top away only if it is the label. -/
theorem tops_prune (n : Nat) (f : Forest) : (f.prune n).tops = f.tops.filter (· ≠ n) := by
  induction f with
  | nil => rfl
  | cons l c below right _ ih =>
    rw [prune, tops]
    by_cases hl : l = n
    · rw [if_pos hl, List.filter_cons_of_neg (by simpa using hl), ih]
    · rw [if_neg hl, List.filter_cons_of_pos (by simpa using hl), tops, ih]

/-- **Pruning takes away the branch**, and leaves every other node with what is left below it. -/
theorem find?_prune (hf : f.labels.Nodup) (n m : Nat) : (f.prune n).find? m =
    if m ∈ f.branch n then none else (f.find? m).map fun x => (x.1, x.2.prune n) := by
  induction f with
  | nil => rfl
  | cons l c below right ihb ihr =>
    obtain ⟨⟨hlb, hlr⟩, hb, hr, hd⟩ := nodup_cons.1 hf
    rw [prune, branch]
    by_cases hln : l = n
    · subst hln
      rw [if_pos rfl, if_pos rfl, ihr hr, branch_of_notMem hlr, if_neg List.not_mem_nil]
      split
      · next hm =>
        have hmr : m ∉ right.labels := by
          obtain rfl | hm := List.mem_cons.1 hm
          · exact hlr
          · exact hd m hm
        rw [find?_eq_none.2 hmr, Option.map_none]
      · next hm =>
        simp only [List.mem_cons, not_or] at hm
        rw [find?, if_neg (Ne.symm hm.1), find?_eq_none.2 hm.2, Option.none_or]
    rw [if_neg hln, if_neg hln, find?, find?]
    by_cases hlm : l = m
    · subst hlm
      have hlnot : l ∉ below.branch n ++ right.branch n := fun h =>
        (List.mem_append.1 h).elim (fun h => hlb (branch_subset n below h))
          fun h => hlr (branch_subset n right h)
      rw [if_pos rfl, if_pos rfl, if_neg hlnot, Option.map_some]
    rw [if_neg hlm, if_neg hlm, ihb hb, ihr hr, Option.map_or]
    by_cases hmb : m ∈ below.branch n
    · have hmr : m ∉ right.labels := hd m (branch_subset n below hmb)
      rw [if_pos hmb, if_pos (List.mem_append_left _ hmb), find?_eq_none.2 hmr, Option.map_none,
        ite_self, Option.none_or]
    by_cases hmr : m ∈ right.branch n
    · have hmb' : m ∉ below.labels := fun h => hd m h (branch_subset n right hmr)
      rw [if_pos hmr, if_pos (List.mem_append_right _ hmr), find?_eq_none.2 hmb', Option.map_none,
        ite_self, Option.none_or]
    · rw [if_neg hmb, if_neg hmr, if_neg fun h => (List.mem_append.1 h).elim hmb hmr]

/-- A node outside the branch keeps its children, the top of the branch apart. -/
theorem children_prune (hf : f.labels.Nodup) (hm : m ∉ f.branch n) :
    (f.prune n).children m = (f.children m).filter (· ≠ n) := by
  rw [children, children, find?_prune hf, if_neg hm, Option.map_map]
  cases f.find? m with
  | none => rfl
  | some x => exact tops_prune n x.2

end TreeSelectors.Forest
