import Mathlib
import TreeSelectors.Proofs.Document.Failure
import TreeSelectors.Proofs.Document.Locality
import TreeSelectors.Proofs.Document.Search

/-!
# Proofs/Document/Order — an edit moves document order in one place

A branch stands in one stretch of document order.  An append puts the new label right behind the
branch of its parent, a removal takes the branch out, and no other label moves
(`Forest.exists_labels_eq`).  A selector that looks up answers as before at every label that is
still there, so what it finds moves along.
-/

namespace TreeSelectors

namespace Forest

/-- **A branch is one stretch of the labels**, which a prune takes out and an append extends by one.
The induction is on the forest: the part that holds `n` has the stretch, and the edits leave the
other part as it is. -/
theorem exists_labels_eq {f : Forest} {n : Nat} (hf : f.labels.Nodup) (hn : n ∈ f.labels) :
    ∃ front back, f.labels = front ++ f.branch n ++ back ∧ (f.prune n).labels = front ++ back ∧
      ∀ l c, (f.appendUnder n l c).labels = front ++ f.branch n ++ l :: back := by
  induction f with
  | nil => cases hn
  | cons k d below right ihb ihr =>
    obtain ⟨⟨hkb, hkr⟩, hb, hr, hd⟩ := nodup_cons.1 hf
    by_cases hk : k = n
    · subst hk
      refine ⟨[], right.labels, ?_, ?_, fun l c => ?_⟩
      · rw [branch, if_pos rfl, labels]
        rfl
      · rw [prune, if_pos rfl, prune_of_notMem hkr]
        rfl
      · rw [appendUnder, if_pos rfl, appendUnder_of_notMem hkr, branch, if_pos rfl, labels,
          labels_snoc]
        simp
    rw [branch, if_neg hk, prune, if_neg hk, labels, labels]
    simp only [appendUnder, if_neg hk]
    by_cases hnb : n ∈ below.labels
    · have hnr : n ∉ right.labels := hd n hnb
      obtain ⟨front, back, hlabels, hprune, happend⟩ := ihb hb hnb
      refine ⟨k :: front, back ++ right.labels, ?_, ?_, fun l c => ?_⟩
      · simp [hlabels, branch_of_notMem hnr]
      · simp [hprune, prune_of_notMem hnr]
      · simp [labels, happend, appendUnder_of_notMem hnr, branch_of_notMem hnr]
    · have hnr : n ∈ right.labels := by simpa [labels, Ne.symm hk, hnb] using hn
      obtain ⟨front, back, hlabels, hprune, happend⟩ := ihr hr hnr
      refine ⟨k :: (below.labels ++ front), back, ?_, ?_, fun l c => ?_⟩
      · simp [hlabels, branch_of_notMem hnb]
      · simp [hprune, prune_of_notMem hnb]
      · simp [labels, happend, appendUnder_of_notMem hnb, branch_of_notMem hnb]

end Forest

/-- Without repetitions, a stretch is filtered out by its members. -/
theorem filter_notMem_middle {α : Type*} [DecidableEq α] {l₁ l₂ l₃ : List α}
    (h : (l₁ ++ l₂ ++ l₃).Nodup) : (l₁ ++ l₂ ++ l₃).filter (· ∉ l₂) = l₁ ++ l₃ := by
  obtain ⟨h₁, h₃⟩ : l₁.Disjoint l₂ ∧ l₃.Disjoint l₂ := by
    have hd := List.disjoint_of_nodup_append h
    exact ⟨List.disjoint_of_nodup_append h.of_append_left, (List.disjoint_append_left.1 hd).2.symm⟩
  have hkeep {l : List α} (hl : l.Disjoint l₂) : l.filter (· ∉ l₂) = l :=
    List.filter_eq_self.2 fun a ha => decide_eq_true (hl ha)
  have hdrop : l₂.filter (· ∉ l₂) = [] := List.filter_eq_nil_iff.2 fun a ha => by simp [ha]
  rw [List.filter_append, List.filter_append, hkeep h₁, hkeep h₃, hdrop, List.append_nil]

namespace Document

open TreeView

variable {d d' : Document} {n m p : Nat} {c : Content} {s : Selector}

/-! ## Where an edit moves document order -/

/-- The labels that a walk from `n` meets, in document order. -/
def walkFrom (d : Document) (n : Nat) : List Nat :=
  d.view.walk (d.ground n)

variable (d) in
theorem walkFrom_zero : d.walkFrom 0 = d.tree.labels :=
  d.labels_eq_walk.symm

/-- A walk meets the branch of the node that it begins at. -/
theorem mem_walkFrom_iff : m ∈ d.walkFrom n ↔ d.view.Under n m :=
  d.linked.mem_walk_iff

/-- **A new node comes right behind all that is below its parent.** -/
theorem walkFrom_of_append (h : d.append p c = .ok d') : ∃ front back,
    d.walkFrom 0 = front ++ d.walkFrom p ++ back ∧
      d'.walkFrom 0 = front ++ d.walkFrom p ++ d.next :: back := by
  have hp : d.isLive p := succeeds_append_iff.1 ⟨d', h⟩
  obtain ⟨front, back, hlabels, -, happend⟩ := Forest.exists_labels_eq d.nodup (d.isLive_iff.1 hp)
  rw [branch_eq_walk hp] at hlabels happend
  rw [append, dif_pos hp] at h
  cases h
  exact ⟨front, back, d.walkFrom_zero.trans hlabels, (walkFrom_zero _).trans (happend d.next c)⟩

/-- **A removal takes one stretch out**, the walk from the node removed. -/
theorem walkFrom_of_remove (h : d.remove n = .ok d') : ∃ front back,
    d.walkFrom 0 = front ++ d.walkFrom n ++ back ∧ d'.walkFrom 0 = front ++ back := by
  obtain ⟨hn, hlive⟩ := succeeds_remove_iff.1 ⟨d', h⟩
  obtain ⟨front, back, hlabels, hprune, -⟩ :=
    Forest.exists_labels_eq d.nodup (d.isLive_iff.1 hlive)
  rw [branch_eq_walk hlive] at hlabels
  rw [remove, dif_neg hn, if_pos hlive] at h
  cases h
  exact ⟨front, back, d.walkFrom_zero.trans hlabels, (walkFrom_zero _).trans hprune⟩

theorem walkFrom_of_setAttribute {name value : String} (h : d.setAttribute n name value = .ok d') :
    d'.walkFrom 0 = d.walkFrom 0 := by
  rw [setAttribute] at h
  split at h
  · cases h
  · split at h
    · cases h
      rw [walkFrom_zero, walkFrom_zero]
      exact Forest.labels_modify n _ d.tree
    · cases h

/-! ## What a selector that looks up finds -/

/-- What a selector sees of an older node, upwards and of itself, stays. -/
theorem Appended.sameUpward (h : d.Appended p c d') (hm : m < d.next) :
    d.view.SameUpward d'.view m := by
  have hcontent {x : Nat} (hx : x < d.next) : d'.content? x = d.content? x := by
    rw [h.content?, if_neg hx.ne]
  obtain ⟨he, ht, ha, -⟩ := view_congr (hcontent hm)
  refine ⟨he, ht, ha, h.parent?_of_ne hm.ne, fun q hq => ?_⟩
  exact (view_congr (hcontent (lt_next (isLive_of_parent? hq).1))).1

/-- …and so does what it sees of a node that is left. -/
theorem Removed.sameUpward (h : d.Removed n d') (hm : ¬d.view.Under n m) :
    d.view.SameUpward d'.view m := by
  obtain ⟨he, ht, ha, -⟩ := view_congr (h.content? m hm)
  refine ⟨he, ht, ha, h.parent?_of_not_under hm, fun q hq => ?_⟩
  exact (view_congr (h.content? q fun hu => hm (hu.trans (.of_parent hq)))).1

theorem selectAll_ground_zero (s : Selector) :
    s.selectAll d.view (d.ground 0) = s.filter d.view (d.walkFrom 0) :=
  s.selectAll_eq_filter_walk _

/-- **An append adds at most the new node** to what a selector that looks up finds. -/
theorem selectAll_of_append (h : d.append p c = .ok d') (hs : s.looksUp) {front back : List Nat}
    (hd : d.walkFrom 0 = front ++ back) (hd' : d'.walkFrom 0 = front ++ d.next :: back) :
    s.selectAll d'.view (d'.ground 0) =
      s.filter d.view front ++ s.filter d'.view [d.next] ++ s.filter d.view back := by
  have hold {ns : List Nat} (hns : ns ⊆ d.walkFrom 0) :
      s.filter d'.view ns = s.filter d.view ns := by
    refine List.filter_congr fun m hm => ?_
    have hlt : m < d.next := d.handedOut m (d.walkFrom_zero ▸ hns hm)
    exact Selector.selects_eq_of_sameUpward ((appended_of_append h).sameUpward hlt) hs
  have hfront : s.filter d'.view front = s.filter d.view front :=
    hold (hd ▸ List.subset_append_left front back)
  have hback : s.filter d'.view back = s.filter d.view back :=
    hold (hd ▸ List.subset_append_right front back)
  rw [selectAll_ground_zero, hd', List.append_cons, ← hfront, ← hback]
  simp only [Selector.filter, List.filter_append]

/-- **A removal takes the removed labels**, and no others, from what a selector that looks up
finds. -/
theorem selectAll_of_remove (h : d.remove n = .ok d') (hs : s.looksUp) :
    s.selectAll d'.view (d'.ground 0) =
      (s.selectAll d.view (d.ground 0)).filter (· ∉ d.walkFrom n) := by
  obtain ⟨front, back, hd, hd'⟩ := walkFrom_of_remove h
  have hnodup : (d.walkFrom 0).Nodup := d.walkFrom_zero ▸ d.nodup
  have hleft : d'.walkFrom 0 = (d.walkFrom 0).filter (· ∉ d.walkFrom n) := by
    rw [hd] at hnodup
    rw [hd, hd', filter_notMem_middle hnodup]
  rw [selectAll_ground_zero, selectAll_ground_zero, hleft, Selector.filter, Selector.filter,
    List.filter_filter, List.filter_filter]
  refine List.filter_congr fun m _ => ?_
  by_cases hm : m ∈ d.walkFrom n
  · simp [hm]
  · have hsame := (removed_of_remove h).sameUpward (mt mem_walkFrom_iff.2 hm)
    simp [hm, Selector.selects_eq_of_sameUpward hsame hs]

/-! ## Edits -/

/-- Document order is as before but for the next label, which comes right behind the branch of `p`;
and what a selector that looks up finds is as before, but for that label in the same place. -/
def InsertsBehind (d : Document) (p : Nat) (d' : Document) : Prop :=
  ∃ front back, d.walkFrom p <:+ front ∧ d.walkFrom 0 = front ++ back ∧
    d'.walkFrom 0 = front ++ d.next :: back ∧ ∀ s : Selector, s.looksUp →
      s.selectAll d.view (d.ground 0) = s.filter d.view front ++ s.filter d.view back ∧
      s.selectAll d'.view (d'.ground 0) =
        s.filter d.view front ++ s.filter d'.view [d.next] ++ s.filter d.view back

/-- Document order is as before but for the branch of `n`, which stood in one stretch and is gone;
and from what a selector that looks up finds, just the labels of the branch are gone. -/
def TakesOut (d : Document) (n : Nat) (d' : Document) : Prop :=
  ∃ front back, d.walkFrom 0 = front ++ d.walkFrom n ++ back ∧ d'.walkFrom 0 = front ++ back ∧
    (∀ m ∈ d.walkFrom n, ¬d'.isLive m) ∧ ∀ s : Selector, s.looksUp →
      s.selectAll d'.view (d'.ground 0) =
        (s.selectAll d.view (d.ground 0)).filter (· ∉ d.walkFrom n)

theorem insertsBehind_of_append (h : d.append p c = .ok d') : d.InsertsBehind p d' := by
  obtain ⟨front, back, hd, hd'⟩ := walkFrom_of_append h
  refine ⟨front ++ d.walkFrom p, back, List.suffix_append _ _, hd, hd', fun s hs => ⟨?_, ?_⟩⟩
  · rw [selectAll_ground_zero, hd, Selector.filter, List.filter_append]
    rfl
  · exact selectAll_of_append h hs hd hd'

theorem takesOut_of_remove (h : d.remove n = .ok d') : d.TakesOut n d' := by
  obtain ⟨front, back, hd, hd'⟩ := walkFrom_of_remove h
  refine ⟨front, back, hd, hd', fun m hm hlive => ?_, fun s hs => selectAll_of_remove h hs⟩
  exact (((removed_of_remove h).isLive m).1 hlive).2 (mem_walkFrom_iff.1 hm)

/-- **An edit moves document order in one place.**  An append puts its node right behind the branch
of the parent, a removal takes a branch out, and whatever a selector that looks up finds changes in
the same place only.  An attribute moves nothing, and neither does an edit that fails. -/
theorem attempt_moves_one_place (d : Document) (e : Edit) :
    (∀ p c, e.appended? = some (p, c) → d.Succeeds e → d.InsertsBehind p (d.attempt e)) ∧
      (∀ n, e = .remove n → d.Succeeds e → d.TakesOut n (d.attempt e)) ∧
      (¬d.Succeeds e ∨ (∃ n name value, e = .setAttribute n name value) →
        (d.attempt e).walkFrom 0 = d.walkFrom 0) := by
  refine ⟨?_, ?_, ?_⟩
  · rintro p c he ⟨d', h⟩
    rw [attempt_of_apply h]
    exact insertsBehind_of_append (apply_eq_append he ▸ h)
  · rintro n rfl ⟨d', h⟩
    rw [attempt_of_apply h]
    exact takesOut_of_remove h
  · intro hstill
    by_cases hs : d.Succeeds e
    · obtain ⟨n, name, value, rfl⟩ := hstill.resolve_left (not_not.2 hs)
      obtain ⟨d', h⟩ := hs
      rw [attempt_of_apply h]
      exact walkFrom_of_setAttribute h
    · rw [attempt_of_not_succeeds hs]

/-- …as in a list: behind the text of the first item comes what is appended to that item, and with
the item goes its text. -/
theorem attempt_moves_one_place_list :
    let d := new.attemptAll [.appendElement 0 "ul", .appendElement 1 "li", .appendElement 1 "li",
      .appendText 2 "and", .appendElement 3 "b"]
    d.walkFrom 0 = [0, 1, 2, 4, 3, 5] ∧
      (d.Succeeds (.appendElement 2 "b") ∧
        d.InsertsBehind 2 (d.attempt (.appendElement 2 "b")) ∧
        (d.attempt (.appendElement 2 "b")).walkFrom 0 = [0, 1, 2, 4, 6, 3, 5]) ∧
      d.Succeeds (.remove 2) ∧ d.TakesOut 2 (d.attempt (.remove 2)) ∧
        (d.attempt (.remove 2)).walkFrom 0 = [0, 1, 3, 5] := by
  intro d
  have hlive : d.isLive 2 := by decide +kernel
  have happend : d.Succeeds (.appendElement 2 "b") := succeeds_append_iff.2 hlive
  have hremove : d.Succeeds (.remove 2) := exists_remove hlive (by decide)
  refine ⟨?_, ⟨happend, (attempt_moves_one_place d _).1 2 _ rfl happend, ?_⟩, hremove,
    (attempt_moves_one_place d _).2.1 2 rfl hremove, ?_⟩
  all_goals
    rw [walkFrom_zero]
    decide +kernel

end Document

end TreeSelectors
