import Mathlib
import TreeSelectors.Proofs.Document.Effect
import TreeSelectors.Proofs.Tree.Neighbourhood

/-!
# Proofs/Document/Locality — an edit changes answers only nearby

An edit `Touches` the node that it is made on and those whose siblings or children it changes.
Around every other label that had been handed out the document looks as before, and so every
selector answers as before, whether the label is live or gone.
-/

namespace TreeSelectors.Document

open TreeView

variable {d d' : Document} {n m p : Nat} {c : Content} {a : Attribute} {e : Edit}

/-- The labels whose answers the edit may change. -/
def Touches (d : Document) : Edit → Nat → Prop
  | .appendElement p _, m | .appendText p _, m | .appendComment p _, m =>
    m = p ∨ m ∈ d.view.children p
  | .setAttribute n _ _, m => m = n
  | .remove n, m => d.view.Under n m ∨
    ∃ p, d.view.parent? n = some p ∧ (m = p ∨ m ∈ d.view.children p)

theorem touches_of_appended? (he : e.appended? = some (p, c)) :
    d.Touches e m ↔ m = p ∨ m ∈ d.view.children p := by
  cases e <;> cases he <;> rfl

/-! ## What contents decide -/

/-- Labels of the same content show the same. -/
theorem view_congr (h : d'.content? m = d.content? m) :
    d'.view.isElement m = d.view.isElement m ∧ d'.view.tagName m = d.view.tagName m ∧
      d'.view.attributes m = d.view.attributes m ∧ d'.view.text? m = d.view.text? m := by
  simp only [view, h, and_self]

/-- A document looks the same around a label if contents and children around it are the same. -/
theorem sameAround_of_content? (hself : d'.content? m = d.content? m)
    (hchildren : d'.view.children m = d.view.children m)
    (hchild : ∀ c ∈ d.view.children m, d'.content? c = d.content? c)
    (hparent? : d'.view.parent? m = d.view.parent? m)
    (hparent : ∀ p, d.view.parent? m = some p → d'.content? p = d.content? p ∧
      d'.view.children p = d.view.children p ∧
        ∀ c ∈ d.view.children p, d'.content? c = d.content? c) :
    d.view.SameAround d'.view m where
  isElement := (view_congr hself).1
  tagName := (view_congr hself).2.1
  attributes := (view_congr hself).2.2.1
  children := hchildren
  child c hc := ⟨(view_congr (hchild c hc)).1, (view_congr (hchild c hc)).2.2.2⟩
  parent? := hparent?
  parent p hp := ⟨(view_congr (hparent p hp).1).1, (hparent p hp).2.1⟩
  sibling p hp c hc :=
    have h := view_congr ((hparent p hp).2.2 c hc)
    ⟨h.1, h.2.1⟩

/-! ## The three effects -/

/-- An append is seen from its parent and the children there only. -/
theorem Appended.sameAround (h : d.Appended p c d') (hm : m < d.next) (hp : m ≠ p)
    (hc : m ∉ d.view.children p) : d.view.SameAround d'.view m := by
  have hcontent {x : Nat} (hx : x < d.next) : d'.content? x = d.content? x := by
    rw [h.content?, if_neg hx.ne]
  have hchildren {x : Nat} (hx : x ≠ p) : d'.view.children x = d.view.children x := by
    rw [h.children, if_neg hx, List.append_nil]
  have hchild (x : Nat) : ∀ c ∈ d.view.children x, d'.content? c = d.content? c :=
    fun c hc => hcontent (d.lt_of_mem_children hc).2
  refine sameAround_of_content? (hcontent hm) (hchildren hp) (hchild m)
    (h.parent?_of_ne hm.ne) fun q hq => ?_
  have hqp : q ≠ p := by
    rintro rfl
    exact hc (d.linked.mem_children_iff.2 hq)
  exact ⟨hcontent (lt_next (isLive_of_parent? hq).1), hchildren hqp, hchild q⟩

/-- An attribute is seen from its element only. -/
theorem Attributed.sameAround (h : d.Attributed n a d') (hm : m ≠ n) :
    d.view.SameAround d'.view m := by
  have hself : d'.content? m = d.content? m := by
    simp only [h.content?, hm, if_false, Option.map_id_fun', id]
  exact {
    isElement := (h.shows m).1
    tagName := (h.shows m).2.1
    attributes := (view_congr hself).2.2.1
    children := h.children m
    child := fun c _ => ⟨(h.shows c).1, (h.shows c).2.2⟩
    parent? := h.parent? m
    parent := fun p _ => ⟨(h.shows p).1, h.children p⟩
    sibling := fun _ _ c _ => ⟨(h.shows c).1, (h.shows c).2.1⟩ }

/-- A removal is seen from what it takes away, its parent and the children left there only. -/
theorem Removed.sameAround (h : d.Removed n d') (hu : ¬d.view.Under n m)
    (hp : ∀ p, d.view.parent? n = some p → m ≠ p ∧ m ∉ d.view.children p) :
    d.view.SameAround d'.view m := by
  have hout {x : Nat} (hx : ¬d.view.Under n x) (hnx : n ∉ d.view.children x) :
      d'.view.children x = d.view.children x ∧
        ∀ c ∈ d.view.children x, d'.content? c = d.content? c := by
    refine ⟨?_, fun c hc => h.content? c fun hnc => ?_⟩
    · rw [h.children x hx, List.filter_eq_self]
      intro c hc
      exact decide_eq_true fun e => hnx (e ▸ hc)
    · obtain rfl | ⟨q, hq, hnq⟩ := Under.iff_parent.1 hnc
      · exact hnx hc
      · obtain rfl : x = q := d.linked.eq_of_mem_children hc hq
        exact hx hnq
  have hnm : n ∉ d.view.children m := fun hn =>
    (hp m (d.linked.mem_children_iff.1 hn)).1 rfl
  obtain ⟨hchildren, hchild⟩ := hout hu hnm
  refine sameAround_of_content? (h.content? m hu) hchildren hchild
    (h.parent?_of_not_under hu) fun q hq => ?_
  have huq : ¬d.view.Under n q := fun hnq => hu (hnq.trans (.of_parent hq))
  have hnq : n ∉ d.view.children q := fun hn =>
    (hp q (d.linked.mem_children_iff.1 hn)).2 (d.linked.mem_children_iff.2 hq)
  exact ⟨h.content? q huq, hout huq hnq⟩

/-! ## Edits -/

/-- **An edit that does not touch a label leaves its answers as they were.** -/
theorem selects_eq_of_not_touches (h : d.apply e = .ok d') (hm : m < d.next)
    (ht : ¬d.Touches e m) (s : Selector) : s.selects d'.view m = s.selects d.view m := by
  refine Selector.selects_eq_of_sameAround ?_ s
  cases effect_of_apply h with
  | appended he h =>
    rw [touches_of_appended? he, not_or] at ht
    exact h.sameAround hm ht.1 ht.2
  | attributed h => exact h.sameAround ht
  | removed h =>
    obtain ⟨hu, hp⟩ := not_or.1 ht
    refine h.sameAround hu fun p hparent => ?_
    exact not_or.1 fun hmp => hp ⟨p, hparent, hmp⟩

/-- …as in a list when an item of another one is removed. -/
theorem selects_eq_of_not_touches_list :
    let d := new.attemptAll [.appendElement 0 "div", .appendElement 1 "ul", .appendElement 2 "li",
      .appendElement 1 "ol", .appendElement 4 "li", .appendElement 4 "li"]
    ∃ d', d.apply (.remove 5) = .ok d' ∧ 3 < d.next ∧ ¬d.Touches (.remove 5) 3 ∧
      ∀ s : Selector, s.selects d'.view 3 = s.selects d.view 3 := by
  intro d
  have hlive : d.isLive 5 := by decide +kernel
  obtain ⟨d', hd'⟩ := exists_remove hlive (by decide)
  have hnext : 3 < d.next := by decide +kernel
  have ht : ¬d.Touches (.remove 5) 3 := by
    have hp : d.view.parent? 5 = some 4 := by decide +kernel
    have hchildren : d.view.children 4 = [5, 6] := by decide +kernel
    rintro (hu | ⟨p, hq, h⟩)
    · have hmem : 3 ∈ d.tree.branch 5 := (mem_branch_iff hlive).2 hu
      exact absurd hmem (by decide +kernel)
    · obtain rfl := Option.some.inj (hp.symm.trans hq)
      rw [hchildren] at h
      exact absurd h (by decide)
  exact ⟨d', hd', hnext, ht, selects_eq_of_not_touches hd' hnext ht⟩

end TreeSelectors.Document
