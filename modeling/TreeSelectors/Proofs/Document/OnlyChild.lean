import Mathlib
import TreeSelectors.Proofs.Document.Links
import TreeSelectors.Proofs.Tree.Position

/-!
# Proofs/Document/OnlyChild — an only child is a first and a last one

The selector of only children counts siblings and never looks for the node among them; the one of
positions looks for the node.  They agree on a node that its parent lists once: a row is as long as
one exactly if the node begins it and ends it.  In a document that is every element.
-/

namespace TreeSelectors

universe u

/-! ## Rows -/

/-- What occurs once is alone exactly if it comes first and last. -/
theorem length_eq_one_iff_of_count {ν : Type u} [DecidableEq ν] {n : ν} {l : List ν}
    (h : l.count n = 1) : l.length = 1 ↔ l.head? = some n ∧ l.getLast? = some n := by
  constructor
  · intro hlen
    obtain ⟨m, rfl⟩ := List.length_eq_one_iff.1 hlen
    have hmem : n ∈ [m] := List.count_pos_iff.1 (by omega)
    obtain rfl := List.mem_singleton.1 hmem
    exact ⟨rfl, rfl⟩
  · rintro ⟨hhead, hlast⟩
    obtain ⟨rest, rfl⟩ := List.head?_eq_some_iff.1 hhead
    have hrest : n ∉ rest := by
      rwa [List.count_cons_self, Nat.succ_inj, List.count_eq_zero] at h
    cases rest with
    | nil => rfl
    | cons m rest =>
      rw [List.getLast?_cons_cons] at hlast
      exact absurd (List.mem_of_getLast? hlast) hrest

/-- The first place is at the end that is counted from. -/
theorem place?_eq_one_iff {ν : Type u} [DecidableEq ν] {fromEnd : Bool} {n : ν} {l : List ν} :
    place? fromEnd n l = some 1 ↔ (if fromEnd then l.getLast? else l.head?) = some n := by
  have hzero (k : List ν) : k.idxOf? n = some 0 ↔ k.head? = some n := by
    cases k with
    | nil => simp
    | cons m k => simp [List.idxOf?_cons]
  have hend : (if fromEnd then l.getLast? else l.head?) =
      (if fromEnd then l.reverse else l).head? := by
    cases fromEnd with
    | true => exact List.head?_reverse.symm
    | false => rfl
  rw [place?, hend, ← hzero, Option.map_eq_some_iff]
  simp

/-- A count that stops at two tells whether there is just one. -/
theorem length_take_two_eq_one_iff {ν : Type u} {l : List ν} :
    (l.take 2).length = 1 ↔ l.length = 1 := by
  rw [List.length_take]
  omega

/-- The positions `0 * k + 1` are the first one. -/
theorem Nth.picks_one_iff {i : ℕ} : (⟨0, 1⟩ : Nth).picks i ↔ i = 1 := by
  have h0 : (0 : Int32).toInt = 0 := rfl
  have h1 : (1 : Int32).toInt = 1 := rfl
  rw [Nth.picks_iff]
  simp only [h0, h1, zero_mul, zero_add, exists_const]
  omega

/-! ## Siblings -/

namespace TreeView

/-- An element is counted as often as its parent lists it. -/
theorem count_counted {ν : Type u} [DecidableEq ν] {t : TreeView ν} {n : ν} (he : t.isElement n)
    (sameTag : Bool) (p : ν) : (t.counted sameTag n p).count n = (t.children p).count n :=
  List.count_filter (by simp [he])

theorem siblings?_eq_none {ν : Type u} {t : TreeView ν} {n : ν}
    (h : t.isElement n = false ∨ t.parent? n = none) (sameTag : Bool) :
    t.siblings? sameTag n = none := by
  rw [siblings?]
  obtain he | hp := h
  · simp [he]
  · simp [hp]

end TreeView

/-! ## The selectors -/

namespace Selector

variable {ν : Type u} [DecidableEq ν] {t : TreeView ν} {n p : ν}

/-- The first position is that of the first sibling, from either end. -/
theorem nthChild_one_selects_iff {fromEnd sameTag : Bool} {l : List ν}
    (hl : t.siblings? sameTag n = some l) : (nthChild ⟨0, 1⟩ fromEnd sameTag).selects t n ↔
      (if fromEnd then l.getLast? else l.head?) = some n := by
  rw [selects, hl, Option.any_some, Option.any_eq_true, ← place?_eq_one_iff]
  simp only [Nth.picks_one_iff, exists_eq_right]

/-- **An only child is a first and a last one**, if its parent lists it once. -/
theorem onlyChild_selects_iff_of_count (he : t.isElement n) (hp : t.parent? n = some p)
    (hc : (t.children p).count n = 1) (sameTag : Bool) : (onlyChild sameTag).selects t n ↔
      (nthChild ⟨0, 1⟩ false sameTag).selects t n ∧ (nthChild ⟨0, 1⟩ true sameTag).selects t n := by
  have hl : t.siblings? sameTag n = some (t.counted sameTag n p) := by
    rw [TreeView.siblings?, if_pos he, hp, Option.map_some]
  have hcount := TreeView.count_counted he sameTag p
  rw [nthChild_one_selects_iff hl, nthChild_one_selects_iff hl, selects, hl, Option.any_some,
    beq_iff_eq, length_eq_one_iff_of_count (hcount.trans hc)]
  rfl

end Selector

namespace Document

variable {d : Document} {n : ℕ}

/-- The document node is no element. -/
theorem ne_zero_of_isElement (h : d.view.isElement n) : n ≠ 0 := by
  rintro rfl
  obtain ⟨below, hb⟩ := d.rooted
  simp [view, content?, hb, Forest.find?, Content.isElement] at h

/-- **In a document an only child is the first and the last**: no child is listed twice. -/
theorem onlyChild_selects_iff (hlive : d.isLive n) (he : d.view.isElement n) (sameTag : Bool) :
    (Selector.onlyChild sameTag).selects d.view n ↔
      (Selector.nthChild ⟨0, 1⟩ false sameTag).selects d.view n ∧
        (Selector.nthChild ⟨0, 1⟩ true sameTag).selects d.view n := by
  obtain ⟨p, hp, -, hcount, -⟩ := d.sound.place n hlive (ne_zero_of_isElement he)
  exact Selector.onlyChild_selects_iff_of_count he hp hcount sameTag

end Document

namespace Selector

variable {ν : Type u} [DecidableEq ν]

/-- **Only means first and last.**  On an element that its parent lists once, and so on every live
element of a document, the selector of only children answers as those of the first and the last one
do together, of all children or of those with the same tag; for its answer it is enough to count up
to two siblings.  Without a parent, or on what is no element, none of the three selects. -/
theorem onlyChild_selects_iff_first_and_last (t : TreeView ν) (n : ν) (sameTag : Bool) :
    (∀ p, t.isElement n → t.parent? n = some p → (t.children p).count n = 1 →
      ((onlyChild sameTag).selects t n ↔ (nthChild ⟨0, 1⟩ false sameTag).selects t n ∧
        (nthChild ⟨0, 1⟩ true sameTag).selects t n)) ∧
    (t.isElement n = false ∨ t.parent? n = none →
      (onlyChild sameTag).selects t n = false ∧
        (nthChild ⟨0, 1⟩ false sameTag).selects t n = false ∧
        (nthChild ⟨0, 1⟩ true sameTag).selects t n = false) ∧
    ((onlyChild sameTag).selects t n =
      (t.siblings? sameTag n).any fun l => (l.take 2).length == 1) ∧
    ∀ (d : Document) (m : ℕ), d.isLive m → d.view.isElement m →
      ((onlyChild sameTag).selects d.view m ↔ (nthChild ⟨0, 1⟩ false sameTag).selects d.view m ∧
        (nthChild ⟨0, 1⟩ true sameTag).selects d.view m) := by
  refine ⟨fun p he hp hc => onlyChild_selects_iff_of_count he hp hc sameTag, fun h => ?_, ?_,
    fun d m hlive he => Document.onlyChild_selects_iff hlive he sameTag⟩
  · have hnone := TreeView.siblings?_eq_none h sameTag
    simp only [selects, hnone, Option.any_none, and_self]
  · rw [selects]
    congr 1
    funext l
    rw [Bool.eq_iff_iff, beq_iff_eq, beq_iff_eq, length_take_two_eq_one_iff]

/-- …as of the one `li` among a text, which comes first, and two elements of another tag, one of
them listed twice: it is an only one of its tag. -/
theorem onlyChild_selects_iff_first_and_last_mixed :
    let t := TreeView.ofRows #[⟨some "ul", none, [], none, some [1, 3, 2, 3, 4]⟩,
      ⟨none, some "x", [], some 0, none⟩, ⟨some "li", none, [], some 0, none⟩,
      ⟨some "b", none, [], some 0, none⟩, ⟨some "b", none, [], some 0, none⟩]
    (t.isElement 2 ∧ t.parent? 2 = some 0 ∧ (t.children 0).count 2 = 1) ∧
      ((onlyChild true).selects t 2 ↔
        (nthChild ⟨0, 1⟩ false true).selects t 2 ∧ (nthChild ⟨0, 1⟩ true true).selects t 2) ∧
      (onlyChild true).selects t 2 ∧ t.isElement 1 = false ∧
      (onlyChild true).selects t 1 = false := by
  intro t
  have he : t.isElement 2 := rfl
  have hp : t.parent? 2 = some 0 := rfl
  have hc : (t.children 0).count 2 = 1 := by decide
  have hs : (onlyChild true).selects t 2 := by decide
  have htext : t.isElement 1 = false := rfl
  obtain ⟨hiff, -⟩ := onlyChild_selects_iff_first_and_last t 2 true
  obtain ⟨-, hnone, -⟩ := onlyChild_selects_iff_first_and_last t 1 true
  exact ⟨⟨he, hp, hc⟩, hiff 0 he hp hc, hs, htext, (hnone (.inl htext)).1⟩

end Selector

end TreeSelectors
