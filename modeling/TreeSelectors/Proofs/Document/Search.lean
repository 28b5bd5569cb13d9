import Mathlib
import TreeSelectors.Document.Edit
import TreeSelectors.Document.Query
import TreeSelectors.Proofs.Document.Links
import TreeSelectors.Proofs.Tree.Stack

/-!
# Proofs/Document/Search — a search finds what it should, in document order

A search keeps the selected nodes of a walk, so it finds each selected node under its top once and
in document order; the first one found is the head of the list.  From the document node it looks at
every live node.
-/

namespace TreeSelectors

open TreeView

namespace Document

variable {d : Document} {s : Selector} {r : Nat}

/-- What a search from a live node finds is live. -/
theorem listsInOrder_selectAll (s : Selector) (hr : d.isLive r) :
    d.view.ListsInOrder (s.selectAll d.view (d.ground r)) fun n =>
      d.isLive n ∧ d.view.Under r n ∧ s.selects d.view n := by
  have h := d.linked.listsInOrder_filter (fun n => s.selects d.view n) (d.ground r)
  rw [s.selectAll_eq_filter_walk]
  refine ⟨fun n => (h.mem_iff n).trans ⟨fun hn => ?_, fun hn => hn.2⟩, h.nodup, h.order⟩
  exact ⟨isLive_of_under hn.1 hr, hn⟩

/-- A text that compiles is searched for from the document node. -/
theorem select_eq_ok {text : String} (h : Selector.compile text = .ok s) :
    d.select text = .ok (s.selectAll d.view (d.ground 0)) := by
  rw [select, h]
  rfl

theorem selectFirst_eq_ok {text : String} (h : Selector.compile text = .ok s) :
    d.selectFirst text = .ok (s.selectFirst d.view (d.ground 0)) := by
  rw [selectFirst, h]
  rfl

/-- **A search is complete, without repetitions and in document order**, below any live node; the
search for one node finds the first of them.  A search by text lists all live nodes that the
selector of the text selects. -/
theorem search_lists (d : Document) (s : Selector) {r : Nat} (hr : d.isLive r) :
    (d.view.ListsInOrder (s.selectAll d.view (d.ground r)) fun n =>
        d.isLive n ∧ d.view.Under r n ∧ s.selects d.view n) ∧
      s.selectFirst d.view (d.ground r) = (s.selectAll d.view (d.ground r)).head? ∧
      ∀ text, Selector.compile text = .ok s → ∃ found, d.select text = .ok found ∧
        d.selectFirst text = .ok found.head? ∧
        d.view.ListsInOrder found fun n => d.isLive n ∧ s.selects d.view n := by
  refine ⟨listsInOrder_selectAll s hr, s.selectFirst_eq_head? _, fun text ht => ?_⟩
  have h := listsInOrder_selectAll s d.isLive_zero
  refine ⟨_, select_eq_ok ht, ?_, fun n => (h.mem_iff n).trans ⟨?_, ?_⟩, h.nodup, h.order⟩
  · rw [selectFirst_eq_ok ht, s.selectFirst_eq_head?]
  · exact fun hn => ⟨hn.1, hn.2.2⟩
  · exact fun hn => ⟨hn.1, isLive_iff_under.1 hn.1, hn.2⟩

/-- …as in a list whose first item, with the one nested in it, is gone. -/
theorem search_lists_items :
    let d := new.attemptAll [.appendElement 0 "ul", .appendElement 1 "li", .appendElement 2 "li",
      .appendText 1 "and", .appendElement 1 "LI", .appendElement 5 "li", .remove 2]
    d.isLive 1 ∧ Selector.compile "li" = .ok (.tag "li") ∧
      (d.view.ListsInOrder ((Selector.tag "li").selectAll d.view (d.ground 1)) fun n =>
        d.isLive n ∧ d.view.Under 1 n ∧ (Selector.tag "li").selects d.view n) ∧
      ∃ found, d.select "li" = .ok found ∧ d.selectFirst "li" = .ok found.head? ∧
        d.view.ListsInOrder found fun n => d.isLive n ∧ (Selector.tag "li").selects d.view n := by
  intro d
  have hr : d.isLive 1 := by decide +kernel
  have ht : Selector.compile "li" = .ok (.tag "li") := by decide +kernel
  obtain ⟨hall, -, htext⟩ := search_lists d (.tag "li") hr
  exact ⟨hr, ht, hall, htext "li" ht⟩

end Document

end TreeSelectors
