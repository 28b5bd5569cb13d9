import Mathlib
import TreeSelectors.Proofs.RoundTrip
import TreeSelectors.Proofs.Specificity
import TreeSelectors.Selector.Query

/-!
# Proofs/Meaning — a selector and its normal form select the same nodes

A conjunction selects what each conjunct selects, so their order is free.  A universal conjunct may
go where a tag stays, since a tag selects elements only; where none does, `*` stands in front.
Nothing is assumed of the tree.
-/

namespace TreeSelectors

open Text

universe u

namespace Selector

variable {ν : Type u} [DecidableEq ν] (t : TreeView ν) (n : ν)

/-! ## Conjunctions -/

theorem selects_inter {left right : Selector} :
    (inter left right).selects t n ↔ left.selects t n ∧ right.selects t n := by
  rw [selects, Bool.and_eq_true]

/-- **A conjunction selects what all its conjuncts select.** -/
theorem selects_conjunction {ss : List Selector} (h : ss ≠ []) :
    (conjunction ss).selects t n ↔ ∀ s ∈ ss, s.selects t n := by
  induction ss using List.reverseRecOn with
  | nil => exact absurd rfl h
  | append_singleton ss s ih =>
    cases ss with
    | nil => simp [conjunction]
    | cons r rs =>
      rw [conjunction_snoc (List.cons_ne_nil r rs), selects_inter, ih (List.cons_ne_nil r rs),
        List.forall_mem_append, List.forall_mem_singleton]

/-- Negated twice, a tag selects what it did. -/
theorem selects_behind (s : Selector) : s.behind.selects t n = s.selects t n := by
  cases s with
  | tag name => exact Bool.not_not _
  | _ => rfl

/-- What a tag selects is an element, so `*` adds nothing to a tag. -/
theorem selects_universal_of_isTag {s : Selector} (h : s.isTag) (hs : s.selects t n) :
    universal.selects t n := by
  cases s with
  | tag name => exact (Bool.and_eq_true_iff.1 hs).1
  | _ => cases h

/-! ## Arrangements -/

/-- What stays behind the front selects what it did, universal selectors apart. -/
theorem selects_rears (ss : List Selector) : (∀ s ∈ rears ss, s.selects t n) ↔
    ∀ s ∈ ss.eraseP isTag, s ≠ universal → s.selects t n := by
  simp only [rears, List.forall_mem_map, List.mem_filter, decide_eq_true_eq, and_imp,
    selects_behind]

/-- Where the universal selector selects, it may be left out. -/
theorem selects_universal_free {ss : List Selector} (hu : universal.selects t n) :
    (∀ s ∈ ss, s ≠ universal → s.selects t n) ↔ ∀ s ∈ ss, s.selects t n := by
  refine ⟨fun h s hs => ?_, fun h s hs _ => h s hs⟩
  by_cases he : s = universal
  · exact he ▸ hu
  · exact h s hs he

/-- **Arranging a row does not change what all of it select.** -/
theorem selects_arrange (ss : List Selector) :
    (∀ s ∈ arrange ss, s.selects t n) ↔ ∀ s ∈ ss, s.selects t n := by
  have hperm : (∀ s ∈ ss, s.selects t n) ↔
      ∀ s ∈ (ss.find? isTag).toList ++ ss.eraseP isTag, s.selects t n :=
    forall_congr' fun s => imp_congr_left (perm_find?_eraseP ss).mem_iff.symm
  rw [hperm, arrange, List.forall_mem_append, List.forall_mem_append, selects_rears, fronts]
  cases hf : ss.find? isTag with
  | some r =>
    refine and_congr_right fun hr => selects_universal_free t n ?_
    exact selects_universal_of_isTag t n (List.find?_some hf) (hr r List.mem_cons_self)
  | none =>
    rw [List.eraseP_of_forall_not (List.find?_eq_none.1 hf)]
    by_cases hmem : universal ∈ ss
    · simp only [hmem, if_true, Option.toList_none, List.forall_mem_singleton]
      refine ⟨fun h => ⟨List.forall_mem_nil _, (selects_universal_free t n h.1).1 h.2⟩, fun h => ?_⟩
      exact ⟨h.2 universal hmem, fun s hs _ => h.2 s hs⟩
    · simp only [hmem, if_false, Option.toList_none]
      refine and_congr_right fun _ => forall₂_congr fun s hs => ?_
      exact ⟨fun h => h fun he => hmem (he ▸ hs), fun h _ => h⟩

/-! ## The normal form -/

theorem sameFolded_fold (r s : String) : sameFolded r (fold s) = sameFolded r s := by
  rw [Bool.eq_iff_iff, sameFolded_iff, sameFolded_iff, fold_eq_self_iff.2 (isFolded_fold s)]

/-- **The normal form selects what the selector does**, if no name holds U+0000. -/
theorem selects_normal {s : Selector} (h : s.EveryName fun name => '\x00' ∉ name.toList) :
    s.normal.selects t n = s.selects t n := by
  have hnormal (r : Selector) : r.normal.selects t n ↔
      ∀ q ∈ r.normalConjuncts, q.selects t n := by
    rw [normal, selects_conjunction t n (arrange_ne_nil r.normalConjuncts_ne_nil), selects_arrange]
  rw [Bool.eq_iff_iff, hnormal]
  induction s with
  | inter left right ihl ihr =>
    rw [normalConjuncts, List.forall_mem_append, ihl h.1, ihr h.2, selects_inter]
  | negation inner ih =>
    have hinner : inner.normal.selects t n = inner.selects t n :=
      Bool.eq_iff_iff.2 ((hnormal inner).trans (ih h))
    rw [normalConjuncts, List.forall_mem_singleton, selects, selects]
    exact Bool.eq_iff_iff.1 (congrArg (!·) hinner)
  | tag name =>
    rw [normalConjuncts, List.forall_mem_singleton, withoutNul_eq_self h, selects, selects,
      sameFolded_fold]
  | attr key test =>
    rw [normalConjuncts, List.forall_mem_singleton, withoutNul_eq_self h, selects, selects]
    simp only [TreeView.hasAttribute, sameFolded_fold]
  | id name | className name =>
    rw [normalConjuncts, List.forall_mem_singleton, withoutNul_eq_self h]
  | _ => exact List.forall_mem_singleton

/-! ## Printing -/

theorem EveryName.imp {p q : String → Prop} (hpq : ∀ name, p name → q name) {s : Selector}
    (h : s.EveryName p) : s.EveryName q := by
  induction s with
  | inter left right ihl ihr => exact ⟨ihl h.1, ihr h.2⟩
  | negation inner ih => exact ih h
  | tag name | id name | className name | attr name _ => exact hpq name h
  | _ => exact trivial

/-- **The text of a selector means what the selector means**: it compiles, to a selector of the same
specificity that selects the same nodes of every tree. -/
theorem compile_text_selects {s : Selector}
    (h : s.EveryName fun name => name ≠ "" ∧ '\x00' ∉ name.toList) :
    ∃ r, compile s.text = .ok r ∧ r.specificity = s.specificity ∧
      ∀ {ν : Type u} [DecidableEq ν] (t : TreeView ν) (n : ν), r.selects t n = s.selects t n := by
  have hnul : s.EveryName fun name => '\x00' ∉ name.toList := h.imp fun _ => And.right
  refine ⟨s.normal, ?_, s.specificity_normal, fun t n => selects_normal t n hnul⟩
  rw [compile_eq_ok_iff_selector, text, String.toList_ofList]
  exact selector_chars (h.imp fun _ => And.left)

/-- …also where a negation hides a tag and the `*` beside it. -/
theorem compile_text_selects_negation :
    (inter (id "x") (negation (inter universal (tag "B")))).EveryName
        (fun name => name ≠ "" ∧ '\x00' ∉ name.toList) ∧
      ∃ r, compile (inter (id "x") (negation (inter universal (tag "B")))).text = .ok r ∧
        r.specificity = (⟨1, 0, 1⟩ : Specificity) ∧
        ∀ {ν : Type} [DecidableEq ν] (t : TreeView ν) (n : ν), r.selects t n
          = (inter (id "x") (negation (inter universal (tag "B")))).selects t n := by
  have h : (inter (id "x") (negation (inter universal (tag "B")))).EveryName
      fun name => name ≠ "" ∧ '\x00' ∉ name.toList := by
    simp [EveryName]
  exact ⟨h, compile_text_selects h⟩

end Selector

end TreeSelectors
