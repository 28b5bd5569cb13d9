import Mathlib
import TreeSelectors.Proofs.Meaning
import TreeSelectors.Proofs.Tree.Stack
import TreeSelectors.Tree.Table

/-!
# Proofs/Tree/LetterCase — where the letter case of names is ignored

Folding the tags and the keys of a selector changes none of its answers, and neither does folding
the tags and the attribute names of a tree, with one exception: where siblings are counted by their
tag, the tags are compared letter by letter.  So two trees that differ in letter case give the same
answers to every selector, provided they tell siblings apart alike (`TreeView.SameTypes`) or the
selector does not ask for that.  `LI` beside `li` shows that the proviso is needed.
-/

namespace TreeSelectors

open Text

universe u

/-! ## Folded names -/

/-- The attribute with its name folded. -/
def Attribute.folded (a : Attribute) : Attribute :=
  { a with name := fold a.name }

/-- The tree with its tags and attribute names folded. -/
def TreeView.folded {ν : Type u} (t : TreeView ν) : TreeView ν :=
  { t with
    tagName := fun n => fold (t.tagName n)
    attributes := fun n => (t.attributes n).map Attribute.folded }

namespace Selector

/-- The selector with its tags and keys folded. -/
def folded : Selector → Selector
  | tag name => ofTag name
  | attr key test => ofAttribute key test
  | inter left right => inter left.folded right.folded
  | negation inner => negation inner.folded
  | s => s

/-- Whether the selector counts siblings by their tag somewhere. -/
def countsTypes : Selector → Bool
  | nthChild _ _ sameTag | onlyChild sameTag => sameTag
  | inter left right => left.countsTypes || right.countsTypes
  | negation inner => inner.countsTypes
  | _ => false

end Selector

theorem Text.sameFolded_eq {r r' : String} (h : fold r = fold r') (s : String) :
    sameFolded r s = sameFolded r' s := by
  rw [Bool.eq_iff_iff, sameFolded_iff, sameFolded_iff, h]

namespace TreeView

variable {ν : Type u} {t t' : TreeView ν}

/-- Folding keeps what is no name. -/
theorem eq_of_folded_eq (h : t.folded = t'.folded) : t.isElement = t'.isElement ∧
    t.text? = t'.text? ∧ t.parent? = t'.parent? ∧ t.children = t'.children := by
  have hel := congrArg isElement h
  have htext := congrArg text? h
  have hparent := congrArg parent? h
  have hchildren := congrArg children h
  exact ⟨hel, htext, hparent, hchildren⟩

/-- Names of attributes are compared folded, so folding them changes no answer. -/
theorem hasAttribute_folded (t : TreeView ν) (n : ν) (key : String) (test : String → Bool) :
    t.folded.hasAttribute n key test = t.hasAttribute n key test := by
  have hname (a : Attribute) : sameFolded a.folded.name key = sameFolded a.name key :=
    sameFolded_eq (fold_eq_self_iff.2 (isFolded_fold a.name)) key
  rw [hasAttribute, hasAttribute]
  change (t.isElement n && ((t.attributes n).map Attribute.folded).any _) = _
  simp only [List.any_map, Function.comp_def, hname]
  rfl

/-- Both trees tell the element children of a node apart alike: of two of them, the tags are the
same letter by letter in both trees or in none. -/
def SameTypes (t t' : TreeView ν) : Prop :=
  ∀ n p, t.parent? n = some p → ∀ c ∈ t.children p, t.isElement n → t.isElement c →
    (t'.tagName c = t'.tagName n ↔ t.tagName c = t.tagName n)

/-- The siblings that count are the same ones, unless tags decide and are told apart otherwise. -/
theorem siblings?_eq_of_folded_eq (ht : t.folded = t'.folded) {sameTag : Bool}
    (h : sameTag → t.SameTypes t') (n : ν) :
    t'.siblings? sameTag n = t.siblings? sameTag n := by
  obtain ⟨hel, -, hparent?, hchildren⟩ := eq_of_folded_eq ht
  rw [siblings?, siblings?, ← hel, ← hparent?]
  split
  · next hn =>
    cases hp : t.parent? n with
    | none => rfl
    | some p =>
      rw [Option.map_some, Option.map_some, counted, counted, ← hel, ← hchildren]
      refine congrArg some (List.filter_congr fun c hc => ?_)
      cases sameTag with
      | false => rfl
      | true =>
        rw [Bool.eq_iff_iff, Bool.and_eq_true, Bool.and_eq_true]
        refine and_congr_right fun he => ?_
        simp only [Bool.not_true, Bool.false_or, beq_iff_eq]
        exact h rfl n p hp c hc hn he
  · rfl

/-- Visits ask for children only. -/
theorem Visits.of_children_eq {stack ns : List ν} (h : t.children = t'.children)
    (hv : t.Visits stack ns) : t'.Visits stack ns := by
  have hvisit (stack : List ν) : t'.visit? stack = t.visit? stack := by rw [visit?, visit?, h]
  induction hv with
  | done hs => exact .done ((hvisit _).trans hs)
  | visit hs _ ih => exact .visit ((hvisit _).trans hs) ih

end TreeView

/-! ## Tables -/

/-- The row with its tag and its attribute names folded. -/
def Row.folded (r : Row) : Row :=
  { r with tag? := r.tag?.map fold, attributes := r.attributes.map Attribute.folded }

namespace TreeView

/-- Folding the rows of a table folds the tree that it gives. -/
theorem folded_ofRows (rows : Array Row) :
    (ofRows rows).folded = ofRows (rows.map Row.folded) := by
  have hparent? (m : Nat) :
      ((rows[m]?.map Row.folded).bind Row.parent?) = rows[m]?.bind Row.parent? := by
    cases rows[m]? <;> rfl
  have hempty : fold "" = "" := rfl
  simp only [folded, ofRows, Array.getElem?_map, Array.size_map, hparent?, mk.injEq, true_and]
  refine ⟨?_, ?_, ?_, ?_, ?_⟩ <;> funext n <;> cases rows[n]? with
  | none => rfl
  | some r => cases htag? : r.tag? <;> simp [htag?, Row.folded, hempty]

/-- A list of two items, whose tags are `first` and `second`. -/
def twoItems (first second : String) : TreeView Nat :=
  .ofRows #[⟨some "ul", none, [], none, none⟩, ⟨some first, none, [], some 0, none⟩,
    ⟨some second, none, [], some 0, none⟩]

theorem folded_twoItems (first second : String) :
    (twoItems first second).folded = twoItems (fold first) (fold second) := by
  have hul : fold "ul" = "ul" := by decide
  rw [twoItems, folded_ofRows]
  simp [twoItems, Row.folded, hul]

/-- Items of one tag in capitals and in small letters. -/
theorem sameTypes_twoItems : (twoItems "LI" "LI").SameTypes (twoItems "li" "li") := by
  intro n p hp c hc _ _
  match n, hp with
  | 1, hp | 2, hp =>
    obtain rfl : 0 = p := Option.some.inj hp
    have hc : c ∈ [1, 2] := hc
    rcases List.mem_pair.1 hc with rfl | rfl <;> exact iff_of_true rfl rfl

end TreeView

/-! ## Answers -/

namespace Selector

open TreeView

variable {ν : Type u} [DecidableEq ν] {t t' : TreeView ν} {s r : Selector}

/-- Folding a selector changes no answer. -/
theorem selects_folded (s : Selector) (t : TreeView ν) (n : ν) :
    s.folded.selects t n = s.selects t n := by
  induction s with
  | tag name => rw [folded, ofTag, selects, selects, sameFolded_fold]
  | attr key test =>
    rw [folded, ofAttribute, selects, selects]
    simp only [hasAttribute, sameFolded_fold]
  | inter left right ihl ihr => rw [folded, selects, selects, ihl, ihr]
  | negation inner ih => rw [folded, selects, selects, ih]
  | _ => rfl

/-- Neither does folding a tree, as far as siblings are told apart alike.  The induction is on the
selector; only the two kinds that count siblings need the proviso. -/
theorem selects_eq_of_tree_folded_eq (ht : t.folded = t'.folded)
    (h : s.countsTypes → t.SameTypes t') (n : ν) : s.selects t' n = s.selects t n := by
  obtain ⟨hel, htext, hparent?, hchildren⟩ := eq_of_folded_eq ht
  have htag : fold (t'.tagName n) = fold (t.tagName n) :=
    congrFun (congrArg tagName ht.symm) n
  have hattr (key : String) (test : String → Bool) :
      t'.hasAttribute n key test = t.hasAttribute n key test := by
    rw [← t'.hasAttribute_folded, ← ht, t.hasAttribute_folded]
  induction s with
  | universal => rw [selects, selects, hel]
  | tag name => rw [selects, selects, hel, sameFolded_eq htag]
  | id value | className name | attr key test => exact hattr _ _
  | inter left right ihl ihr =>
    rw [countsTypes, Bool.or_eq_true] at h
    rw [selects, selects, ihl fun hl => h (.inl hl), ihr fun hr => h (.inr hr)]
  | negation inner ih => rw [selects, selects, ih h]
  | nthChild f fromEnd sameTag | onlyChild sameTag =>
    have hsiblings : t'.siblings? sameTag n = t.siblings? sameTag n :=
      siblings?_eq_of_folded_eq ht h n
    rw [selects, selects, hsiblings]
  | empty => rw [selects, selects, hel, hchildren, htext]
  | root => rw [selects, selects, hel, hparent?]

/-- **The letter case of tags and attribute names is ignored**, in the selector as well as in the
tree, if siblings are told apart alike or the selector does not count them by their tag.  The
searches then end from the same nodes and list the same. -/
theorem selects_eq_of_folded_eq (ht : t.folded = t'.folded) (hs : s.folded = r.folded)
    (h : s.countsTypes → t.SameTypes t') :
    (∀ n, s.selects t n = r.selects t' n) ∧ (∀ n, t.Grounded n ↔ t'.Grounded n) ∧
      ∀ (top : t.Ground) (top' : t'.Ground), top.node = top'.node →
        s.selectAll t top = r.selectAll t' top' := by
  have hselects (n : ν) : s.selects t n = r.selects t' n := by
    rw [← r.selects_folded, ← hs, s.selects_folded, selects_eq_of_tree_folded_eq ht h]
  obtain ⟨-, -, -, hchildren⟩ := eq_of_folded_eq ht
  refine ⟨hselects, fun n => ?_, fun top top' hnode => ?_⟩
  · rw [Grounded, Grounded, hchildren]
  · have hvisits : t.Visits [top.node] (t.walk top) := (visits_singleton_iff top).2 rfl
    have hvisits' := hvisits.of_children_eq hchildren
    rw [hnode, visits_singleton_iff] at hvisits'
    rw [selectAll_eq_filter_walk, selectAll_eq_filter_walk, hvisits']
    exact List.filter_congr fun n _ => hselects n

/-- …as where a list is all in capitals. -/
theorem selects_eq_of_folded_eq_capitals :
    let s := inter (tag "Li") (nthChild ⟨0, 2⟩ false true)
    let r := inter (tag "lI") (nthChild ⟨0, 2⟩ false true)
    (twoItems "LI" "LI").folded = (twoItems "li" "li").folded ∧ s.folded = r.folded ∧
      (s.countsTypes → (twoItems "LI" "LI").SameTypes (twoItems "li" "li")) ∧
      ∀ n, s.selects (twoItems "LI" "LI") n = r.selects (twoItems "li" "li") n := by
  intro s r
  have ht : (twoItems "LI" "LI").folded = (twoItems "li" "li").folded := by
    rw [folded_twoItems, folded_twoItems, show fold "LI" = fold "li" by decide]
  have hs : s.folded = r.folded := rfl
  have h : s.countsTypes → (twoItems "LI" "LI").SameTypes (twoItems "li" "li") :=
    fun _ => sameTypes_twoItems
  exact ⟨ht, hs, h, (selects_eq_of_folded_eq ht hs h).1⟩

/-- **The letter case of tags is not ignored without the proviso**: the item `li` beside an item
`LI` is the first of its type, but beside `li` it is the second. -/
theorem not_forall_selects_eq_of_folded_eq :
    ¬∀ (t t' : TreeView Nat) (s r : Selector), t.folded = t'.folded → s.folded = r.folded →
      ∀ n, s.selects t n = r.selects t' n := by
  intro h
  have ht : (twoItems "LI" "li").folded = (twoItems "li" "li").folded := by
    rw [folded_twoItems, folded_twoItems, show fold "LI" = fold "li" by decide]
  have hfirst := h _ _ (nthChild ⟨0, 1⟩ false true) _ ht rfl 2
  exact absurd hfirst (by decide)

end Selector

end TreeSelectors
