import Mathlib
import TreeSelectors.Proofs.Characters
import TreeSelectors.Selector.Query

/-!
# Proofs/Comparison — what the comparisons of attribute values say

A comparison splits a value into tokens or looks for one text in another; `Comparison.Says` puts in
terms of concatenation what it finds that way.  For tokens the point is one fact on lists
(`mem_splitOnP_iff`): the pieces of a split are the stretches without a separator that reach from
one separator, or end, to the next.
-/

namespace TreeSelectors

/-! ## Pieces of a split -/

/-- **The pieces of a split** are the stretches that hold no separator and have one, or an end of
the list, on either side. -/
theorem mem_splitOnP_iff {α : Type*} {p : α → Bool} {w l : List α} :
    w ∈ l.splitOnP p ↔ (∀ a ∈ w, p a = false) ∧ ∃ front back, l = front ++ w ++ back ∧
      (∀ a ∈ front.getLast?, p a) ∧ ∀ a ∈ back.head?, p a := by
  constructor
  · intro hw
    -- On the length: a list with a separator splits there into two shorter ones.
    induction hlen : l.length using Nat.strongRecOn generalizing l with
    | ind k ih =>
      by_cases hsep : ∃ a ∈ l, p a
      · obtain ⟨a, ha, hpa⟩ := hsep
        obtain ⟨left, right, rfl⟩ := List.append_of_mem ha
        rw [List.splitOnP_append_cons left right hpa, List.mem_append] at hw
        rw [List.length_append, List.length_cons] at hlen
        rcases hw with hw | hw
        · obtain ⟨hfree, front, back, rfl, hfront, hback⟩ := ih _ (by omega) hw rfl
          refine ⟨hfree, front, back ++ a :: right, by simp, hfront, ?_⟩
          cases back with
          | nil =>
            rintro _ ⟨⟩
            exact hpa
          | cons b back => exact hback
        · obtain ⟨hfree, front, back, rfl, hfront, hback⟩ := ih _ (by omega) hw rfl
          refine ⟨hfree, left ++ a :: front, back, by simp, ?_, hback⟩
          rw [List.getLast?_append_cons]
          cases front with
          | nil =>
            rintro _ ⟨⟩
            exact hpa
          | cons b front => exact hfront
      · have hfree : ∀ a ∈ l, p a = false := fun a ha =>
          Bool.eq_false_iff.2 fun hpa => hsep ⟨a, ha, hpa⟩
        rw [List.splitOnP_eq_singleton hfree, List.mem_singleton] at hw
        subst hw
        exact ⟨hfree, [], [], by simp, nofun, nofun⟩
  · rintro ⟨hfree, front, back, rfl, hfront, hback⟩
    have hw : w ∈ (w ++ back).splitOnP p := by
      cases back with
      | nil =>
        rw [List.append_nil, List.splitOnP_eq_singleton hfree]
        exact List.mem_singleton_self w
      | cons b back =>
        rw [List.splitOnP_append_cons_of_forall_mem hfree b (hback b rfl)]
        exact List.mem_cons_self
    obtain rfl | ⟨front, a, rfl⟩ := front.eq_nil_or_concat
    · exact hw
    · have ha : p a := hfront a (by simp)
      rw [List.concat_eq_append, List.append_assoc, List.append_assoc, List.singleton_append,
        List.splitOnP_append_cons front _ ha]
      exact List.mem_append_right _ hw

namespace Text

/-! ## Tokens -/

/-- Space, tab, line feed, form feed and carriage return. -/
def blanks : List Char :=
  [' ', '\t', '\n', '\x0c', '\r']

/-- Tokens are separated by these five characters, and by no other space. -/
theorem isBlank_iff_mem_blanks {c : Char} : isBlank c ↔ c ∈ blanks := by
  simp only [isBlank_iff, isNewline_iff, blanks, List.mem_cons, List.not_mem_nil, or_false]
  tauto

/-- `text` has `word` in it, which is not empty and holds no blank, with nothing or a blank right
before it and nothing or a blank right behind it. -/
def HasWord (word text : String) : Prop :=
  word ≠ "" ∧ (∀ c ∈ word.toList, c ∉ blanks) ∧ ∃ front back : String,
    text = front ++ word ++ back ∧ (∀ c ∈ front.toList.getLast?, c ∈ blanks) ∧
      ∀ c ∈ back.toList.head?, c ∈ blanks

/-- A statement on lists of characters is one on texts. -/
theorem exists_ofList {P : List Char → Prop} : (∃ cs, P cs) ↔ ∃ s : String, P s.toList :=
  ⟨fun ⟨cs, h⟩ => ⟨String.ofList cs, by rwa [String.toList_ofList]⟩, fun ⟨s, h⟩ => ⟨s.toList, h⟩⟩

/-- **The tokens of a text are its words.** -/
theorem hasToken_iff {word text : String} : hasToken word text ↔ HasWord word text := by
  have hfree (c : Char) : isBlank c = false ↔ c ∉ blanks := by
    rw [← isBlank_iff_mem_blanks, Bool.not_eq_true]
  have hpiece : hasToken word text ↔ word ≠ "" ∧ word.toList ∈ text.toList.splitOnP isBlank := by
    simp [hasToken, tokens, and_comm]
  rw [hpiece, mem_splitOnP_iff, HasWord]
  simp only [hfree, isBlank_iff_mem_blanks, exists_ofList, ← String.toList_inj,
    String.toList_append]

/-! ## One text in another -/

theorem toList_isPrefix_iff {v x : String} : v.toList <+: x.toList ↔ ∃ back, x = v ++ back := by
  simp only [List.IsPrefix, exists_ofList, ← String.toList_inj, String.toList_append,
    eq_comm (b := x.toList)]

theorem toList_isSuffix_iff {v x : String} : v.toList <:+ x.toList ↔ ∃ front, x = front ++ v := by
  simp only [List.IsSuffix, exists_ofList, ← String.toList_inj, String.toList_append,
    eq_comm (b := x.toList)]

theorem toList_isInfix_iff {v x : String} :
    v.toList <:+: x.toList ↔ ∃ front back, x = front ++ v ++ back := by
  simp only [List.IsInfix, exists_ofList, ← String.toList_inj, String.toList_append,
    eq_comm (b := x.toList)]

end Text

open Text

/-! ## Comparisons and tests -/

/-- What a comparison with `v` says of the value `x`. -/
def Comparison.Says : Comparison → (v x : String) → Prop
  | equals, v, x => x = v
  | includes, v, x => HasWord v x
  | dashMatch, v, x => x = v ∨ ∃ back, x = v ++ "-" ++ back
  | startsWith, v, x => ∃ back, x = v ++ back
  | endsWith, v, x => ∃ front, x = front ++ v
  | contains, v, x => ∃ front back, x = front ++ v ++ back

/-- What a test says of the value `x` of an attribute. -/
def AttributeTest.Says : AttributeTest → (x : String) → Prop
  | present, _ => True
  | compare how v, x => how.Says v x

/-- **A comparison holds exactly if what it says is so.** -/
theorem Comparison.holds_iff_says {how : Comparison} {v x : String} :
    how.holds v x ↔ how.Says v x := by
  cases how with
  | equals => exact beq_iff_eq
  | includes => exact hasToken_iff
  | dashMatch =>
    have hdash : v.toList ++ ['-'] = (v ++ "-").toList := by rw [String.toList_append]; rfl
    rw [holds, Says, Bool.or_eq_true, beq_iff_eq, decide_eq_true_iff, hdash, toList_isPrefix_iff]
  | startsWith => exact decide_eq_true_iff.trans toList_isPrefix_iff
  | endsWith => exact decide_eq_true_iff.trans toList_isSuffix_iff
  | contains => exact occursIn_iff.trans toList_isInfix_iff

theorem AttributeTest.accepts_iff_says {test : AttributeTest} {x : String} :
    test.accepts x ↔ test.Says x := by
  cases test with
  | present => exact iff_of_true rfl trivial
  | compare how v => exact Comparison.holds_iff_says

/-! ## Selectors -/

universe u

/-- One attribute of the name is enough, whatever the others of that name are. -/
theorem TreeView.hasAttribute_iff {ν : Type u} {t : TreeView ν} {n : ν} {key : String}
    {test : String → Bool} : t.hasAttribute n key test ↔
      t.isElement n ∧ ∃ a ∈ t.attributes n, fold a.name = fold key ∧ test a.value := by
  simp only [hasAttribute, Bool.and_eq_true, List.any_eq_true, sameFolded_iff]

namespace Selector

variable {ν : Type u} [DecidableEq ν]

/-- **Tests of attributes decide what they say**, for every value and every text that it is compared
with.  An empty text begins, ends and stands in every value.  An attribute selector selects the
elements with some attribute of its name, in any letter case, whose value passes the test, and a
class selector those with some attribute named `class` that has the class among its words. -/
theorem attributeTests_say :
    (∀ (test : AttributeTest) (x : String), test.accepts x ↔ test.Says x) ∧
      (∀ x, Comparison.startsWith.holds "" x ∧ Comparison.endsWith.holds "" x ∧
        Comparison.contains.holds "" x) ∧
      ∀ (t : TreeView ν) (n : ν),
        (∀ key test, (attr key test).selects t n ↔ t.isElement n ∧
          ∃ a ∈ t.attributes n, fold a.name = fold key ∧ test.Says a.value) ∧
        ∀ name, (className name).selects t n ↔ t.isElement n ∧
          ∃ a ∈ t.attributes n, fold a.name = "class" ∧ HasWord name a.value := by
  refine ⟨fun _ _ => AttributeTest.accepts_iff_says, fun x => ⟨?_, ?_, ?_⟩,
    fun t n => ⟨fun key test => ?_, fun name => ?_⟩⟩
  · exact Comparison.holds_iff_says.2 ⟨x, by simp⟩
  · exact Comparison.holds_iff_says.2 ⟨x, by simp⟩
  · exact Comparison.holds_iff_says.2 ⟨x, "", by simp⟩
  · rw [selects, TreeView.hasAttribute_iff]
    simp only [AttributeTest.accepts_iff_says]
  · have hclass : fold "class" = "class" := by decide
    rw [selects, TreeView.hasAttribute_iff, hclass]
    simp only [hasToken_iff]

end Selector

end TreeSelectors
