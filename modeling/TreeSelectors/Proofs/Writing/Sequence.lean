import Mathlib
import TreeSelectors.Proofs.Writing.Formula

/-!
# Proofs/Writing/Sequence — the normal form is derived from the text of a selector

The printer works on the parts of a selector, which correspond one to one to the conjuncts of its
normal form (`Writes`); finding the front and leaving it out behind are the same on either side.
-/

namespace TreeSelectors

open Text

namespace Grammar

/-! ## Pseudo-classes and attributes -/

/-- A word of name characters is written as it is. -/
theorem identifier_word {c : Char} {cs : List Char} (hc : isNameStart c)
    (hcs : cs.all isNameChar) (rest : List Char) :
    Identifier (c :: cs ++ rest) (c :: cs) rest := by
  refine .plain (.char hc) ?_
  induction cs with
  | nil => exact .nil
  | cons d ds ih =>
    rw [List.all_cons, Bool.and_eq_true] at hcs
    exact .cons (.char hcs.1) (ih hcs.2)

/-- What a sequence is derived from derives its negation in parentheses. -/
theorem simple_negationText {inner : List Char} {ss : List Selector}
    (h : ∀ rest, Sequence (inner ++ rest) ss rest) (hne : ss ≠ []) (rest : List Char) :
    Simple (negationText inner ++ rest) (.negation (.conjunction ss)) rest := by
  have hid : Identifier ('n' :: ['o', 't'] ++ '(' :: (inner ++ ')' :: rest)) ['n', 'o', 't'] _ :=
    identifier_word rfl rfl _
  have hnot : lowered ['n', 'o', 't'] = "not" := rfl
  have hcs : negationText inner ++ rest
      = ':' :: ('n' :: ['o', 't'] ++ '(' :: (inner ++ ')' :: rest)) :=
    (List.append_assoc _ _ _).trans (List.append_assoc _ _ _)
  rw [hcs]
  exact .negation hid hnot (.refl _) (h _) hne (.refl _)

theorem simple_nth (f : Nth) (fromEnd sameTag : Bool) (rest : List Char) :
    Simple (':' :: nthName fromEnd sameTag ++ '(' :: f.text ++ [')'] ++ rest)
      (.nthChild f fromEnd sameTag) rest := by
  have hid : Identifier (nthName fromEnd sameTag ++ '(' :: (f.text ++ ')' :: rest))
      (nthName fromEnd sameTag) ('(' :: (f.text ++ ')' :: rest)) := by
    cases fromEnd <;> cases sameTag <;> exact identifier_word rfl rfl _
  have hc : (lowered (nthName fromEnd sameTag), fromEnd, sameTag) ∈ countingClasses := by
    cases fromEnd <;> cases sameTag <;> decide
  have hcs : ':' :: nthName fromEnd sameTag ++ '(' :: f.text ++ [')'] ++ rest
      = ':' :: (nthName fromEnd sameTag ++ '(' :: (f.text ++ ')' :: rest)) := by
    simp
  rw [hcs]
  exact .counting hid hc (.refl _) (formula_text f _) (.refl _)

theorem simple_word {name : List Char} {s : Selector}
    (hid : ∀ rest, Identifier (name ++ rest) name rest)
    (hs : (lowered name, s) ∈ plainClasses) (rest : List Char) :
    Simple (':' :: name ++ rest) s rest :=
  .plain (hid rest) hs

theorem test_text (test : AttributeTest) (rest : List Char) :
    Test (test.text ++ ']' :: rest) test rest := by
  cases test with
  | present => exact .present
  | compare how v =>
    have hv : Value (stringText v.toList ++ ']' :: rest) v.toList (']' :: rest) := by
      have hs := stringBody_flatMap v.toList (']' :: rest)
      simpa [stringText] using Value.string (.inl rfl) hs
    have ht : Test (how.text ++ (stringText v.toList ++ ']' :: rest))
        (.compare how (String.ofList v.toList)) rest := .compare (.refl _) hv (.refl _)
    rwa [String.ofList_toList, ← List.append_assoc] at ht

/-- **An attribute selector is derived from its text**, its key lowered. -/
theorem simple_attr {key : List Char} (h : key ≠ []) (test : AttributeTest) (rest : List Char) :
    Simple ('[' :: identifierText key ++ test.text ++ [']'] ++ rest)
      (.attr (lowered (key.map nulReplaced)) test) rest := by
  have hk := identifier_identifierText h (test.text ++ ']' :: rest)
  have hcs : '[' :: identifierText key ++ test.text ++ [']'] ++ rest
      = '[' :: (identifierText key ++ (test.text ++ ']' :: rest)) := by
    simp
  rw [hcs]
  exact .attr (.mk (.refl _) hk (.refl _) (test_text test rest))

/-! ## Parts and conjuncts -/

/-- A part writes a conjunct: what stands in front is kept by name, all else by its text. -/
inductive Writes : Part → Selector → Prop
  | universal : Writes .universal .universal
  | tag {name : List Char} (h : name ≠ []) :
      Writes (.tag name) (.tag (lowered (name.map nulReplaced)))
  | simple {text : List Char} {s : Selector} (hu : s ≠ .universal) (ht : s.isTag = false)
      (h : ∀ rest, Simple (text ++ rest) s rest) : Writes (.simple text) s

/-- The first tag among the parts writes the first tag among the conjuncts. -/
theorem findSome?_tag? {ps : List Part} {ss : List Selector} (h : List.Forall₂ Writes ps ss) :
    (ps.findSome? Part.tag? = none ∧ ss.find? Selector.isTag = none) ∨
      ∃ name, name ≠ [] ∧ ps.findSome? Part.tag? = some name ∧
        ss.find? Selector.isTag = some (.tag (lowered (name.map nulReplaced))) := by
  induction h with
  | nil => exact .inl ⟨rfl, rfl⟩
  | cons h _ ih =>
    cases h with
    | universal => exact ih
    | tag h => exact .inr ⟨_, h, rfl, rfl⟩
    | simple hu ht h =>
      rw [List.find?_cons_of_neg (by simp [ht])]
      exact ih

theorem universal_mem_iff {ps : List Part} {ss : List Selector} (h : List.Forall₂ Writes ps ss) :
    Part.universal ∈ ps ↔ Selector.universal ∈ ss := by
  induction h with
  | nil => simp
  | cons h _ ih =>
    cases h with
    | universal => simp
    | tag h => simp [ih]
    | simple hu ht h => simp [ih, hu.symm]

/-- The front is the same on both sides: the first tag, or a universal selector, or none. -/
theorem front_frontText {ps : List Part} {ss : List Selector} (h : List.Forall₂ Writes ps ss)
    (rest : List Char) : Front (Part.frontText ps ++ rest) (Selector.fronts ss) rest := by
  rw [Part.frontText, Selector.fronts]
  obtain ⟨hp, hs⟩ | ⟨name, hne, hp, hs⟩ := findSome?_tag? h
  · simp only [hp, hs, universal_mem_iff h]
    split
    · exact .universal
    · exact .none
  · simp only [hp, hs]
    exact .tag (identifier_identifierText hne rest)

/-- What stays behind the front, `tagged` telling whether the first tag has gone by. -/
def rearsFrom (tagged : Bool) (ss : List Selector) : List Selector :=
  ((if tagged then ss else ss.eraseP Selector.isTag).filter (· ≠ .universal)).map Selector.behind

theorem rearsFrom_universal (tagged : Bool) (ss : List Selector) :
    rearsFrom tagged (.universal :: ss) = rearsFrom tagged ss := by
  cases tagged <;> simp [rearsFrom, Selector.isTag]

/-- The first tag is left out, and every other one is negated twice. -/
theorem rearsFrom_tag (tagged : Bool) (name : String) (ss : List Selector) :
    rearsFrom tagged (.tag name :: ss) =
      (if tagged then [.behind (.tag name)] else []) ++ rearsFrom true ss := by
  cases tagged <;> rfl

theorem rearsFrom_cons {s : Selector} (hu : s ≠ .universal) (ht : s.isTag = false)
    (tagged : Bool) (ss : List Selector) :
    rearsFrom tagged (s :: ss) = s :: rearsFrom tagged ss := by
  have hb : s.behind = s := by
    cases s with
    | tag name => cases ht
    | _ => rfl
  cases tagged <;> simp [rearsFrom, ht, hu, hb]

/-- A tag behind the front is derived from its double negation. -/
theorem simple_tag {name : List Char} (h : name ≠ []) (rest : List Char) :
    Simple (negationText (negationText (identifierText name)) ++ rest)
      (Selector.behind (.tag (lowered (name.map nulReplaced)))) rest := by
  have hinner : ∀ rest, Sequence (identifierText name ++ rest)
      [.tag (lowered (name.map nulReplaced))] rest :=
    fun rest => .front (.tag (identifier_identifierText h rest))
  have houter (rest : List Char) := Sequence.snoc (.front .none)
    (simple_negationText hinner (List.cons_ne_nil _ _) rest)
  exact simple_negationText houter (List.cons_ne_nil _ _) rest

/-- **What is written behind the front is derived behind it.** -/
theorem sequence_restText {ps : List Part} {ss : List Selector} (h : List.Forall₂ Writes ps ss)
    {tagged : Bool} {start rest : List Char} {before : List Selector}
    (hs : Sequence start before (Part.restText tagged ps ++ rest)) :
    Sequence start (before ++ rearsFrom tagged ss) rest := by
  induction h generalizing tagged before with
  | nil => cases tagged <;> simpa [rearsFrom, Part.restText] using hs
  | cons h _ ih =>
    cases h with
    | universal =>
      rw [rearsFrom_universal]
      exact ih hs
    | tag h =>
      rw [rearsFrom_tag, ← List.append_assoc]
      refine ih ?_
      cases tagged with
      | false => simpa [Part.restText] using hs
      | true =>
        rw [Part.restText, if_pos rfl, List.append_assoc] at hs
        exact hs.snoc (simple_tag h _)
    | simple hu ht h =>
      rw [rearsFrom_cons hu ht, List.append_cons]
      rw [Part.restText, List.append_assoc] at hs
      exact ih (hs.snoc (h _))

/-- **Parts that write conjuncts write their arrangement.** -/
theorem sequence_sequenceText {ps : List Part} {ss : List Selector}
    (h : List.Forall₂ Writes ps ss) (rest : List Char) :
    Sequence (Part.sequenceText ps ++ rest) (Selector.arrange ss) rest := by
  rw [Part.sequenceText, List.append_assoc]
  exact sequence_restText h (.front (front_frontText h _))

/-! ## Selectors -/

/-- **The parts of a selector write the conjuncts of its normal form**, if no name is empty. -/
theorem writes_parts {s : Selector} (h : s.EveryName (· ≠ "")) :
    List.Forall₂ Writes s.parts s.normalConjuncts := by
  have hchars {name : String} (hn : name ≠ "") : name.toList ≠ [] := by simpa using hn
  have one {p : Part} {r : Selector} (hw : Writes p r) : List.Forall₂ Writes [p] [r] :=
    .cons hw .nil
  induction s with
  | universal => exact one .universal
  | tag name =>
    have hw := Writes.tag (hchars h)
    rw [← fold_eq_lowered] at hw
    exact one hw
  | id value =>
    exact one (.simple nofun rfl fun rest => .id (name_nameText (hchars h) rest))
  | className name =>
    exact one (.simple nofun rfl fun rest => .className (identifier_identifierText (hchars h) rest))
  | attr key test =>
    have hs := simple_attr (hchars h) test
    rw [← fold_eq_lowered] at hs
    exact one (.simple nofun rfl hs)
  | inter left right ihl ihr =>
    rw [Selector.parts_inter]
    exact List.rel_append (ihl h.1) (ihr h.2)
  | negation inner ih =>
    have hne := Selector.arrange_ne_nil inner.normalConjuncts_ne_nil
    exact one (.simple nofun rfl (simple_negationText (sequence_sequenceText (ih h)) hne))
  | nthChild f fromEnd sameTag => exact one (.simple nofun rfl (simple_nth f fromEnd sameTag))
  | onlyChild sameTag =>
    cases sameTag
    · exact one (.simple nofun rfl (simple_word (fun _ => identifier_word rfl rfl _) (by decide)))
    · exact one (.simple nofun rfl (simple_word (fun _ => identifier_word rfl rfl _) (by decide)))
  | empty =>
    exact one (.simple nofun rfl (simple_word (fun _ => identifier_word rfl rfl _) (by decide)))
  | root =>
    exact one (.simple nofun rfl (simple_word (fun _ => identifier_word rfl rfl _) (by decide)))

/-- **The text of a selector derives its normal form.** -/
theorem derives_chars {s : Selector} (h : s.EveryName (· ≠ "")) :
    Derives s.chars s.normal := by
  have hs := sequence_sequenceText (writes_parts h) []
  rw [List.append_nil] at hs
  exact ⟨_, hs, rfl⟩

end Grammar

end TreeSelectors
