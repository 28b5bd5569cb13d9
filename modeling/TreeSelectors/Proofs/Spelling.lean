import Mathlib
import TreeSelectors.Proofs.RoundTrip

/-!
# Proofs/Spelling — what texts compile to is exactly what is canonical

A reader builds canonical selectors only (`Derives.canonical`).  For the converse the printer is of
no use, since it replaces U+0000 in names.  A name is *spelled* instead: every character of it is
escaped, by its code point where an escape can name that.  What is spelled says by itself where it
ends, so canonical selectors are put together like their parts, whatever follows.
-/

namespace TreeSelectors

open Text

namespace Text

/-- An escape of `c`; a backslash in front of U+0000 stands for the character itself. -/
def spellChar (c : Char) : List Char :=
  if c = '\x00' then ['\\', c] else codePointEscape c

/-- A name with every character escaped. -/
def spell (cs : List Char) : List Char :=
  cs.flatMap spellChar

end Text

namespace Grammar

/-! ## Names -/

/-- **Every character has an escape**, U+0000 included. -/
theorem escape_spellChar (c : Char) (rest : List Char) : Escape (spellChar c ++ rest) c rest := by
  rw [spellChar]
  split
  · next hc => exact hc ▸ .literal rfl rfl
  · next hc => exact escape_codePointEscape hc rest

theorem spell_cons (c : Char) (cs rest : List Char) :
    spell (c :: cs) ++ rest = spellChar c ++ (spell cs ++ rest) := by
  rw [spell, List.flatMap_cons, List.append_assoc]
  rfl

theorem nameItems_spell (cs rest : List Char) : NameItems (spell cs ++ rest) cs rest := by
  induction cs with
  | nil => exact .nil
  | cons c cs ih => exact spell_cons c cs rest ▸ .cons (.escape (escape_spellChar c _)) ih

/-- A spelled name is an identifier whatever it begins with, since an escape can lead. -/
theorem identifier_spell {cs : List Char} (h : cs ≠ []) (rest : List Char) :
    Identifier (spell cs ++ rest) cs rest := by
  obtain ⟨c, cs, rfl⟩ := List.exists_cons_of_ne_nil h
  exact spell_cons c cs rest ▸ .plain (.escape (escape_spellChar c _)) (nameItems_spell cs rest)

/-! ## Simple selectors -/

/-- Without a capital there is nothing to lower. -/
theorem lowered_toList {name : String} (h : isFolded name) : lowered name.toList = name := by
  rw [← fold_eq_lowered, String.ofList_toList, fold_eq_self_iff.2 h]

variable {s : Selector}

/-- Some text derives `s` as a simple selector, whatever follows. -/
def SpellsSimple (s : Selector) : Prop :=
  ∃ cs, ∀ rest, Simple (cs ++ rest) s rest

/-- Some text derives a row of conjuncts that says what `s` says, whatever follows. -/
def SpellsSequence (s : Selector) : Prop :=
  ∃ cs ss, ss ≠ [] ∧ Selector.conjunction ss = s ∧ ∀ rest, Sequence (cs ++ rest) ss rest

theorem SpellsSimple.sequence (h : SpellsSimple s) : SpellsSequence s := by
  obtain ⟨cs, hcs⟩ := h
  exact ⟨cs, [s], List.cons_ne_nil s [], rfl, fun rest => .snoc (.front .none) (hcs rest)⟩

/-- The negation of what is spelled is spelled in parentheses. -/
theorem SpellsSimple.negation (h : SpellsSequence s) : SpellsSimple (.negation s) := by
  obtain ⟨cs, ss, hne, rfl, hcs⟩ := h
  exact ⟨negationText cs, simple_negationText hcs hne⟩

/-- Two texts, one after the other, spell a conjunction. -/
theorem SpellsSequence.inter {left right : Selector} (hl : SpellsSequence left)
    (hr : SpellsSimple right) : SpellsSequence (.inter left right) := by
  obtain ⟨cs, ss, hne, rfl, hcs⟩ := hl
  obtain ⟨ds, hds⟩ := hr
  refine ⟨cs ++ ds, ss ++ [right], List.append_ne_nil_of_left_ne_nil hne _, ?_, fun rest => ?_⟩
  · exact Selector.conjunction_snoc hne right
  · rw [List.append_assoc]
    exact .snoc (hcs _) (hds rest)

/-- An attribute selector is spelled with its key, which must be in lower case to come back. -/
theorem spellsSimple_attr {key : String} (h : key ≠ "" ∧ isFolded key) (test : AttributeTest) :
    SpellsSimple (.attr key test) := by
  refine ⟨'[' :: (spell key.toList ++ (test.text ++ [']'])), fun rest => ?_⟩
  have hne : key.toList ≠ [] := String.toList_eq_nil_iff.not.2 h.1
  have hk := identifier_spell hne (test.text ++ ']' :: rest)
  have ht : Simple _ (.attr (lowered key.toList) test) rest :=
    .attr (.mk (.refl _) hk (.refl _) (test_text test rest))
  rw [lowered_toList h.2] at ht
  simpa using ht

/-- A pseudo-class may be spelled in escapes, like any name. -/
theorem spellsSimple_plain (name : String) (h : (name, s) ∈ plainClasses) : SpellsSimple s := by
  have hname : ∀ x ∈ plainClasses, x.1.toList ≠ [] ∧ isFolded x.1 := by decide +kernel
  obtain ⟨hne, hfolded⟩ := hname _ h
  refine ⟨':' :: spell name.toList, fun rest => .plain (identifier_spell hne rest) ?_⟩
  rwa [lowered_toList hfolded]

/-- **What is canonical is spelled**, behind a front and at one.  The induction is on the selector:
a negation needs the front of its inside, a conjunction the front of its left part. -/
theorem spells (s : Selector) :
    (s.CanonicalAt false → SpellsSimple s) ∧ (s.Canonical → SpellsSequence s) := by
  have simple {s : Selector} (h : s.Canonical → SpellsSimple s) :
      (s.CanonicalAt false → SpellsSimple s) ∧ (s.Canonical → SpellsSequence s) :=
    ⟨fun hs => h hs.canonical, fun hs => (h hs).sequence⟩
  induction s with
  | universal =>
    refine ⟨nofun, fun _ => ⟨['*'], [.universal], List.cons_ne_nil _ _, rfl, fun rest => ?_⟩⟩
    exact .front .universal
  | tag name =>
    refine ⟨fun h => (nomatch h.1), fun h => ?_⟩
    refine ⟨spell name.toList, [.tag (lowered name.toList)], List.cons_ne_nil _ _,
      congrArg Selector.tag (lowered_toList h.2.2), fun rest => ?_⟩
    exact .front (.tag (identifier_spell (String.toList_eq_nil_iff.not.2 h.2.1) rest))
  | id value =>
    refine simple fun h => ⟨'#' :: spell value.toList, fun rest => ?_⟩
    have hne : value.toList ≠ [] := String.toList_eq_nil_iff.not.2 h
    have hid : Simple ('#' :: (spell value.toList ++ rest)) _ rest :=
      .id ⟨nameItems_spell value.toList rest, hne⟩
    rwa [String.ofList_toList] at hid
  | className name =>
    refine simple fun h => ⟨'.' :: spell name.toList, fun rest => ?_⟩
    have hne : name.toList ≠ [] := String.toList_eq_nil_iff.not.2 h
    have hc : Simple ('.' :: (spell name.toList ++ rest)) _ rest :=
      .className (identifier_spell hne rest)
    rwa [String.ofList_toList] at hc
  | attr key test => exact simple fun h => spellsSimple_attr h test
  | inter left right ihl ihr =>
    exact ⟨fun h => (nomatch h.1), fun h => (ihl.2 h.2.1).inter (ihr.1 h.2.2)⟩
  | negation inner ih => exact simple fun h => .negation (ih.2 h)
  | nthChild f fromEnd sameTag => exact simple fun _ => ⟨_, simple_nth f fromEnd sameTag⟩
  | onlyChild sameTag =>
    refine simple fun _ => ?_
    cases sameTag
    · exact spellsSimple_plain "only-child" (by decide)
    · exact spellsSimple_plain "only-of-type" (by decide)
  | empty => exact simple fun _ => spellsSimple_plain "empty" (by decide)
  | root => exact simple fun _ => spellsSimple_plain "root" (by decide)

end Grammar

namespace Selector

/-- **What texts compile to is exactly what is canonical.** -/
theorem exists_compile_eq_ok_iff {s : Selector} :
    (∃ text, compile text = .ok s) ↔ s.Canonical := by
  constructor
  · rintro ⟨text, h⟩
    exact (derives_of_compile h).canonical
  · intro h
    obtain ⟨cs, ss, -, hs, hcs⟩ := (Grammar.spells s).2 h
    refine ⟨String.ofList cs, compile_of_derives ⟨ss, ?_, hs⟩⟩
    rw [String.toList_ofList, ← cs.append_nil]
    exact hcs []

end Selector

end TreeSelectors
