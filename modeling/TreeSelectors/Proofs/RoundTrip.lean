import Mathlib
import TreeSelectors.Proofs.Reading.Sequence
import TreeSelectors.Proofs.Writing.Sequence

/-!
# Proofs/RoundTrip — the text of a selector compiles to its normal form

Writing derives the normal form and reading follows derivations, so the two meet in the grammar.
What is compiled is canonical; it therefore comes back as it was unless a name holds U+0000, which a
backslash in front of the raw character lets in and no text that is written lets through.
-/

namespace TreeSelectors

open Text

namespace Grammar

/-! ## What is derived is canonical -/

theorem Identifier.ne_nil {cs name rest : List Char} (h : Identifier cs name rest) :
    name ≠ [] := by
  cases h <;> exact List.cons_ne_nil _ _

theorem ofList_ne_empty {name : List Char} (h : name ≠ []) : String.ofList name ≠ "" := by
  intro he
  exact h (by simpa using congrArg String.toList he)

theorem lowered_ne_empty {name : List Char} (h : name ≠ []) : lowered name ≠ "" :=
  ofList_ne_empty (by simpa using h)

theorem isFolded_lowered (name : List Char) : isFolded (lowered name) :=
  fold_eq_lowered name ▸ isFolded_fold _

/-- A front is one canonical selector or none. -/
theorem Front.canonical {cs rest : List Char} {ss : List Selector} (h : Front cs ss rest) :
    (∀ s ∈ ss.head?, s.Canonical) ∧ ss.tail = [] := by
  cases h with
  | none => exact ⟨nofun, rfl⟩
  | universal =>
    refine ⟨?_, rfl⟩
    rintro _ ⟨⟩
    exact rfl
  | tag h =>
    refine ⟨?_, rfl⟩
    rintro _ ⟨⟩
    exact ⟨rfl, lowered_ne_empty h.ne_nil, isFolded_lowered _⟩

theorem canonicalAt_of_mem_plainClasses {name : String} {s : Selector}
    (h : (name, s) ∈ plainClasses) : s.CanonicalAt false := by
  fin_cases h <;> exact trivial

/-- **A derived row is canonical**, at its front and behind it. -/
theorem Sequence.canonical {cs rest : List Char} {ss : List Selector} (h : Sequence cs ss rest) :
    (∀ s ∈ ss.head?, s.Canonical) ∧ ∀ s ∈ ss.tail, s.CanonicalAt false := by
  induction h using @Sequence.rec (fun _ s _ _ => s.CanonicalAt false) with
  | id h => exact ofList_ne_empty h.2
  | className h => exact ofList_ne_empty h.ne_nil
  | attr h =>
    cases h with
    | mk _ hk _ _ => exact ⟨lowered_ne_empty hk.ne_nil, isFolded_lowered _⟩
  | plain _ hs => exact canonicalAt_of_mem_plainClasses hs
  | counting => exact trivial
  | negation _ _ _ _ _ _ ih => exact Selector.canonical_conjunction ih.1 ih.2
  | front h =>
    obtain ⟨hh, ht⟩ := h.canonical
    exact ⟨hh, by simp [ht]⟩
  | @snoc _ _ _ ss s _ _ ihs iht =>
    cases ss with
    | nil =>
      refine ⟨?_, by simp⟩
      rintro _ ⟨⟩
      exact iht.canonical
    | cons r rs =>
      refine ⟨ihs.1, fun t ht => ?_⟩
      obtain ht | ht := List.mem_append.1 ht
      · exact ihs.2 t ht
      · exact List.mem_singleton.1 ht ▸ iht

/-- **What is derived is canonical.** -/
theorem Derives.canonical {cs : List Char} {s : Selector} (h : Derives cs s) : s.Canonical := by
  obtain ⟨ss, hs, rfl⟩ := h
  exact Selector.canonical_conjunction hs.canonical.1 hs.canonical.2

end Grammar

namespace Selector

/-! ## The round trip -/

/-- No name of a canonical selector is empty, so it can be written. -/
theorem CanonicalAt.everyName_ne_empty {front : Bool} {s : Selector} (h : s.CanonicalAt front) :
    s.EveryName (· ≠ "") := by
  induction s generalizing front with
  | universal => exact trivial
  | tag name => exact h.2.1
  | attr key test => exact h.1
  | inter left right ihl ihr => exact ⟨ihl h.2.1, ihr h.2.2⟩
  | negation inner ih => exact ih h
  | _ => exact h

theorem selector_chars {s : Selector} (h : s.EveryName (· ≠ "")) :
    Reader.selector s.chars = .ok s.normal :=
  Grammar.selector_complete (Grammar.derives_chars h)

/-- **The text of a selector compiles to its normal form**, if no name is empty. -/
theorem compile_text {s : Selector} (h : s.EveryName (· ≠ "")) :
    compile s.text = .ok s.normal := by
  rw [compile_eq_ok_iff_selector, text, String.toList_ofList]
  exact selector_chars h

/-- …the first tag in front, the second behind it, and `*` gone. -/
theorem compile_text_two_tags :
    (inter (id "x") (inter (tag "A") (inter universal (tag "b")))).EveryName (· ≠ "") ∧
      compile (inter (id "x") (inter (tag "A") (inter universal (tag "b")))).text
        = .ok (inter (inter (tag "a") (id "x")) (negation (negation (tag "b")))) := by
  have hn : (inter (id "x") (inter (tag "A") (inter universal (tag "b")))).EveryName (· ≠ "") := by
    simp [EveryName]
  exact ⟨hn, compile_text hn⟩

/-- A normal form is derived from a text, so it is canonical… -/
theorem canonical_normal {s : Selector} (h : s.EveryName (· ≠ "")) : s.normal.Canonical :=
  (Grammar.derives_chars h).canonical

/-- …and so it is its own normal form. -/
theorem normal_normal {s : Selector} (h : s.EveryName (· ≠ "")) : s.normal.normal = s.normal :=
  (canonical_normal h).normal_eq_self_iff.2 s.everyName_normal

/-- **What is compiled comes back from its text exactly if no name holds U+0000.** -/
theorem compile_text_eq_self_iff {text : String} {s : Selector} (h : compile text = .ok s) :
    compile s.text = .ok s ↔ s.EveryName fun name => '\x00' ∉ name.toList := by
  have hs : s.Canonical :=
    (Grammar.selector_sound (compile_eq_ok_iff_selector.1 h)).canonical
  rw [compile_eq_ok_iff_selector, Selector.text, String.toList_ofList,
    selector_chars hs.everyName_ne_empty, Except.ok.injEq]
  exact hs.normal_eq_self_iff

/-- …as a name does in which the letter is escaped by its code point. -/
theorem compile_text_eq_self_escaped :
    compile "\\41 .b" = .ok (inter (tag "a") (className "b")) ∧
      (compile (inter (tag "a") (className "b")).text = .ok (inter (tag "a") (className "b")) ↔
        (inter (tag "a") (className "b")).EveryName fun name => '\x00' ∉ name.toList) := by
  have hs : compile "\\41 .b" = .ok (inter (tag "a") (className "b")) := by decide +kernel
  exact ⟨hs, compile_text_eq_self_iff hs⟩

/-- U+0000 behind a backslash does not come back: its text says U+FFFD. -/
theorem not_forall_compile_text_eq_self :
    ¬∀ (text : String) (s : Selector), compile text = .ok s → compile s.text = .ok s := by
  intro h
  have hs : compile "\\\x00" = .ok (tag "\x00") := by decide +kernel
  have hback : compile (tag "\x00").text = .ok (tag "\ufffd") := by decide +kernel
  rw [h _ _ hs] at hback
  exact absurd hback (by decide)

end Selector

end TreeSelectors
