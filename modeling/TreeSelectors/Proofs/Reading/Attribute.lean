import Mathlib
import TreeSelectors.Proofs.Reading.Lexeme
import TreeSelectors.Reader.Sequence

/-!
# Proofs/Reading/Attribute — attribute selectors are read as the grammar derives them

A key and a value end at a blank, a sign or the bracket, none of which goes on with a name; what
follows blanks is no blank itself, so the reader takes them all.  An attribute selector carries its
own end, and is read whatever follows it.
-/

namespace TreeSelectors.Grammar

open Text

/-! ## Reading on -/

/-- A reader that goes on has read the first part, and then the second. -/
theorem bind_eq_ok {α β : Type} {x : Except Fault α} {f : α → Except Fault β} {b : β} :
    (x >>= f) = .ok b ↔ ∃ a, x = .ok a ∧ f a = .ok b := by
  cases x with
  | error fault => simp [bind, Except.bind]
  | ok a => simp [bind, Except.bind]

theorem map_eq_ok {α β : Type} {x : Except Fault α} {f : α → β} {b : β} :
    x.map f = .ok b ↔ ∃ a, x = .ok a ∧ f a = b := by
  cases x with
  | error fault => simp [Except.map]
  | ok a => simp [Except.map]

/-- A character that is asked for is the next one. -/
theorem expect_eq_ok {c : Char} {what : Wanted} {cs rest : List Char} :
    Reader.expect c what cs = .ok rest ↔ cs = c :: rest := by
  cases cs with
  | nil => exact ⟨nofun, nofun⟩
  | cons d ds =>
    rw [Reader.expect]
    constructor
    · intro h
      split at h
      · next hd => rw [hd, Except.ok.inj h]
      · cases h
    · intro h
      obtain ⟨rfl, rfl⟩ := List.cons.inj h
      exact if_pos rfl

/-! ## Comparisons and tests -/

theorem comparison?_eq_some_iff {c : Char} {how : Comparison} :
    Reader.comparison? c = some how ↔ how.text = [c, '='] := by
  constructor
  · intro h
    rw [Reader.comparison?.eq_def] at h
    split at h <;> cases h <;> rfl
  · intro h
    cases how <;> cases h <;> rfl

/-- A comparison is read exactly where its text stands: no text of one begins another. -/
theorem comparison_eq_ok {cs rest : List Char} {how : Comparison} :
    Reader.comparison cs = .ok (how, rest) ↔ cs = how.text ++ rest := by
  constructor
  · intro h
    rw [Reader.comparison.eq_def] at h
    split at h
    · cases h
    split at h
    · next hc => cases h; rw [hc]; rfl
    split at h
    · cases h
    · next hh =>
      obtain ⟨es, he, h⟩ := map_eq_ok.1 h
      cases h
      rw [comparison?_eq_some_iff.1 hh, expect_eq_ok.1 he]
      rfl
  · rintro rfl
    cases how <;> rfl

/-- **What is read behind a key has a derivation.** -/
theorem attributeTest_sound {cs rest : List Char} {test : AttributeTest}
    (h : Reader.attributeTest cs = .ok (test, rest)) : Test cs test rest := by
  rw [Reader.attributeTest.eq_def] at h
  split at h
  · cases h; exact .present
  · obtain ⟨⟨how, ds⟩, hh, h⟩ := bind_eq_ok.1 h
    obtain ⟨⟨v, es⟩, hv, h⟩ := bind_eq_ok.1 h
    obtain ⟨fs, hf, h⟩ := bind_eq_ok.1 h
    cases h
    obtain ⟨value, hval, rfl⟩ := attributeValue_sound hv
    obtain rfl := comparison_eq_ok.1 hh
    exact .compare (blanks_sound ds) hval (expect_eq_ok.1 hf ▸ blanks_sound es)

/-- **An attribute selector that is read has a derivation**, its key in lower case. -/
theorem attributeSelector_sound {cs rest : List Char} {s : Selector}
    (h : Reader.attributeSelector cs = .ok (s, rest)) : AttributeSelector cs s rest := by
  obtain ⟨⟨key, ds⟩, hk, h⟩ := bind_eq_ok.1 h
  obtain ⟨⟨test, es⟩, ht, h⟩ := bind_eq_ok.1 h
  cases h
  obtain ⟨name, hn, rfl⟩ := identifier_sound hk
  rw [ofAttribute_eq]
  exact .mk (blanks_sound cs) hn (blanks_sound ds) (attributeTest_sound ht)

/-- A value begins with no blank, so the blanks in front of it are all taken. -/
theorem isBlank_of_startsIdentifier {c : Char} {cs : List Char}
    (h : Reader.startsIdentifier (c :: cs)) : isBlank c = false := by
  refine Bool.eq_false_iff.2 fun hb => ?_
  obtain rfl | rfl | hn := isBlank_iff.1 hb
  · cases h
  · cases h
  · obtain rfl | rfl | rfl := isNewline_iff.1 hn <;> cases h

theorem Identifier.not_blank {cs name rest : List Char} (h : Identifier cs name rest) :
    ∀ c ∈ cs.head?, isBlank c = false := by
  intro c hc
  obtain ⟨ds, rfl⟩ := List.head?_eq_some_iff.1 hc
  exact isBlank_of_startsIdentifier h.startsIdentifier

theorem Value.not_blank {cs value rest : List Char} (h : Value cs value rest) :
    ∀ c ∈ cs.head?, isBlank c = false := by
  cases h with
  | string hq _ =>
    rintro _ ⟨⟩
    obtain rfl | rfl := hq <;> rfl
  | identifier h => exact h.not_blank

/-- A test begins with its sign or the bracket, neither of which goes on with a name or a blank. -/
theorem Test.head {cs rest : List Char} {test : AttributeTest} (h : Test cs test rest) :
    ∀ c ∈ cs.head?, isNameChar c = false ∧ c ≠ '\\' ∧ isBlank c = false := by
  cases h with
  | present => rintro _ ⟨⟩; decide
  | @compare how => cases how <;> rintro _ ⟨⟩ <;> decide

/-- **A derived test is read**, whatever follows its bracket. -/
theorem Test.complete {cs rest : List Char} {test : AttributeTest} (h : Test cs test rest) :
    Reader.attributeTest cs = .ok (test, rest) := by
  cases h with
  | present => rfl
  | @compare how cs ds es value rest hb hv hc =>
    have hr : EndsName es := hc.endsName (.cons rfl (by decide))
    have hd : Reader.blanks cs = ds := blanks_complete hb hv.not_blank
    have he : Reader.blanks es = ']' :: rest := blanks_complete hc (by rintro _ ⟨⟩; rfl)
    have hval : Reader.attributeValue (Reader.blanks cs) = .ok (String.ofList value, es) := by
      rw [hd]
      exact hv.complete hr
    have hend : Reader.expect ']' .closingBracket (Reader.blanks es) = .ok rest :=
      expect_eq_ok.2 he
    rw [Reader.attributeTest.eq_def]
    split
    · next h' => exact absurd h' (by cases how <;> simp [Comparison.text])
    · exact bind_eq_ok.2 ⟨(how, cs), comparison_eq_ok.2 rfl,
        bind_eq_ok.2 ⟨_, hval, bind_eq_ok.2 ⟨rest, hend, rfl⟩⟩⟩

/-- **A derived attribute selector is read**, whatever follows it. -/
theorem AttributeSelector.complete {cs rest : List Char} {s : Selector}
    (h : AttributeSelector cs s rest) : Reader.attributeSelector cs = .ok (s, rest) := by
  cases h with
  | @mk ds es fs key _ test hb hk hb' ht =>
    have hr := hb'.endsName fun c hc => ⟨(ht.head c hc).1, (ht.head c hc).2.1⟩
    have hd : Reader.blanks cs = ds := blanks_complete hb hk.not_blank
    have hf : Reader.blanks es = fs := blanks_complete hb' fun c hc => (ht.head c hc).2.2
    have htest : Reader.attributeTest (Reader.blanks es) = .ok (test, rest) := by
      rw [hf]
      exact ht.complete
    rw [Reader.attributeSelector, hd, ← ofAttribute_eq]
    exact bind_eq_ok.2 ⟨_, hk.complete hr, bind_eq_ok.2 ⟨(test, rest), htest, rfl⟩⟩

end TreeSelectors.Grammar
