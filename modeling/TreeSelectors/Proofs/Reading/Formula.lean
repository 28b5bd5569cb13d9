import Mathlib
import TreeSelectors.Proofs.Reading.Lexeme
import TreeSelectors.Reader.Formula

/-!
# Proofs/Reading/Formula — `an+b` is read as the grammar derives it

The reader takes the blanks behind a bare counter along, since a second sign could follow them; the
grammar leaves them to the production above.  So a formula is read *up to blanks*, and completeness
is stated where a closing parenthesis follows.
-/

namespace TreeSelectors.Grammar

open Text

/-! ## Integers -/

/-- There is a word exactly for its own value. -/
theorem word?_eq_some_iff {x : ℤ} {i : Int32} : Reader.word? x = some i ↔ i.toInt = x := by
  rw [Reader.word?]
  constructor
  · intro h
    split at h
    · next hx =>
      obtain rfl := Option.some.inj h
      exact Int32.toInt_ofIntLE
    · cases h
  · rintro rfl
    rw [dif_pos ⟨i.minValue_le_toInt, i.toInt_le⟩, Int32.ofIntLE_toInt]

/-- The value of digits behind their sign is the number that they name. -/
theorem signedValue_eq_number (negative : Bool) {ds : List Char} (hd : ∀ d ∈ ds, d.isDigit) :
    Reader.signedValue negative ds = if negative then -(number 10 ds : ℤ) else number 10 ds := by
  rw [Reader.signedValue, decimalValue_eq_number hd]

/-- Digits that are read are an integer, and the longest run. -/
theorem integer_sound {negative : Bool} {cs rest : List Char} {i : Int32}
    (hs : Reader.startsDigits cs) (h : Reader.integer negative cs = .ok (i, rest)) :
    Integer negative cs i rest := by
  rw [Reader.integer] at h
  split at h
  · next hi =>
    cases h
    have hd : ∀ d ∈ cs.takeWhile Char.isDigit, d.isDigit := fun _ => List.mem_takeWhile_imp
    have hne : cs.takeWhile Char.isDigit ≠ [] := by
      cases cs with
      | nil => cases hs
      | cons c cs => rw [List.takeWhile_cons_of_pos (by simpa [Reader.startsDigits] using hs)]; simp
    have hm : Integer negative (cs.takeWhile Char.isDigit ++ cs.dropWhile Char.isDigit) _ _ :=
      .mk hne hd ((word?_eq_some_iff.1 hi).trans (signedValue_eq_number negative hd))
    rwa [List.takeWhile_append_dropWhile] at hm
  · cases h

/-- A derived integer is read, if no digit goes on behind it. -/
theorem Integer.complete {negative : Bool} {cs rest : List Char} {i : Int32}
    (h : Integer negative cs i rest) (hr : ∀ c ∈ rest.head?, c.isDigit = false) :
    Reader.integer negative cs = .ok (i, rest) := by
  obtain ⟨-, hd, hv⟩ := h
  rw [Reader.integer, takeWhile_run hd hr, dropWhile_run hd hr, signedValue_eq_number negative hd,
    word?_eq_some_iff.2 hv]

theorem Integer.startsDigits {negative : Bool} {cs rest : List Char} {i : Int32}
    (h : Integer negative cs i rest) : Reader.startsDigits cs := by
  obtain ⟨hne, hd, -⟩ := h
  obtain ⟨d, ds, rfl⟩ := List.exists_cons_of_ne_nil hne
  simp [Reader.startsDigits, hd d List.mem_cons_self]

theorem startsDigits_iff {cs : List Char} :
    Reader.startsDigits cs ↔ ∃ d ds, cs = d :: ds ∧ d.isDigit := by
  cases cs <;> simp [Reader.startsDigits]

/-! ## Signs and counters -/

theorem sign_sound {c : Char} (h : c = '+' ∨ c = '-') (cs : List Char) :
    Sign (c :: cs) (c = '-') cs := by
  obtain rfl | rfl := h
  · exact .plus
  · exact .minus

theorem isCounter_iff {c : Char} : Reader.isCounter c ↔ c = 'n' ∨ c = 'N' := by
  simp [Reader.isCounter]

theorem counter_sound {c : Char} (h : Reader.isCounter c) (cs : List Char) :
    Counter (c :: cs) cs := by
  obtain rfl | rfl := isCounter_iff.1 h
  · exact .lower
  · exact .upper

/-- A counter is no digit, and is seen as a counter. -/
theorem Counter.cons {cs rest : List Char} (h : Counter cs rest) :
    ∃ c, cs = c :: rest ∧ Reader.isCounter c ∧ c.isDigit = false := by
  cases h with
  | lower => exact ⟨'n', rfl, rfl, rfl⟩
  | upper => exact ⟨'N', rfl, rfl, rfl⟩

/-! ## What follows the counter -/

/-- **What is read behind the counter has a derivation**, but for the blanks that the reader has
looked beyond. -/
theorem offset_sound {start cs rest : List Char} {a : Int32} {f : Nth}
    (h : Reader.offset start a cs = .ok (f, rest)) :
    ∃ b mid, Offset cs b mid ∧ Blanks mid rest ∧ f = ⟨a, b⟩ := by
  have hb := blanks_sound cs
  rw [Reader.offset] at h
  split at h
  · next he =>
    cases h
    exact ⟨0, cs, .none, he ▸ hb, rfl⟩
  · next c ds he =>
    rw [he] at hb
    split at h
    · next hc =>
      split at h
      · next hd =>
        obtain ⟨b, hi, rfl⟩ := Reader.mapRead_eq_ok.1 h
        exact ⟨b, rest, .some hb (sign_sound hc ds) (blanks_sound ds) (integer_sound hd hi),
          .refl rest, rfl⟩
      · cases h
    · cases h
      exact ⟨0, cs, .none, hb, rfl⟩

/-- What closes a formula: blanks, and the parenthesis. -/
theorem blanks_of_closing {cs tail : List Char} (h : Blanks cs (')' :: tail)) :
    Reader.blanks cs = ')' :: tail :=
  blanks_complete h (by rintro _ ⟨⟩; rfl)

theorem endsName_of_closing {cs tail : List Char} (h : Blanks cs (')' :: tail)) : EndsName cs :=
  h.endsName (.cons rfl (by decide))

/-- Where a name ends no integer goes on, and no counter stands. -/
theorem EndsName.not_isDigit {cs : List Char} (h : EndsName cs) :
    ∀ c ∈ cs.head?, c.isDigit = false :=
  fun c hc => Bool.eq_false_iff.2 (mt isNameChar_of_isDigit (Bool.eq_false_iff.1 (h c hc).1))

theorem EndsName.not_isCounter {cs : List Char} (h : EndsName cs) :
    ∀ c ∈ cs.head?, Reader.isCounter c = false := by
  refine fun c hc => Bool.eq_false_iff.2 fun hcount => ?_
  have hn := (h c hc).1
  obtain rfl | rfl := isCounter_iff.1 hcount <;> cases hn

/-- A sign is one character, and a minus exactly if it says so. -/
theorem Sign.cons {cs rest : List Char} {negative : Bool} (h : Sign cs negative rest) :
    ∃ c, cs = c :: rest ∧ (c = '+' ∨ c = '-') ∧ negative = decide (c = '-') := by
  cases h with
  | plus => exact ⟨'+', rfl, .inl rfl, rfl⟩
  | minus => exact ⟨'-', rfl, .inr rfl, rfl⟩

/-- Behind a counter, a sign and digits are an integer. -/
theorem offset_signed {cs ds es fs : List Char} {negative : Bool} (hb : Blanks cs ds)
    (hs : Sign ds negative es) (hb' : Blanks es fs) (hd : Reader.startsDigits fs)
    (start : List Char) (a : Int32) : Reader.offset start a cs =
      Reader.mapRead (fun b => ⟨a, b⟩) (Reader.integer negative fs) := by
  obtain ⟨c, rfl, hc, rfl⟩ := hs.cons
  obtain ⟨d, gs, rfl, hdigit⟩ := startsDigits_iff.1 hd
  have hbc : Reader.blanks cs = c :: es := blanks_complete hb (by
    rintro _ ⟨⟩
    obtain rfl | rfl := hc <;> rfl)
  have hbd : Reader.blanks es = d :: gs := blanks_complete hb' (by
    rintro _ ⟨⟩
    exact isBlank_of_isNameChar (isNameChar_of_isDigit hdigit))
  simp only [Reader.offset, hbc, hc, if_true, hbd, hd]

/-- **A derived offset is read**, and the parenthesis comes next, blanks aside. -/
theorem Offset.complete {cs rest tail : List Char} {b : Int32} (h : Offset cs b rest)
    (hr : Blanks rest (')' :: tail)) (start : List Char) (a : Int32) :
    ∃ mid, Reader.offset start a cs = .ok (⟨a, b⟩, mid) ∧ Reader.blanks mid = ')' :: tail := by
  cases h with
  | none =>
    refine ⟨')' :: tail, ?_, rfl⟩
    simp [Reader.offset, blanks_of_closing hr]
  | some hb hs hb' hi =>
    have hn := (endsName_of_closing hr).not_isDigit
    refine ⟨rest, ?_, blanks_of_closing hr⟩
    rw [offset_signed hb hs hb' hi.startsDigits, hi.complete hn, Reader.mapRead_ok]

/-! ## What follows the first sign -/

/-- **What is read behind the first sign has a derivation**, as an integer or as a step with its
offset. -/
theorem step_sound {start cs rest : List Char} {negative : Bool} {f : Nth}
    (h : Reader.step start negative cs = .ok (f, rest)) :
    (∃ b, Integer negative cs b rest ∧ f = ⟨0, b⟩) ∨
      ∃ a b ds mid, Step negative cs a ds ∧ Offset ds b mid ∧ Blanks mid rest ∧ f = ⟨a, b⟩ := by
  rw [Reader.step.eq_def] at h
  split at h
  · cases h
  · next c ds =>
    split at h
    · next hc =>
      have hs : Reader.startsDigits (c :: ds) := startsDigits_iff.2 ⟨c, ds, rfl, hc⟩
      split at h
      · cases h
      · next b hi =>
        cases h
        exact .inl ⟨b, integer_sound hs hi, rfl⟩
      · next a d es hi =>
        split at h
        · next hd =>
          obtain ⟨b, mid, ho, hm, rfl⟩ := offset_sound h
          exact .inr ⟨a, b, es, mid, .coefficient (integer_sound hs hi) (counter_sound hd es), ho,
            hm, rfl⟩
        · cases h
          exact .inl ⟨a, integer_sound hs hi, rfl⟩
    · split at h
      · next hc =>
        obtain ⟨b, mid, ho, hm, rfl⟩ := offset_sound h
        exact .inr ⟨_, b, ds, mid, .bare (counter_sound hc ds), ho, hm, rfl⟩
      · cases h

/-- A coefficient and its counter are read, whatever follows. -/
theorem Step.complete {negative : Bool} {cs rest : List Char} {a : Int32}
    (h : Step negative cs a rest) (start : List Char) :
    Reader.step start negative cs = Reader.offset start a rest := by
  cases h with
  | bare h =>
    obtain ⟨c, rfl, hc, hd⟩ := h.cons
    simp only [Reader.step, hd, hc, Bool.false_eq_true, if_false, if_true]
  | coefficient hi h =>
    obtain ⟨c, rfl, hc, hd⟩ := h.cons
    obtain ⟨d, es, rfl, hs⟩ := startsDigits_iff.1 hi.startsDigits
    have hr := hi.complete (by rintro _ ⟨⟩; exact hd)
    simp only [Reader.step, hs, hr, hc, if_true]

/-- An integer alone is read as the offset: neither a digit nor a counter follows it. -/
theorem Integer.step_complete {negative : Bool} {cs rest tail : List Char} {b : Int32}
    (h : Integer negative cs b rest) (hr : Blanks rest (')' :: tail)) (start : List Char) :
    Reader.step start negative cs = .ok (⟨0, b⟩, rest) := by
  obtain ⟨d, es, rfl, hs⟩ := startsDigits_iff.1 h.startsDigits
  have hi := h.complete (endsName_of_closing hr).not_isDigit
  rw [Reader.step.eq_def]
  simp only [hs, if_true, hi]
  cases rest with
  | nil => rfl
  | cons c rest =>
    have hc := (endsName_of_closing hr).not_isCounter c rfl
    simp only [hc, Bool.false_eq_true, if_false]

/-! ## Formulas -/

/-- What may follow a first sign: a digit or the counter. -/
def StartsStep (cs : List Char) : Prop :=
  ∃ c ds, cs = c :: ds ∧ (c.isDigit ∨ Reader.isCounter c)

theorem Step.startsStep {negative : Bool} {cs rest : List Char} {a : Int32}
    (h : Step negative cs a rest) : StartsStep cs := by
  cases h with
  | bare h =>
    obtain ⟨c, rfl, hc, -⟩ := h.cons
    exact ⟨c, _, rfl, .inr hc⟩
  | coefficient hi _ =>
    obtain ⟨d, ds, rfl, hd⟩ := startsDigits_iff.1 hi.startsDigits
    exact ⟨d, ds, rfl, .inl hd⟩

theorem Integer.startsStep {negative : Bool} {cs rest : List Char} {b : Int32}
    (h : Integer negative cs b rest) : StartsStep cs := by
  obtain ⟨d, ds, rfl, hd⟩ := startsDigits_iff.1 h.startsDigits
  exact ⟨d, ds, rfl, .inl hd⟩

/-- **The first sign only decides how the rest is read.** -/
theorem OptionalSign.complete {cs ds : List Char} {negative : Bool}
    (h : OptionalSign cs negative ds) (hs : StartsStep ds) :
    Reader.formula cs = Reader.step cs negative ds := by
  cases h with
  | some h =>
    obtain ⟨c, rfl, hc, rfl⟩ := h.cons
    obtain rfl | rfl := hc <;> simp [Reader.formula]
  | none =>
    obtain ⟨c, es, rfl, hc⟩ := hs
    have hm : c ≠ '-' := by rintro rfl; exact absurd hc (by decide)
    have hp : c ≠ '+' := by rintro rfl; exact absurd hc (by decide)
    rcases hc with hc | hc
    · simp only [Reader.formula, hm, hp, hc, if_false, if_true]
    · have hd : c.isDigit = false := by obtain rfl | rfl := isCounter_iff.1 hc <;> rfl
      simp only [Reader.formula, Reader.step, hm, hp, hd, hc, Bool.false_eq_true, if_false, if_true]

/-- A letter that lowers to `o` or `e` begins a word and nothing else. -/
theorem formula_word {c x : Char} (hx : x = 'o' ∨ x = 'e') (h : c.toLower = x) (cs : List Char) :
    Reader.formula (c :: cs) = Reader.keyword (c :: cs) ∧ isNameChar c := by
  have ha : c.isAlpha := by
    rw [← Char.isAlpha_toLower_eq_isAlpha, h]
    obtain rfl | rfl := hx <;> rfl
  have hm : c ≠ '-' := ne_of_class ha rfl
  have hp : c ≠ '+' := ne_of_class ha rfl
  have hd : c.isDigit = false := isDigit_of_isAlpha ha
  have hn : Reader.isCounter c = false := by
    refine Bool.eq_false_iff.2 fun hn => ?_
    obtain rfl | rfl := isCounter_iff.1 hn <;> obtain rfl | rfl := hx <;> exact absurd h (by decide)
  refine ⟨?_, by simp [isNameChar, isNameStart, ha]⟩
  simp only [Reader.formula, hm, hp, hd, hn, h, hx, Bool.false_eq_true, if_false, if_true]

/-- There are two words, in any letter case. -/
theorem keyword?_eq_some_iff {word : List Char} {f : Nth} :
    Reader.keyword? (String.ofList word) = some f ↔
      (word.map Char.toLower = ['o', 'd', 'd'] ∧ f = ⟨2, 1⟩) ∨
        (word.map Char.toLower = ['e', 'v', 'e', 'n'] ∧ f = ⟨2, 0⟩) := by
  have ho : fold (String.ofList word) = "odd" ↔ word.map Char.toLower = ['o', 'd', 'd'] := by
    rw [← String.toList_inj, toList_fold, String.toList_ofList]; rfl
  have he : fold (String.ofList word) = "even" ↔ word.map Char.toLower = ['e', 'v', 'e', 'n'] := by
    rw [← String.toList_inj, toList_fold, String.toList_ofList]; rfl
  rw [Reader.keyword?, ← ho, ← he]
  split
  · next h => simp [h, eq_comm]
  · next h => simp [h, eq_comm]
  · next h₁ h₂ =>
    exact ⟨nofun, fun h => h.elim (fun h => (h₁ h.1).elim) fun h => (h₂ h.1).elim⟩

/-- **A word that is read has a derivation**; its first letter stands for itself. -/
theorem keyword_sound {c : Char} {cs rest : List Char} {f : Nth} (hc : isNameChar c)
    (h : Reader.keyword (c :: cs) = .ok (f, rest)) : Formula (c :: cs) f rest := by
  rw [Reader.keyword] at h
  split at h
  · cases h
  · next hn =>
    obtain ⟨word, hw, rfl⟩ := name_char_sound hc hn
    split at h
    · next hk =>
      cases h
      obtain ⟨hl, rfl⟩ | ⟨hl, rfl⟩ := keyword?_eq_some_iff.1 hk
      · exact .odd hw hl
      · exact .even hw hl
    · cases h

/-- **A formula that is read has a derivation**, up to blanks behind a bare counter. -/
theorem formula_sound {cs rest : List Char} {f : Nth} (h : Reader.formula cs = .ok (f, rest)) :
    ∃ mid, Formula cs f mid ∧ Blanks mid rest := by
  have of_step {ds es : List Char} {negative : Bool} (hs : OptionalSign ds negative es)
      (h : Reader.step ds negative es = .ok (f, rest)) :
      ∃ mid, Formula ds f mid ∧ Blanks mid rest := by
    obtain ⟨b, hi, rfl⟩ | ⟨a, b, fs, mid, ha, hb, hm, rfl⟩ := step_sound h
    · exact ⟨rest, .constant hs hi, .refl rest⟩
    · exact ⟨mid, .counting hs ha hb, hm⟩
  rw [Reader.formula.eq_def] at h
  split at h
  · cases h
  · next c ds =>
    split at h
    · next hc => subst hc; exact of_step (.some .minus) h
    split at h
    · next hc => subst hc; exact of_step (.some .plus) h
    split at h
    · exact of_step .none h
    split at h
    · next hc =>
      obtain ⟨b, mid, hb, hm, rfl⟩ := offset_sound h
      exact ⟨mid, .counting .none (.bare (counter_sound hc ds)) hb, hm⟩
    split at h
    · next hc =>
      have hn : isNameChar c := hc.elim (fun h => (formula_word (.inl rfl) h ds).2)
        fun h => (formula_word (.inr rfl) h ds).2
      exact ⟨rest, keyword_sound hn h, .refl rest⟩
    · cases h

/-- A derived word is read: its first letter leads the reader to it, and the parenthesis ends it. -/
theorem keyword_complete {c x : Char} {cs word rest tail : List Char} {f : Nth}
    (hx : x = 'o' ∨ x = 'e') (hc : c.toLower = x) (hw : NameItems cs word rest)
    (hk : Reader.keyword? (String.ofList (c :: word)) = some f) (hr : Blanks rest (')' :: tail)) :
    Reader.formula (c :: cs) = .ok (f, rest) := by
  obtain ⟨hf, hn⟩ := formula_word hx hc cs
  have hname : Name (c :: cs) (c :: word) rest := ⟨.cons (.char hn) hw, List.cons_ne_nil _ _⟩
  rw [hf, Reader.keyword, hname.complete (endsName_of_closing hr)]
  simp only [hk]

/-- **A derived formula is read**, where its parenthesis follows. -/
theorem Formula.complete {cs rest tail : List Char} {f : Nth} (h : Formula cs f rest)
    (hr : Blanks rest (')' :: tail)) :
    ∃ mid, Reader.formula cs = .ok (f, mid) ∧ Reader.blanks mid = ')' :: tail := by
  cases h with
  | odd h hw =>
    have hk := keyword?_eq_some_iff.2 (.inl ⟨hw, rfl⟩)
    exact ⟨rest, keyword_complete (.inl rfl) (List.cons.inj hw).1 h hk hr, blanks_of_closing hr⟩
  | even h hw =>
    have hk := keyword?_eq_some_iff.2 (.inr ⟨hw, rfl⟩)
    exact ⟨rest, keyword_complete (.inr rfl) (List.cons.inj hw).1 h hk hr, blanks_of_closing hr⟩
  | constant hs hi =>
    exact ⟨rest, (hs.complete hi.startsStep).trans (hi.step_complete hr cs), blanks_of_closing hr⟩
  | counting hs ha hb =>
    rw [hs.complete ha.startsStep, ha.complete cs]
    exact hb.complete hr cs _

end TreeSelectors.Grammar
