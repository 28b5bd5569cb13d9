import Mathlib
import TreeSelectors.Proofs.Writing.Lexeme

/-!
# Proofs/Writing/Formula — `an+b` is derived from what is written

A number of 32 bits is written as its sign and its digits, so the digits name it again whatever the
number is, the least one included.
-/

namespace TreeSelectors.Grammar

open Text

/-- The digits of `n` name `n`, behind a minus `-n`. -/
theorem integer_toDigits {negative : Bool} {i : Int32} {n : ℕ}
    (h : i.toInt = if negative then -(n : ℤ) else n) (rest : List Char) :
    Integer negative (Nat.toDigits 10 n ++ rest) i rest := by
  have hd : ∀ d ∈ Nat.toDigits 10 n, d.isDigit := fun _ =>
    Nat.isDigit_of_mem_toDigits (by decide) le_rfl
  refine .mk Nat.toDigits_ne_nil hd ?_
  rw [← decimalValue_eq_number hd, decimalValue, Nat.ofDigitChars_ten_toDigits]
  exact h

/-- **A number is its sign and its digits**; the digits name it behind that sign. -/
theorem decimal_derives (i : Int32) : ∃ (negative : Bool) (ds : List Char),
    decimal i.toInt = (if negative then ['-'] else []) ++ ds ∧
      negative = decide (i.toInt < 0) ∧ ∀ rest, Integer negative (ds ++ rest) i rest := by
  refine ⟨i.toInt < 0, Nat.toDigits 10 i.toInt.natAbs, ?_, rfl, fun rest => ?_⟩
  · rw [decimal]
    by_cases h : i.toInt < 0 <;> simp [h]
  · refine integer_toDigits ?_ rest
    simp only [decide_eq_true_eq]
    split <;> omega

theorem optionalSign_minus (negative : Bool) (rest : List Char) :
    OptionalSign ((if negative then ['-'] else []) ++ rest) negative rest := by
  cases negative with
  | true => exact .some .minus
  | false => exact .none

/-- What stands behind the counter, as `Nth.text` writes it. -/
def offsetText (b : Int32) : List Char :=
  if b = 0 then [] else if 0 < b then '+' :: decimal b.toInt else decimal b.toInt

/-- An offset is derived back, its sign standing in front of its digits. -/
theorem offset_offsetText (b : Int32) (rest : List Char) :
    Offset (offsetText b ++ rest) b rest := by
  obtain ⟨negative, ds, hds, hneg, hi⟩ := decimal_derives b
  rw [offsetText]
  split
  · next h => exact h ▸ .none
  split
  · next h =>
    have hpos : 0 < b.toInt := Int32.lt_iff_toInt_lt.1 h
    obtain rfl : negative = false := by simpa using hneg.trans (decide_eq_false (by omega))
    rw [hds]
    exact .some (.refl _) .plus (.refl _) (hi rest)
  · next hz h =>
    have hne : b.toInt ≠ 0 := fun e => hz (Int32.toInt_inj.1 e)
    have hle : ¬0 < b.toInt := fun e => h (Int32.lt_iff_toInt_lt.2 e)
    obtain rfl : negative = true := by simpa using hneg.trans (decide_eq_true (by omega))
    rw [hds]
    exact .some (.refl _) .minus (.refl _) (hi rest)

/-- The coefficient and the counter, as `Nth.text` writes them. -/
def stepText (a : Int32) : List Char :=
  if a = 1 then ['n'] else if a = -1 then ['-', 'n'] else decimal a.toInt ++ ['n']

/-- A step is derived back; one and minus one are written without digits. -/
theorem step_stepText (a : Int32) (rest : List Char) : ∃ negative ds,
    OptionalSign (stepText a ++ rest) negative ds ∧ Step negative ds a rest := by
  rw [stepText]
  split
  · next h => exact ⟨false, 'n' :: rest, .none, h ▸ .bare .lower⟩
  split
  · next h => exact ⟨true, 'n' :: rest, .some .minus, h ▸ .bare .lower⟩
  · obtain ⟨negative, ds, hds, -, hi⟩ := decimal_derives a
    refine ⟨negative, ds ++ 'n' :: rest, ?_, .coefficient (hi _) .lower⟩
    rw [hds, List.append_assoc, List.append_assoc]
    exact optionalSign_minus negative _

/-- **A formula is derived back as it was.** -/
theorem formula_text (f : Nth) (rest : List Char) : Formula (f.text ++ rest) f rest := by
  obtain ⟨a, b⟩ := f
  rw [Nth.text]
  split
  · next h =>
    obtain rfl : a = 0 := h
    obtain ⟨negative, ds, hds, -, hi⟩ := decimal_derives b
    have hs := optionalSign_minus negative (ds ++ rest)
    rw [← List.append_assoc, ← hds] at hs
    exact .constant hs (hi rest)
  · obtain ⟨negative, ds, hs, ha⟩ := step_stepText a (offsetText b ++ rest)
    rw [← List.append_assoc] at hs
    exact .counting hs ha (offset_offsetText b rest)

end TreeSelectors.Grammar
