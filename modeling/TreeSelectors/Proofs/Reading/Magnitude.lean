import Mathlib
import TreeSelectors.Proofs.Reading.Place
import TreeSelectors.Proofs.Tree.Position
import TreeSelectors.Reader.Magnitude

/-!
# Proofs/Reading/Magnitude — no integer wraps

A number that is too large stays so whatever digits follow (`le_ofDigitChars`), so the digits are
refused on words exactly if their number is no word of 64 bits.  Such a number is no word of 32 bits
either, and a sign cannot take the other ones out of range.
-/

namespace TreeSelectors

open Text

/-- A number has a word, unless it is too large. -/
theorem word?_cases {x : Int} (h : 0 ≤ x) :
    (∃ c, word? x = some c ∧ c.toInt = x) ∨ word? x = none ∧ 2 ^ 63 ≤ x := by
  obtain hlt | hle := lt_or_ge x (2 ^ 63)
  · exact .inl (exists_word? (by omega) hlt)
  · refine .inr ⟨if_neg ?_, hle⟩
    rw [Int64.toInt_maxValue]
    omega

namespace Reader

variable {ds : List Char}

theorem toInt_digitValue {d : Char} (hd : d.isDigit) :
    (digitValue d).toInt = (d.toNat - '0'.toNat : Nat) := by
  have hle : d.toNat ≤ '9'.toNat := (Char.isDigit_iff_toNat.1 hd).2
  have h9 : '9'.toNat = 57 := rfl
  rw [digitValue, Int64.toInt_ofNat_of_lt (by omega)]

/-- More digits name no smaller number. -/
theorem le_ofDigitChars (ds : List Char) (n : Nat) : n ≤ Nat.ofDigitChars 10 ds n := by
  induction ds generalizing n with
  | nil => exact le_rfl
  | cons d ds ih =>
    rw [Nat.ofDigitChars_cons]
    exact (by omega : n ≤ 10 * n + (d.toNat - '0'.toNat)).trans (ih _)

/-- **Digits are read on words to the number that they name**, or refused if it is too large. -/
theorem magnitude?_cases (hd : ∀ d ∈ ds, d.isDigit) {n : Int64} {m : Nat} (hn : n.toInt = m) :
    (∃ x, magnitude? n ds = some x ∧ x.toInt = Nat.ofDigitChars 10 ds m) ∨
      magnitude? n ds = none ∧ 2 ^ 63 ≤ (Nat.ofDigitChars 10 ds m : Int) := by
  induction ds generalizing n m with
  | nil => exact .inl ⟨n, rfl, hn⟩
  | cons d ds ih =>
    obtain ⟨hdigit, hds⟩ := List.forall_mem_cons.1 hd
    have hvalue := toInt_digitValue hdigit
    have hten : (10 : Int64).toInt = 10 := rfl
    have hle := le_ofDigitChars ds (10 * m + (d.toNat - '0'.toNat))
    rw [magnitude?, product?, hten, Nat.ofDigitChars_cons]
    obtain ⟨tens, ht, htens⟩ | ⟨ht, hlarge⟩ := word?_cases (x := n.toInt * 10) (by omega)
    · rw [ht, Option.bind_some, sum?]
      obtain ⟨x, hx, hsum⟩ | ⟨hx, hlarge⟩ :=
        word?_cases (x := tens.toInt + (digitValue d).toInt) (by omega)
      · rw [hx, Option.bind_some]
        exact ih hds (by omega)
      · rw [hx]
        exact .inr ⟨rfl, by omega⟩
    · rw [ht]
      exact .inr ⟨rfl, by omega⟩

/-- Only the least word has no negative. -/
theorem exists_product?_sign {n : Int64} (negative : Bool) (h0 : 0 ≤ n.toInt) :
    ∃ x, product? n (if negative then -1 else 1) = some x ∧
      x.toInt = if negative then -n.toInt else n.toInt := by
  have hlt := n.toInt_lt
  have hminus : (-1 : Int64).toInt = -1 := rfl
  have hone : (1 : Int64).toInt = 1 := rfl
  rw [product?]
  cases negative with
  | false =>
    rw [if_neg Bool.false_ne_true, if_neg Bool.false_ne_true, hone, Int.mul_one]
    exact exists_word? (by omega) (by omega)
  | true =>
    rw [if_pos rfl, if_pos rfl, hminus, Int.mul_neg_one]
    exact exists_word? (by omega) (by omega)

/-- **Reading an integer on words is exact**: it comes to an answer, and to the one that the exact
value has. -/
theorem signedWord?_eq (negative : Bool) (hd : ∀ d ∈ ds, d.isDigit) :
    signedWord? negative ds = some (word? (signedValue negative ds)) := by
  rw [signedWord?, signedValue, decimalValue]
  obtain ⟨n, hn, hvalue⟩ | ⟨hn, hlarge⟩ := magnitude?_cases hd (n := 0) (m := 0) rfl
  · obtain ⟨x, hx, hsigned⟩ := exists_product?_sign negative (hvalue ▸ Int.natCast_nonneg _)
    rw [hn]
    dsimp only
    rw [hx, Option.map_some, hsigned, hvalue]
  · rw [hn]
    refine congrArg some (word?_eq_none_iff.2 ?_).symm
    split <;> omega

/-- The reader of integers tells them as they are told on words. -/
theorem signedWord?_takeWhile (negative : Bool) (cs : List Char) :
    signedWord? negative (cs.takeWhile Char.isDigit) =
      some ((integer negative cs).toOption.map Prod.fst) := by
  rw [signedWord?_eq negative fun _ => List.mem_takeWhile_imp, integer]
  split <;> next h => rw [h]; rfl

end Reader

end TreeSelectors
