import Mathlib
import TreeSelectors.Proofs.Grammar

/-!
# Proofs/Writing/Lexeme — escapes, names and strings are derived from what is written

Each text is derived in front of *any* `rest`: an escape by code point carries the blank that ends
its digits, and every other character says by itself what it is.  A name comes back with U+FFFD for
U+0000 (`nulReplaced`), a string as it was.
-/

namespace TreeSelectors

open Text

namespace Text

/-! ## Hexadecimal digits -/

theorem isHexDigit_digitChar {n : ℕ} (h : n < 16) : isHexDigit n.digitChar := by
  revert n
  decide

theorem isHexDigit_of_mem_hexDigits {n : ℕ} : ∀ d ∈ hexDigits n, isHexDigit d := by
  induction n using Nat.strong_induction_on with
  | h n ih =>
    intro d hd
    rw [hexDigits, Nat.toDigits_eq_if (by decide)] at hd
    split at hd
    · next hn =>
      obtain rfl := List.mem_singleton.1 hd
      exact isHexDigit_digitChar hn
    · next hn =>
      obtain hd | hd := List.mem_append.1 hd
      · exact ih (n / 16) (Nat.div_lt_self (by omega) (by decide)) d hd
      · obtain rfl := List.mem_singleton.1 hd
        exact isHexDigit_digitChar (Nat.mod_lt n (by decide))

/-- Six digits are enough for every character. -/
theorem length_hexDigits_le (c : Char) : (hexDigits c.toNat).length ≤ 6 := by
  have hc : c.toNat < 0x110000 := c.valid.elim (fun h => h.trans (by decide)) fun h => h.2
  exact (Nat.length_toDigits_le_iff (by decide) (by decide)).2 (by omega)

end Text

namespace Grammar

/-! ## Escapes -/

theorem idxOf_digitChar {n : ℕ} (h : n < 16) : digits.idxOf n.digitChar.toLower = n := by
  revert n
  decide

/-- **Hexadecimal text names the number that it is of.** -/
theorem number_hexDigits (n : ℕ) : number 16 (hexDigits n) = n := by
  induction n using Nat.strong_induction_on with
  | h n ih =>
    rw [hexDigits, Nat.toDigits_eq_if (by decide)]
    split
    · next hn =>
      exact (number_snoc 16 [] n.digitChar).trans ((Nat.zero_add _).trans (idxOf_digitChar hn))
    · next hn =>
      have hlt : n / 16 < n := Nat.div_lt_self (by omega) (by decide)
      have hdiv : number 16 (Nat.toDigits 16 (n / 16)) = n / 16 := ih _ hlt
      rw [number_snoc, hdiv, idxOf_digitChar (Nat.mod_lt n (by decide))]
      exact Nat.div_add_mod n 16

/-- **An escape by code point is complete**, whatever follows its blank. -/
theorem escape_codePointEscape {c : Char} (h : c ≠ '\x00') (rest : List Char) :
    Escape (codePointEscape c ++ rest) c rest := by
  have hcs : codePointEscape c ++ rest = '\\' :: hexDigits c.toNat ++ ' ' :: rest := by
    simp [codePointEscape]
  rw [hcs]
  exact .code Nat.toDigits_ne_nil (length_hexDigits_le c) isHexDigit_of_mem_hexDigits
    (.inr (by rintro _ ⟨⟩; rfl)) (number_hexDigits _).symm h .space

/-- A control character is written by its code point, and U+0000 by another. -/
theorem escape_controlEscape (c : Char) (rest : List Char) :
    Escape (controlEscape c ++ rest) (nulReplaced c) rest :=
  escape_codePointEscape (nulReplaced_ne_nul c) rest

/-- What is neither a control character nor a name character stands behind a backslash. -/
theorem escape_literal {c : Char} (hctl : ¬isControl c) (hn : ¬isNameChar c) (rest : List Char) :
    Escape ('\\' :: c :: rest) c rest :=
  .literal (Bool.eq_false_iff.2 (mt isNameChar_of_isHexDigit hn))
    (Bool.eq_false_iff.2 (mt isControl_of_isNewline hctl))

/-! ## Names -/

theorem nulReplaced_of_not_isControl {c : Char} (h : ¬isControl c) : nulReplaced c = c :=
  nulReplaced_of_ne (by rintro rfl; exact h rfl)

/-- A character of a name is written as it is, behind a backslash or by its code point. -/
theorem nameItem_nameCharText (c : Char) (rest : List Char) :
    NameItem (nameCharText c ++ rest) (nulReplaced c) rest := by
  rw [nameCharText]
  split
  · exact .escape (escape_controlEscape c rest)
  · next hctl =>
    rw [nulReplaced_of_not_isControl hctl]
    split
    · next hc => exact .char hc
    · next hc => exact .escape (escape_literal hctl hc rest)

/-- **A name is derived from what is written of it**, whatever follows. -/
theorem nameItems_nameText (cs rest : List Char) :
    NameItems (nameText cs ++ rest) (cs.map nulReplaced) rest := by
  induction cs with
  | nil => exact .nil
  | cons c cs ih =>
    have hcs : nameText (c :: cs) ++ rest = nameCharText c ++ (nameText cs ++ rest) := by
      simp [nameText]
    exact hcs ▸ .cons (nameItem_nameCharText c _) ih

theorem name_nameText {cs : List Char} (h : cs ≠ []) (rest : List Char) :
    Name (nameText cs ++ rest) (cs.map nulReplaced) rest :=
  ⟨nameItems_nameText cs rest, by simpa using h⟩

/-! ## Identifiers -/

/-- A digit leads by its escape, and everything but a dash leads as it goes on. -/
theorem nameStart_leadCharText {c : Char} (h : c ≠ '-') (rest : List Char) :
    NameStart (leadCharText c ++ rest) (nulReplaced c) rest := by
  rw [leadCharText]
  split
  · next hd =>
    have hne : c ≠ '\x00' := ne_of_class hd rfl
    rw [nulReplaced_of_ne hne]
    exact .escape (escape_codePointEscape hne rest)
  · next hd =>
    rw [nameCharText]
    split
    · exact .escape (escape_controlEscape c rest)
    · next hctl =>
      rw [nulReplaced_of_not_isControl hctl]
      split
      · next hc =>
        refine .char ?_
        simpa [isNameChar, hd, h] using hc
      · next hc => exact .escape (escape_literal hctl hc rest)

/-- A dash that cannot lead stands behind a backslash. -/
theorem nameStart_dash (rest : List Char) : NameStart ('\\' :: '-' :: rest) '-' rest :=
  .escape (.literal rfl rfl)

/-- **An identifier is derived back**, NUL replaced, if it is not empty. -/
theorem identifier_identifierText {cs : List Char} (h : cs ≠ []) (rest : List Char) :
    Identifier (identifierText cs ++ rest) (cs.map nulReplaced) rest := by
  have hdash : nulReplaced '-' = '-' := rfl
  rw [identifierText.eq_def]
  split
  · exact absurd rfl h
  · exact .plain (nameStart_dash rest) .nil
  · next cs =>
    simp only [List.cons_append, List.map_cons, hdash]
    exact .dash (nameStart_dash _) (nameItems_nameText cs rest)
  · next c cs hc =>
    simp only [List.cons_append, List.append_assoc, List.map_cons, hdash]
    exact .dash (nameStart_leadCharText hc _) (nameItems_nameText cs rest)
  · next c cs halone _ hfollowed =>
    have hc : c ≠ '-' := by
      intro hc
      cases cs with
      | nil => exact halone hc rfl
      | cons d ds => exact hfollowed d ds hc rfl
    rw [List.append_assoc]
    exact .plain (nameStart_leadCharText hc _) (nameItems_nameText cs rest)

/-! ## Strings -/

/-- **A string is derived back as it is**, NUL included. -/
theorem stringBody_flatMap (cs rest : List Char) :
    StringBody '"' (cs.flatMap stringCharText ++ '"' :: rest) cs rest := by
  induction cs with
  | nil => exact .close
  | cons c cs ih =>
    rw [List.flatMap_cons, List.append_assoc, stringCharText]
    split
    · next hc =>
      refine .escape (.literal ?_ ?_) ih <;> obtain rfl | rfl := hc <;> rfl
    split
    · next hc => exact .escape (escape_codePointEscape hc.2 _) ih
    · next hq hc =>
      rw [not_or] at hq
      refine .char hq.1 hq.2 (Bool.eq_false_iff.2 fun hn => hc ?_) ih
      exact ⟨isControl_of_isNewline hn, ne_of_class hn rfl⟩

end Grammar

end TreeSelectors
