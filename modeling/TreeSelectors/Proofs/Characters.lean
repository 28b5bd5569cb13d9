import Mathlib
import TreeSelectors.Text.Numeral
import TreeSelectors.Text.Ascii

/-!
# Proofs/Characters — character classes, letter case and U+0000

How the classes lie to one another, what folding leaves alone, and `nulReplaced`: no escape names
U+0000, so a name that is written comes back with U+FFFD in its place.
-/

namespace TreeSelectors.Text

/-! ## Classes -/

/-- A character of a class is none that lies outside it. -/
theorem ne_of_class {p : Char → Bool} {c d : Char} (hc : p c) (hd : p d = false) : c ≠ d := by
  rintro rfl
  exact Bool.noConfusion (hd.symm.trans hc)

/-- The line ends, one by one. -/
theorem isNewline_iff {c : Char} : isNewline c ↔ c = '\n' ∨ c = '\r' ∨ c = '\x0c' := by
  simp [isNewline, or_assoc]

/-- The blanks are the space, the tab and the line ends. -/
theorem isBlank_iff {c : Char} : isBlank c ↔ c = ' ' ∨ c = '\t' ∨ isNewline c := by
  simp [isBlank, or_assoc]

theorem isControl_of_isNewline {c : Char} (h : isNewline c) : isControl c := by
  obtain rfl | rfl | rfl := isNewline_iff.1 h <;> rfl

theorem isNameChar_of_isNameStart {c : Char} (h : isNameStart c) : isNameChar c := by
  simp [isNameChar, h]

theorem isNameChar_of_isDigit {c : Char} (h : c.isDigit) : isNameChar c := by
  simp [isNameChar, h]

/-- No name goes on with a blank. -/
theorem isBlank_of_isNameChar {c : Char} (h : isNameChar c) : isBlank c = false := by
  refine Bool.eq_false_iff.2 fun hb => ?_
  obtain rfl | rfl | hn := isBlank_iff.1 hb
  · cases h
  · cases h
  · obtain rfl | rfl | rfl := isNewline_iff.1 hn <;> cases h

/-- Every hexadecimal digit may stand in a name, so only an escape knows where its digits end. -/
theorem isNameChar_of_isHexDigit {c : Char} (h : isHexDigit c) : isNameChar c := by
  have halpha {lo hi : Char} (hlo : 'a' ≤ lo ∧ hi ≤ 'z' ∨ 'A' ≤ lo ∧ hi ≤ 'Z')
      (hc : lo ≤ c ∧ c ≤ hi) : c.isAlpha := by
    simp only [Char.isAlpha, Char.isUpper, Char.isLower, Bool.or_eq_true, Bool.and_eq_true,
      decide_eq_true_eq]
    exact hlo.symm.imp (fun h => ⟨h.1.trans hc.1, hc.2.trans h.2⟩)
      fun h => ⟨h.1.trans hc.1, hc.2.trans h.2⟩
  simp only [isHexDigit, Bool.or_eq_true, Bool.and_eq_true, decide_eq_true_eq] at h
  obtain (hd | hl) | hu := h
  · simp [isNameChar, hd]
  · simp [isNameChar, isNameStart, halpha (.inl ⟨by decide, by decide⟩) hl]
  · simp [isNameChar, isNameStart, halpha (.inr ⟨by decide, by decide⟩) hu]

theorem isHexDigit_of_isDigit {c : Char} (h : c.isDigit) : isHexDigit c := by
  simp [isHexDigit, h]

/-- Hexadecimal digits are ASCII, as all digits and letters are. -/
theorem toNat_lt_of_isHexDigit {c : Char} (h : isHexDigit c) : c.toNat < 128 := by
  simp only [isHexDigit, Char.isDigit, Bool.or_eq_true, Bool.and_eq_true, decide_eq_true_eq,
    ge_iff_le, Char.le_def, UInt32.le_iff_toNat_le] at h
  have h9 : '9'.val.toNat = 57 := rfl
  have hf : 'f'.val.toNat = 102 := rfl
  have hF : 'F'.val.toNat = 70 := rfl
  have hc : c.toNat = c.val.toNat := rfl
  omega

/-- No hexadecimal digit is a line end. -/
theorem isNewline_of_isHexDigit {c : Char} (h : isHexDigit c) : isNewline c = false :=
  (Bool.or_eq_false_iff.1 (isBlank_of_isNameChar (isNameChar_of_isHexDigit h))).2

/-- No letter is a decimal digit. -/
theorem isDigit_of_isAlpha {c : Char} (h : c.isAlpha) : c.isDigit = false := by
  simp only [Char.isAlpha, Char.isUpper, Char.isLower, Bool.or_eq_true, Bool.and_eq_true,
    decide_eq_true_eq, ge_iff_le, UInt32.le_iff_toNat_le] at h
  simp only [Char.isDigit, Bool.and_eq_false_iff, decide_eq_false_iff_not, ge_iff_le,
    UInt32.le_iff_toNat_le, not_le]
  have h9 : '9'.val.toNat = 57 := rfl
  have hA : 'A'.val.toNat = 65 := rfl
  have ha : 'a'.val.toNat = 97 := rfl
  omega

/-! ## Numbers -/

theorem hexValue_snoc (ds : List Char) (d : Char) :
    hexValue (ds ++ [d]) = 16 * hexValue ds + hexDigitValue d := by
  rw [hexValue, List.foldl_append]
  rfl

theorem decimalValue_snoc (ds : List Char) (d : Char) :
    decimalValue (ds ++ [d]) = 10 * decimalValue ds + (d.toNat - '0'.toNat) := by
  rw [decimalValue, Nat.ofDigitChars_append]
  rfl

/-! ## Letter case -/

/-- Folding leaves a text as it is exactly if it has no capital. -/
theorem fold_eq_self_iff {s : String} : fold s = s ↔ isFolded s := by
  rw [← String.toList_inj, toList_fold, isFolded, List.all_eq_true]
  constructor
  · intro h c hc
    rw [← h] at hc
    obtain ⟨d, -, rfl⟩ := List.mem_map.1 hc
    simp
  · intro h
    refine (List.map_congr_left fun c hc => ?_).trans (List.map_id _)
    exact Char.toLower_eq_of_not_isUpper (by simpa using h c hc)

theorem isFolded_fold (s : String) : isFolded (fold s) := by
  simp [isFolded]

/-- A letter that lowers to a name character is one. -/
theorem isNameStart_of_toLower {c : Char} (h : isNameStart c.toLower) : isNameStart c := by
  by_cases hu : c.isUpper
  · simp [isNameStart, Char.isAlpha, hu]
  · rwa [Char.toLower_eq_of_not_isUpper hu] at h

/-- …and so for what a name may go on with. -/
theorem isNameChar_of_toLower {c : Char} (h : isNameChar c.toLower) : isNameChar c := by
  by_cases hu : c.isUpper
  · simp [isNameChar, isNameStart, Char.isAlpha, hu]
  · rwa [Char.toLower_eq_of_not_isUpper hu] at h

/-! ## U+0000 -/

/-- `c`, or U+FFFD in the place of U+0000. -/
def nulReplaced (c : Char) : Char :=
  if c = '\x00' then '\ufffd' else c

/-- `s` with U+FFFD in the place of each U+0000. -/
def withoutNul (s : String) : String :=
  String.ofList (s.toList.map nulReplaced)

@[simp] theorem toList_withoutNul (s : String) :
    (withoutNul s).toList = s.toList.map nulReplaced := by
  simp [withoutNul]

theorem nulReplaced_of_ne {c : Char} (h : c ≠ '\x00') : nulReplaced c = c := if_neg h

/-- U+0000 is never what comes out. -/
theorem nulReplaced_ne_nul (c : Char) : nulReplaced c ≠ '\x00' := by
  rw [nulReplaced]
  split
  · decide
  · next h => exact h

/-- A text without U+0000 stays as it is. -/
theorem withoutNul_eq_self {s : String} (h : '\x00' ∉ s.toList) : withoutNul s = s := by
  have hm : s.toList.map nulReplaced = s.toList :=
    (List.map_congr_left fun c hc => nulReplaced_of_ne fun e => h (e ▸ hc)).trans (List.map_id _)
  rw [withoutNul, hm, String.ofList_toList]

/-- No letter lowers to U+0000. -/
theorem nul_notMem_fold {s : String} (h : '\x00' ∉ s.toList) : '\x00' ∉ (fold s).toList := by
  rw [toList_fold]
  intro hm
  obtain ⟨c, hc, hlow⟩ := List.mem_map.1 hm
  have hn : c.isAlpha = false := by
    rw [← Char.isAlpha_toLower_eq_isAlpha, hlow]
    rfl
  have hu : ¬c.isUpper := fun hu => by simp [Char.isAlpha, hu] at hn
  rw [Char.toLower_eq_of_not_isUpper hu] at hlow
  exact h (hlow ▸ hc)

theorem nul_notMem_withoutNul (s : String) : '\x00' ∉ (withoutNul s).toList := by
  rw [toList_withoutNul]
  intro hm
  obtain ⟨c, -, hc⟩ := List.mem_map.1 hm
  exact nulReplaced_ne_nul c hc

end TreeSelectors.Text
