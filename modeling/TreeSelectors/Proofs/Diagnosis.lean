import Mathlib
import TreeSelectors.Proofs.Concatenation
import TreeSelectors.Proofs.Reading.LeftOver

/-!
# Proofs/Diagnosis — an error points at what it names

Compiling turns the place of a fault into the number of bytes in front of it.  So the offset of an
error cuts the text between two characters, and what its cause says of the two parts is so.  Where
text is left over, the part in front is the longest that compiles.
-/

namespace TreeSelectors.Selector

open Text

/-- **Every error points at what it names.**  It repeats the text, its offset cuts the text in two,
and its cause holds of the part in front and of the part that is left. -/
theorem compile_error_holds {text : String} {e : ParseError} (h : compile text = .error e) :
    e.selector = text ∧ ∃ before rest : String, before ++ rest = text ∧
      e.offset = before.utf8ByteSize ∧ e.offset + rest.utf8ByteSize = text.utf8ByteSize ∧
        e.cause.HoldsAt before.toList rest.toList := by
  obtain ⟨fault, hfault, rfl⟩ := compile_eq_error_iff.1 h
  obtain ⟨before, hcut, hcause⟩ := Reader.selector_faultsHold text.toList fault hfault
  have hbytes : byteLength text.toList = byteLength before + byteLength fault.rest := by
    rw [← hcut, byteLength_append]
  have hoffset : (ParseError.ofFault text fault).offset = byteLength before := by
    change byteLength text.toList - byteLength fault.rest = byteLength before
    omega
  refine ⟨rfl, .ofList before, .ofList fault.rest, ?_, ?_, ?_, ?_⟩
  · rw [← String.ofList_append, hcut, String.ofList_toList]
  · rw [hoffset, ← byteLength_toList, String.toList_ofList]
  · rw [hoffset, ← byteLength_toList, ← byteLength_toList, String.toList_ofList, hbytes]
  · rwa [String.toList_ofList, String.toList_ofList]

/-- …as behind a letter of two bytes, in an integer that is out of range by one, and at an escape
whose digits name the first surrogate; the escape of the character before it is read. -/
theorem compile_error_holds_out_of_range :
    (compile "é:not(:nth-child(2n - 2147483649))" =
        .error ⟨"é:not(:nth-child(2n - 2147483649))", 23, .integerOverflow⟩ ∧
      ∃ before rest : String, before ++ rest = "é:not(:nth-child(2n - 2147483649))" ∧
        23 = before.utf8ByteSize ∧ 23 + rest.utf8ByteSize = 35 ∧
          BadInteger before.toList rest.toList) ∧
    (compile ".é\\D800 x" = .error ⟨".é\\D800 x", 3, .invalidEscape⟩ ∧
      ∃ before rest : String, before ++ rest = ".é\\D800 x" ∧
        3 = before.utf8ByteSize ∧ 3 + rest.utf8ByteSize = 10 ∧ BadEscape rest.toList) ∧
    hexValue "D800".toList = 0xD800 ∧ compile ".é\\D7FF x" = .ok (.className "é\ud7ffx") := by
  have hinteger : compile "é:not(:nth-child(2n - 2147483649))" =
      .error ⟨"é:not(:nth-child(2n - 2147483649))", 23, .integerOverflow⟩ := by decide +kernel
  have hescape : compile ".é\\D800 x" = .error ⟨".é\\D800 x", 3, .invalidEscape⟩ := by
    decide +kernel
  exact ⟨⟨hinteger, (compile_error_holds hinteger).2⟩, ⟨hescape, (compile_error_holds hescape).2⟩,
    by decide +kernel, by decide +kernel⟩

/-! ## What is left over -/

/-- A fault lies behind the bytes in front of it. -/
theorem ofFault_eq {text : String} {before rest : List Char} (h : text.toList = before ++ rest)
    (cause : Cause) :
    ParseError.ofFault text ⟨cause, rest⟩ = ⟨text, byteLength before, cause⟩ := by
  rw [ParseError.ofFault, h, byteLength_append, Nat.add_sub_cancel_right]

/-- The texts that end behind `before` are what follows it, cut short. -/
theorem exists_append_of_longer {p before rest : List Char} (hp : p <+: before ++ rest)
    (hlt : byteLength before < byteLength p) :
    ∃ rest', rest' <+: rest ∧ rest' ≠ [] ∧ p = before ++ rest' := by
  obtain h | h := List.prefix_or_prefix_of_prefix hp (List.prefix_append before rest)
  · obtain ⟨t, rfl⟩ := h
    rw [byteLength_append] at hlt
    omega
  · obtain ⟨rest', rfl⟩ := h
    refine ⟨rest', (List.prefix_append_right_inj before).1 hp, ?_, rfl⟩
    rintro rfl
    simp at hlt

/-- **Text is left over behind the longest text that compiles.**  What is in front of that place
compiles; wherever the text is cut behind it, the same place is reported. -/
theorem compile_leftOver_longest {text : String} {e : ParseError} {bytes : Nat}
    (h : compile text = .error e) (hc : e.cause = .leftOver bytes) :
    (∃ (before : String) (s : Selector), before.toList <+: text.toList ∧
      before.utf8ByteSize = e.offset ∧ compile before = .ok s) ∧
    ∀ p : String, p.toList <+: text.toList → e.offset < p.utf8ByteSize →
      compile p = .error ⟨p, e.offset, .leftOver (p.utf8ByteSize - e.offset)⟩ := by
  obtain ⟨⟨cause, rest⟩, hfault, rfl⟩ := compile_eq_error_iff.1 h
  obtain rfl : cause = .leftOver bytes := hc
  obtain ⟨s, before, htext, hs, hlong⟩ := Reader.selector_leftOver hfault
  rw [ofFault_eq htext, htext]
  refine ⟨⟨.ofList before, s, ?_, ?_, ?_⟩, fun p hp hlt => ?_⟩
  · rw [String.toList_ofList]
    exact List.prefix_append before rest
  · rw [← byteLength_toList, String.toList_ofList]
  · rw [compile_eq_ok_iff_selector, String.toList_ofList]
    exact hs
  · rw [← byteLength_toList] at hlt ⊢
    obtain ⟨rest', hr, hne, hcut⟩ := exists_append_of_longer hp hlt
    have hbytes : byteLength p.toList - byteLength before = byteLength rest' := by
      rw [hcut, byteLength_append, Nat.add_sub_cancel_left]
    have hfault := hlong rest' hr hne
    rw [← hcut] at hfault
    exact compile_eq_error_iff.2 ⟨_, hfault, by rw [ofFault_eq hcut, hbytes]⟩

/-- …as behind a letter of two bytes, where a backslash at a line end begins no escape, and none
where the text is cut before that line end. -/
theorem compile_leftOver_longest_backslash :
    compile "é\\\n#" = .error ⟨"é\\\n#", 2, .leftOver 3⟩ ∧
      (∃ (before : String) (s : Selector), before.toList <+: "é\\\n#".toList ∧
        before.utf8ByteSize = 2 ∧ compile before = .ok s) ∧
      compile "é\\" = .error ⟨"é\\", 2, .leftOver 1⟩ := by
  have h : compile "é\\\n#" = .error ⟨"é\\\n#", 2, .leftOver 3⟩ := by decide +kernel
  obtain ⟨hbefore, hlonger⟩ := compile_leftOver_longest h rfl
  exact ⟨h, hbefore, hlonger "é\\" (by decide +kernel) (by decide +kernel)⟩

end TreeSelectors.Selector
