import Mathlib
import TreeSelectors.Proofs.Reading.Append
import TreeSelectors.Proofs.Reading.Fault
import TreeSelectors.Proofs.Reading.Place
import TreeSelectors.Proofs.RoundTrip

/-!
# Proofs/Concatenation — a text is compiled piece by piece

Where a text that compiles is followed by one that begins with `#`, `.`, `[` or `:`, the reader
comes to the seam with nothing but what it has read so far.  The second text is then read as it is
read alone: its conjuncts follow those of the first, and its faults stay where they are in it.
-/

namespace TreeSelectors

open Text

/-! ## Conjuncts -/

namespace Selector

/-- The parts of a conjunction from left to right; any other selector is its own. -/
def conjuncts : Selector → List Selector
  | inter left right => left.conjuncts ++ right.conjuncts
  | s => [s]

/-- Conjuncts that are no conjunctions come back from their conjunction. -/
theorem conjuncts_conjunction {ss : List Selector} (hne : ss ≠ [])
    (h : ∀ s ∈ ss, s.conjuncts = [s]) : (conjunction ss).conjuncts = ss := by
  induction ss using List.reverseRecOn with
  | nil => exact absurd rfl hne
  | append_singleton ss s ih =>
    have hs := h s (List.mem_append_right ss List.mem_cons_self)
    cases ss with
    | nil => exact hs
    | cons r rs =>
      have hrs := ih (List.cons_ne_nil r rs) fun t ht => h t (List.mem_append_left [s] ht)
      rw [conjunction_snoc (List.cons_ne_nil r rs), conjuncts, hrs, hs]

theorem conjunction_append {ss : List Selector} (h : ss ≠ []) (us : List Selector) :
    conjunction (ss ++ us) = us.foldl inter (conjunction ss) := by
  obtain ⟨r, rs, rfl⟩ := List.exists_cons_of_ne_nil h
  exact List.foldl_append

theorem CanonicalAt.conjuncts_eq {s : Selector} (h : s.CanonicalAt false) :
    s.conjuncts = [s] := by
  cases s with
  | inter left right => cases h.1
  | _ => rfl

end Selector

namespace Grammar

theorem Front.conjuncts_eq {cs rest : List Char} {ss : List Selector} (h : Front cs ss rest) :
    ∀ s ∈ ss, s.conjuncts = [s] := by
  intro s hs
  cases h with
  | none => cases hs
  | universal | tag =>
    obtain rfl := List.mem_singleton.1 hs
    rfl

theorem Simple.conjuncts_eq {cs rest : List Char} {s : Selector} (h : Simple cs s rest) :
    s.conjuncts = [s] := by
  cases h with
  | attr h => cases h; rfl
  | plain _ hs => exact (canonicalAt_of_mem_plainClasses hs).conjuncts_eq
  | _ => rfl

/-- **The conjuncts of a derived row are its members**: no production yields a conjunction. -/
theorem Sequence.conjuncts_eq {cs rest : List Char} {ss : List Selector}
    (h : Sequence cs ss rest) : ∀ s ∈ ss, s.conjuncts = [s] := by
  induction h using @Sequence.rec (fun _ _ _ _ => True) with
  | front h => exact h.conjuncts_eq
  | snoc _ t ih =>
    intro r hr
    obtain hr | hr := List.mem_append.1 hr
    · exact ih r hr
    · obtain rfl := List.mem_singleton.1 hr
      exact t.conjuncts_eq
  | _ => trivial

/-! ## The seam -/

/-- No mark is a digit or a blank, so it goes on with no escape. -/
theorem Marked.apart {t : List Char} (h : Marked t) : Apart t := by
  obtain ⟨c, ds, rfl, hc⟩ := h
  rintro _ ⟨⟩
  obtain rfl | rfl | rfl | rfl := hc <;> decide

/-- A sequence of no conjuncts takes nothing. -/
theorem Sequence.ne_nil {cs rest : List Char} {ss : List Selector} (h : Sequence cs ss rest)
    (hc : cs ≠ rest) : ss ≠ [] := by
  cases h with
  | front h =>
    cases h with
    | none => exact absurd rfl hc
    | universal | tag => exact List.cons_ne_nil _ _
  | snoc => exact List.append_ne_nil_of_right_ne_nil _ (List.cons_ne_nil _ _)

/-- At the seam the reader holds what the first text says, and no front is read of the second. -/
theorem selector_append {cs t : List Char} {ss : List Selector} (h : Sequence cs ss [])
    (ht : Marked t) : Reader.selector (cs ++ t) = Reader.sequence [] (joined ss) t := by
  obtain ⟨f, mid, hf, hgo⟩ := (h.append ht.apart).complete ht.endsFront
  rw [Reader.selector, hf]
  exact hgo []

theorem selector_of_marked {t : List Char} (ht : Marked t) :
    Reader.selector t = Reader.sequence [] none t := by
  rw [Reader.selector, Front.none.complete ht.endsFront]
  rfl

/-- A fault of the second text is one of the whole: it depends on nothing that was read before. -/
theorem selector_append_error {cs t : List Char} {ss : List Selector} {fault : Fault}
    (h : Sequence cs ss []) (ht : Marked t) (he : Reader.selector t = .error fault) :
    Reader.selector (cs ++ t) = .error fault := by
  rw [selector_of_marked ht] at he
  rw [selector_append h ht]
  exact Reader.sequence_error_of_sameAbove (.bottom none (joined ss)) he

/-- What the second text says is said by the whole besides. -/
theorem selector_append_ok {cs t : List Char} {ss : List Selector} {b : Selector}
    (h : Sequence cs ss []) (hne : ss ≠ []) (ht : Marked t) (hb : Reader.selector t = .ok b) :
    Reader.selector (cs ++ t) = .ok (b.conjuncts.foldl .inter (.conjunction ss)) := by
  obtain ⟨us, hu, rfl⟩ := selector_sound hb
  have hus : us ≠ [] := by
    obtain ⟨c, ds, rfl, -⟩ := ht
    exact hu.ne_nil (List.cons_ne_nil c ds)
  rw [Selector.conjuncts_conjunction hus hu.conjuncts_eq, ← Selector.conjunction_append hne]
  exact selector_complete ⟨_, (h.append ht.apart).trans ht.endsFront hu, rfl⟩

end Grammar

/-! ## Compiling -/

namespace Selector

/-- A compile error is a fault of the reader, its place told in bytes. -/
theorem compile_eq_error_iff {text : String} {e : ParseError} :
    compile text = .error e ↔
      ∃ fault, Reader.selector text.toList = .error fault ∧ e = .ofFault text fault := by
  rw [compile]
  cases Reader.selector text.toList with
  | ok s =>
    constructor
    · intro h
      cases h
    · rintro ⟨_, hf, -⟩
      cases hf
  | error fault =>
    constructor
    · intro h
      cases h
      exact ⟨fault, rfl, rfl⟩
    · rintro ⟨_, hf, rfl⟩
      cases hf
      rfl

/-- The place of a fault moves by the bytes that are written in front. -/
theorem offset_ofFault_append {s t : String} {fault : Fault} (h : fault.rest <:+ t.toList) :
    ParseError.ofFault (s ++ t) fault =
      ⟨s ++ t, (ParseError.ofFault t fault).offset + s.utf8ByteSize, fault.cause⟩ := by
  obtain ⟨front, hf⟩ := h
  have ht : byteLength t.toList = byteLength front + byteLength fault.rest := by
    rw [← hf, byteLength_append]
  rw [ParseError.ofFault, ParseError.ofFault, String.toList_append, byteLength_append,
    byteLength_toList, ht]
  congr 1
  dsimp only
  omega

/-- **Compiling is compositional.**  Behind a text that compiles to `a`, a text that begins with
`#`, `.`, `[` or `:` is compiled as it is alone: its conjuncts are joined to `a` one after the
other, or its error is reported, as far behind its place as the first text is long. -/
theorem compile_append {s t : String} {a : Selector} (hs : s ≠ "") (ha : compile s = .ok a)
    (ht : ∃ c ∈ t.toList.head?, c = '#' ∨ c = '.' ∨ c = '[' ∨ c = ':') :
    (∀ b, compile t = .ok b → compile (s ++ t) = .ok (b.conjuncts.foldl inter a)) ∧
      ∀ e, compile t = .error e →
        compile (s ++ t) = .error ⟨s ++ t, e.offset + s.utf8ByteSize, e.cause⟩ := by
  obtain ⟨ss, hseq, rfl⟩ := derives_of_compile ha
  have hne : ss ≠ [] := hseq.ne_nil fun h => hs (String.toList_inj.1 h)
  have hmark : Grammar.Marked t.toList := by
    obtain ⟨c, hc, hmark⟩ := ht
    obtain ⟨ds, hds⟩ := List.head?_eq_some_iff.1 hc
    exact ⟨c, ds, hds, hmark⟩
  refine ⟨fun b hb => ?_, fun e he => ?_⟩
  · rw [compile_eq_ok_iff_selector] at hb ⊢
    rw [String.toList_append]
    exact Grammar.selector_append_ok hseq hne hmark hb
  · obtain ⟨fault, hfault, rfl⟩ := compile_eq_error_iff.1 he
    refine compile_eq_error_iff.2 ⟨fault, ?_, ?_⟩
    · rw [String.toList_append]
      exact Grammar.selector_append_error hseq hmark hfault
    · exact (offset_ofFault_append (Reader.selector_faultsIn t.toList fault hfault)).symm

/-- …as behind an escape that has neither six digits nor a blank, where the second text has a
negation in it that is not closed. -/
theorem compile_append_escape :
    compile "\\e9" = .ok (tag "é") ∧
      (compile ".x:root" = .ok (inter (className "x") root) ∧
        compile ("\\e9" ++ ".x:root") = .ok (inter (inter (tag "é") (className "x")) root)) ∧
      compile ".x:not(b" = .error ⟨".x:not(b", 8, .unexpectedEnd .closingParenthesis⟩ ∧
        compile ("\\e9" ++ ".x:not(b") =
          .error ⟨"\\e9.x:not(b", 11, .unexpectedEnd .closingParenthesis⟩ := by
  have ha : compile "\\e9" = .ok (tag "é") := by decide +kernel
  have hb : compile ".x:root" = .ok (inter (className "x") root) := by decide +kernel
  have he : compile ".x:not(b" = .error ⟨".x:not(b", 8, .unexpectedEnd .closingParenthesis⟩ := by
    decide +kernel
  have hok := (compile_append (by decide) ha ⟨'.', by decide +kernel, by decide⟩).1 _ hb
  have herr := (compile_append (by decide) ha ⟨'.', by decide +kernel, by decide⟩).2 _ he
  exact ⟨ha, ⟨hb, hok⟩, he, herr⟩

end Selector

end TreeSelectors
