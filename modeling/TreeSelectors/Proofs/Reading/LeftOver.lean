import Mathlib
import TreeSelectors.Proofs.Reading.Cut

/-!
# Proofs/Reading/LeftOver — text is left over behind the longest text that is read

Only a whole text complains that something is left over; no reader of a part does (`Partial`).  So
where text is left over, the reader has come there with no negation open, at a place where no piece
begins, and comes there as well where the text is cut behind it.
-/

namespace TreeSelectors.Reader

open Grammar Text

/-! ## Readers of a part -/

/-- Whether the cause is that text is left over. -/
def isLeftOver (cause : Cause) : Bool :=
  match cause with
  | .leftOver _ => true
  | _ => false

/-- If `r` is a fault, it is not that text is left over. -/
def Partial {α : Type} (r : Except Fault α) : Prop :=
  ∀ fault, r = .error fault → isLeftOver fault.cause = false

namespace Partial

variable {α β : Type} {cs : List Char}

theorem ok {a : α} : Partial (.ok a) := nofun

/-- A fault of another cause. -/
theorem error {cause : Cause} (h : isLeftOver cause = false) :
    Partial (α := α) (.error ⟨cause, cs⟩) := by
  rintro _ ⟨⟩
  exact h

/-- What is wanted and not there is expected, or the text ends; neither says that something is
left. -/
theorem missing {what : Wanted} : Partial (α := α) (.error (.missing what cs)) := by
  refine .error ?_
  split <;> rfl

/-- A fault that is handed on is the fault that it was, whatever was to be read. -/
theorem of_error {r : Except Fault α} {fault : Fault} (hr : Partial r) (h : r = .error fault) :
    Partial (α := β) (.error fault) := by
  rintro _ ⟨⟩
  exact hr fault h

/-- A reader of a part says of no text that it is left over. -/
theorem ne_leftOver {r : Except Fault α} (hr : Partial r) {bytes : Nat} :
    r ≠ .error ⟨.leftOver bytes, cs⟩ := fun h => by
  cases hr _ h

theorem map {f : α → β} {r : Except Fault α} (hr : Partial r) : Partial (r.map f) := by
  cases r with
  | error fault => exact hr.of_error rfl
  | ok a => exact .ok

theorem bind {r : Except Fault α} {k : α → Except Fault β} (hr : Partial r)
    (hk : ∀ a, Partial (k a)) : Partial (r >>= k) := by
  cases r with
  | error fault => exact hr.of_error rfl
  | ok a => exact hk a

end Partial

theorem escape_partial (cs : List Char) : Partial (escape cs) := by
  unfold escape
  split
  · exact .missing
  · split
    · exact .error rfl
    · split
      · exact .ok
      · exact .error rfl

/-- The only faults of a run are those of its escapes. -/
theorem nameRun_partial (cs : List Char) : Partial (nameRun cs) := by
  fun_induction nameRun cs with
  | case1 | case5 => exact .ok
  | case2 _ _ _ ih | case3 _ _ _ _ _ _ _ ih => exact ih.map
  | case4 _ _ _ _ _ he => exact (escape_partial _).of_error he

/-- An identifier fails for want of one, or in its run. -/
theorem identifier_partial (cs : List Char) : Partial (identifier cs) := by
  unfold identifier
  split
  · exact (nameRun_partial cs).map
  · exact .missing

/-- A name may come to nothing; that is a name missing, with whatever follows. -/
theorem name_partial (cs : List Char) : Partial (name cs) := by
  unfold name
  split
  · exact .missing
  · exact .ok
  · next hr => exact (nameRun_partial cs).of_error hr

/-- A string that ends nowhere is unterminated, which is a cause of its own. -/
theorem stringBody_partial (q : Char) (start cs : List Char) :
    Partial (stringBody q start cs) := by
  fun_induction stringBody q start cs with
  | case1 | case3 | case8 => exact .error rfl
  | case2 => exact .ok
  | case4 _ _ ih | case5 _ _ _ _ _ ih => exact ih
  | case6 _ _ _ _ _ _ _ _ ih | case9 _ _ _ _ _ ih => exact ih.map
  | case7 _ _ _ _ _ _ he => exact (escape_partial _).of_error he

/-- A value fails as the string or the identifier that it is, or is missing. -/
theorem attributeValue_partial (cs : List Char) : Partial (attributeValue cs) := by
  unfold attributeValue
  split
  · exact .missing
  · split
    · exact (stringBody_partial _ _ _).map
    · split
      · exact identifier_partial _
      · exact .missing

theorem expect_partial (c : Char) (what : Wanted) (cs : List Char) :
    Partial (expect c what cs) := by
  unfold expect
  split
  · exact .missing
  · split
    · exact .ok
    · exact .missing

theorem comparison_partial (cs : List Char) : Partial (comparison cs) := by
  unfold comparison
  split
  · exact .missing
  · split
    · exact .ok
    · split
      · exact .missing
      · exact (expect_partial _ _ _).map

/-- What follows a key is read in parts: the sign, the value and the bracket. -/
theorem attributeTest_partial (cs : List Char) : Partial (attributeTest cs) := by
  unfold attributeTest
  split
  · exact .ok
  · refine (comparison_partial _).bind fun _ => (attributeValue_partial _).bind fun _ => ?_
    exact (expect_partial _ _ _).bind fun _ => .ok

theorem attributeSelector_partial (cs : List Char) : Partial (attributeSelector cs) :=
  (identifier_partial _).bind fun _ => (attributeTest_partial _).bind fun _ => .ok

/-- An integer that is out of range is reported as such, never as text left over. -/
theorem integer_partial (negative : Bool) (cs : List Char) : Partial (integer negative cs) := by
  unfold integer
  split
  · exact .ok
  · exact .error rfl

theorem offset_partial (start : List Char) (a : Int32) (cs : List Char) :
    Partial (offset start a cs) := by
  unfold offset
  split
  · exact .ok
  · split
    · split
      · exact (integer_partial _ _).map
      · exact .error rfl
    · exact .ok

/-- Every other form of a formula is no formula, which is a cause of its own. -/
theorem step_partial (start : List Char) (negative : Bool) (cs : List Char) :
    Partial (step start negative cs) := by
  unfold step
  split
  · exact .error rfl
  · split
    · split
      · next hi => exact (integer_partial _ _).of_error hi
      · exact .ok
      · split
        · exact offset_partial _ _ _
        · exact .ok
    · split
      · exact offset_partial _ _ _
      · exact .error rfl

theorem keyword_partial (cs : List Char) : Partial (keyword cs) := by
  unfold keyword
  split
  · next hn => exact (name_partial cs).of_error hn
  · split
    · exact .ok
    · exact .error rfl

/-- A formula is chosen by its first character, and each choice is a reader of a part. -/
theorem formula_partial (cs : List Char) : Partial (formula cs) := by
  unfold formula
  split
  · exact .missing
  · repeat' split
    · exact step_partial _ _ _
    · exact step_partial _ _ _
    · exact step_partial _ _ _
    · exact offset_partial _ _ _
    · exact keyword_partial _
    · exact .error rfl

theorem argument_partial (cs : List Char) : Partial (argument cs) :=
  (expect_partial _ _ _).bind fun _ => (formula_partial _).bind fun _ =>
    (expect_partial _ _ _).bind fun _ => .ok

theorem front_partial (cs : List Char) : Partial (front cs) := by
  unfold front
  split
  · exact .ok
  · split
    · exact (identifier_partial _).map
    · exact .ok

/-- An unknown name is reported as unknown, and what is in parentheses by its own readers. -/
theorem pseudo_partial (cs : List Char) : Partial (pseudo cs) := by
  refine (identifier_partial cs).bind fun _ => ?_
  dsimp only
  split
  · exact .error rfl
  · exact .ok
  · exact (argument_partial _).bind fun _ => .ok
  · exact (expect_partial _ _ _).bind fun _ => (front_partial _).bind fun _ => .ok

/-- A piece is a reader of a part, whichever mark it begins with. -/
theorem next?_partial {cs : List Char} {r : Except Fault (Piece × List Char)}
    (h : next? cs = some r) : Partial r := by
  cases cs with
  | nil => cases h
  | cons c cs =>
    rw [next?, piece?.eq_def] at h
    split at h <;> cases h
    · exact (name_partial cs).map
    · exact (identifier_partial cs).map
    · exact (attributeSelector_partial cs).map
    · exact pseudo_partial cs

/-- At the end of a negation a sequence or a parenthesis may be missing. -/
theorem closing_partial (read : Option Selector) (cs : List Char) :
    Partial (closing read cs) := by
  cases read with
  | none => exact .error rfl
  | some r => exact (expect_partial _ _ _).map

/-! ## Sequences -/

/-- Where no piece begins, none does in a shorter text. -/
theorem next?_eq_none_of_shorter {rest rest' : List Char} (h : rest' <+: rest)
    (hn : next? rest = none) : next? rest' = none := by
  obtain ⟨t, rfl⟩ := h
  cases rest' with
  | nil => rfl
  | cons c ds =>
    rw [List.cons_append, next?, piece?.eq_def] at hn
    rw [next?, piece?.eq_def]
    split at hn <;> first | rfl | cases hn

/-- A parenthesis that closes a negation is taken as well where the text behind it is cut. -/
theorem closing_takesAlike {read : Option Selector} {s : Selector} {cs rest : List Char}
    (h : closing read cs = .ok (s, rest)) :
    TakesAlike (fun cs rest => closing read cs = .ok (s, rest)) cs rest := by
  cases read with
  | none => cases h
  | some r =>
    obtain ⟨ds, hd, h⟩ := map_eq_ok.1 h
    cases h
    have hb : Blanks cs (')' :: rest) := expect_eq_ok.1 hd ▸ blanks_sound cs
    exact hb.takesAlike_cons.mono fun _ rest hb =>
      map_eq_ok.2 ⟨rest, expect_eq_ok.2 (blanks_of_closing hb), rfl⟩

/-- **Where text is left over, the reader comes there wherever the text is cut behind it.** -/
theorem sequence_leftOver {outer : List (Option Selector)} {read : Option Selector}
    {cs rest : List Char} {bytes : Nat}
    (h : sequence outer read cs = .error ⟨.leftOver bytes, rest⟩) :
    next? rest = none ∧ ∃ last,
      TakesAlike (fun cs rest => sequence outer read cs = sequence [] last rest) cs rest := by
  fun_induction sequence outer read cs with
  | case1 _ _ _ _ hp => exact absurd h ((next?_partial hp).of_error rfl).ne_leftOver
  | case2 outer read cs s ds hp ih =>
    obtain ⟨hnone, last, ih⟩ := ih h
    refine ⟨hnone, last, ((next?_local hp).comp ih).mono ?_⟩
    rintro _ _ ⟨_, hp, hgo⟩
    rw [sequence_eq, hp]
    exact hgo
  | case3 outer read cs f ds hp ih =>
    obtain ⟨hnone, last, ih⟩ := ih h
    refine ⟨hnone, last, ((next?_local hp).comp ih).mono ?_⟩
    rintro _ _ ⟨_, hp, hgo⟩
    rw [sequence_eq, hp]
    exact hgo
  | case4 => cases h
  | case5 read cs hp =>
    cases h
    exact ⟨hp, read, .nothing fun _ _ => rfl⟩
  | case6 _ _ _ _ _ _ hc => exact absurd h ((closing_partial _ _).of_error hc).ne_leftOver
  | case7 read cs hp around outer s ds hc ih =>
    obtain ⟨hnone, last, ih⟩ := ih h
    have hclose := (closing_takesAlike hc).and_of_shorter fun _ hr => next?_eq_none_of_shorter hr hp
    refine ⟨hnone, last, (hclose.comp ih).mono ?_⟩
    rintro _ _ ⟨_, ⟨hp, hc⟩, hgo⟩
    rw [sequence_eq, hp]
    dsimp only
    rw [hc]
    exact hgo

/-- **Text is left over behind the longest text that is a selector**: what is in front of it is
one, and whatever of it follows there is left over as well. -/
theorem selector_leftOver {cs rest : List Char} {bytes : Nat}
    (h : selector cs = .error ⟨.leftOver bytes, rest⟩) : ∃ s w, cs = w ++ rest ∧
      selector w = .ok s ∧ ∀ rest', rest' <+: rest → rest' ≠ [] →
        selector (w ++ rest') = .error ⟨.leftOver (byteLength rest'), rest'⟩ := by
  cases hf : front cs with
  | error fault =>
    rw [selector, hf] at h
    exact absurd h ((front_partial cs).of_error hf).ne_leftOver
  | ok p =>
    obtain ⟨f, ds⟩ := p
    rw [selector, hf] at h
    obtain ⟨hnone, last, hgo⟩ := sequence_leftOver h
    obtain ⟨w, rfl, hcut⟩ := (front_local hf).comp hgo
    have hread (rest' : List Char) (hr : rest' <+: rest) : selector (w ++ rest') =
        if rest' = [] then .ok (last.getD .universal)
        else .error ⟨.leftOver (byteLength rest'), rest'⟩ := by
      obtain ⟨ds, hf, hgo⟩ := hcut rest' hr
      rw [selector, hf]
      refine hgo.trans ?_
      rw [sequence_eq, next?_eq_none_of_shorter hr hnone]
    refine ⟨last.getD .universal, w, rfl, ?_, fun rest' hr hne => ?_⟩
    · rw [← List.append_nil w]
      exact (hread [] List.nil_prefix).trans (if_pos rfl)
    · exact (hread rest' hr).trans (if_neg hne)

end TreeSelectors.Reader
