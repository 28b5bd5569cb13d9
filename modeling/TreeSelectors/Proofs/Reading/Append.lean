import Mathlib
import TreeSelectors.Proofs.Reading.Sequence

/-!
# Proofs/Reading/Append — no production reaches into the text behind it

A derivation says what stands at the beginning of a text, and only the end of an escape looks at
what follows: its digits are the longest run, and the blank behind them is its own.  A text that
begins with neither (`Apart`) can therefore be written behind any derivation, and leaves it as it is
(`append`).  A sequence so followed goes on with what is derived there (`Sequence.trans`).
-/

namespace TreeSelectors.Grammar

open Text

variable {t : List Char}

/-! ## Apart -/

/-- Neither a hexadecimal digit nor a blank begins `t`. -/
def Apart (t : List Char) : Prop :=
  ∀ c ∈ t.head?, isHexDigit c = false ∧ isBlank c = false

/-- What holds of the character that follows, wherever it stands. -/
theorem forall_head?_append {p : Char → Prop} {cs : List Char} (h : ∀ c ∈ cs.head?, p c)
    (ht : ∀ c ∈ t.head?, p c) : ∀ c ∈ (cs ++ t).head?, p c := by
  cases cs with
  | nil => exact ht
  | cons d ds => exact h

/-! ## Lexemes -/

theorem Blanks.append {cs rest : List Char} (h : Blanks cs rest) (t : List Char) :
    Blanks (cs ++ t) (rest ++ t) := by
  obtain ⟨ws, rfl, hw⟩ := h
  exact ⟨ws, List.append_assoc ws rest t, hw⟩

/-- A carriage return takes no line feed along that is not its own. -/
theorem LineEnd.append {cs rest : List Char} (h : LineEnd cs rest) (ht : Apart t) :
    LineEnd (cs ++ t) (rest ++ t) := by
  cases h with
  | pair => exact .pair
  | @single c rest hc hp =>
    refine .single hc ?_
    rintro ⟨rfl, hn⟩
    have hr : ∀ c ∈ rest.head?, c ≠ '\n' := fun c h he => hp ⟨rfl, he ▸ h⟩
    have hb : ∀ c ∈ t.head?, c ≠ '\n' := fun c h => (ne_of_class rfl (ht c h).2).symm
    exact forall_head?_append hr hb '\n' hn rfl

/-- What ends an escape ends it still; where no blank did, none begins the new text. -/
theorem Separator.append {cs rest : List Char} (h : Separator cs rest) (ht : Apart t) :
    Separator (cs ++ t) (rest ++ t) := by
  cases h with
  | lineEnd h => exact .lineEnd (h.append ht)
  | space => exact .space
  | tab => exact .tab
  | none h => exact .none (forall_head?_append h fun c hc => (ht c hc).2)

/-- **The longest run of digits stays the longest**, and the blank behind it the only one. -/
theorem Escape.append {cs rest : List Char} {c : Char} (h : Escape cs c rest) (ht : Apart t) :
    Escape (cs ++ t) c (rest ++ t) := by
  cases h with
  | code hne hlen hex longest value hc hs =>
    rw [List.append_assoc]
    refine .code hne hlen hex ?_ value hc (hs.append ht)
    exact longest.imp_right fun h => forall_head?_append h fun c hc => (ht c hc).1
  | literal hex hn => exact .literal hex hn

/-- A character is what it is, and an escape ends before the new text. -/
theorem NameStart.append {cs rest : List Char} {c : Char} (h : NameStart cs c rest)
    (ht : Apart t) : NameStart (cs ++ t) c (rest ++ t) := by
  cases h with
  | char hc => exact .char hc
  | escape h => exact .escape (h.append ht)

theorem NameItem.append {cs rest : List Char} {c : Char} (h : NameItem cs c rest)
    (ht : Apart t) : NameItem (cs ++ t) c (rest ++ t) := by
  cases h with
  | char hc => exact .char hc
  | escape h => exact .escape (h.append ht)

/-- Names may stop anywhere, so a derived one stops where it did. -/
theorem NameItems.append {cs name rest : List Char} (h : NameItems cs name rest)
    (ht : Apart t) : NameItems (cs ++ t) name (rest ++ t) := by
  induction h with
  | nil => exact .nil
  | cons h _ ih => exact .cons (h.append ht) ih

theorem Name.append {cs name rest : List Char} (h : Name cs name rest) (ht : Apart t) :
    Name (cs ++ t) name (rest ++ t) :=
  ⟨h.1.append ht, h.2⟩

/-- …and so may identifiers. -/
theorem Identifier.append {cs name rest : List Char} (h : Identifier cs name rest)
    (ht : Apart t) : Identifier (cs ++ t) name (rest ++ t) := by
  cases h with
  | plain h hi => exact .plain (h.append ht) (hi.append ht)
  | dash h hi => exact .dash (h.append ht) (hi.append ht)

/-- A string ends at its quote; only escapes in it look ahead. -/
theorem StringBody.append {q : Char} {cs value rest : List Char} (h : StringBody q cs value rest)
    (ht : Apart t) : StringBody q (cs ++ t) value (rest ++ t) := by
  induction h with
  | close => exact .close
  | char hq hb hn _ ih => exact .char hq hb hn ih
  | continuation h _ ih => exact .continuation (h.append ht) ih
  | escape h _ ih => exact .escape (h.append ht) ih

/-! ## Attributes -/

theorem Value.append {cs value rest : List Char} (h : Value cs value rest) (ht : Apart t) :
    Value (cs ++ t) value (rest ++ t) := by
  cases h with
  | string hq h => exact .string hq (h.append ht)
  | identifier h => exact .identifier (h.append ht)

/-- A test ends at its bracket. -/
theorem Test.append {cs rest : List Char} {test : AttributeTest} (h : Test cs test rest)
    (ht : Apart t) : Test (cs ++ t) test (rest ++ t) := by
  cases h with
  | present => exact .present
  | compare hb hv hc =>
    rw [List.append_assoc]
    exact .compare (hb.append t) (hv.append ht) (hc.append t)

/-- …and with it the attribute selector. -/
theorem AttributeSelector.append {cs rest : List Char} {s : Selector}
    (h : AttributeSelector cs s rest) (ht : Apart t) :
    AttributeSelector (cs ++ t) s (rest ++ t) := by
  cases h with
  | mk hb hk hb' hs => exact .mk (hb.append t) (hk.append ht) (hb'.append t) (hs.append ht)

/-! ## Formulas -/

theorem Sign.append {cs rest : List Char} {negative : Bool} (h : Sign cs negative rest)
    (t : List Char) : Sign (cs ++ t) negative (rest ++ t) := by
  cases h with
  | plus => exact .plus
  | minus => exact .minus

/-- A sign that is missing is missing still: the rule does not look at what follows. -/
theorem OptionalSign.append {cs rest : List Char} {negative : Bool}
    (h : OptionalSign cs negative rest) (t : List Char) :
    OptionalSign (cs ++ t) negative (rest ++ t) := by
  cases h with
  | none => exact .none
  | some h => exact .some (h.append t)

/-- The digits of an integer need not be the longest run, so more of them may follow. -/
theorem Integer.append {negative : Bool} {cs rest : List Char} {i : Int32}
    (h : Integer negative cs i rest) (t : List Char) :
    Integer negative (cs ++ t) i (rest ++ t) := by
  obtain ⟨hne, hd, value⟩ := h
  rw [List.append_assoc]
  exact .mk hne hd value

theorem Counter.append {cs rest : List Char} (h : Counter cs rest) (t : List Char) :
    Counter (cs ++ t) (rest ++ t) := by
  cases h with
  | lower => exact .lower
  | upper => exact .upper

theorem Step.append {negative : Bool} {cs rest : List Char} {a : Int32}
    (h : Step negative cs a rest) (t : List Char) : Step negative (cs ++ t) a (rest ++ t) := by
  cases h with
  | bare h => exact .bare (h.append t)
  | coefficient hi h => exact .coefficient (hi.append t) (h.append t)

theorem Offset.append {cs rest : List Char} {b : Int32} (h : Offset cs b rest) (t : List Char) :
    Offset (cs ++ t) b (rest ++ t) := by
  cases h with
  | none => exact .none
  | some hb hs hb' hi => exact .some (hb.append t) (hs.append t) (hb'.append t) (hi.append t)

/-- A formula can hold escapes only in its words. -/
theorem Formula.append {cs rest : List Char} {f : Nth} (h : Formula cs f rest) (ht : Apart t) :
    Formula (cs ++ t) f (rest ++ t) := by
  cases h with
  | odd h hw => exact .odd (h.append ht) hw
  | even h hw => exact .even (h.append ht) hw
  | constant hs hi => exact .constant (hs.append t) (hi.append t)
  | counting hs ha hb => exact .counting (hs.append t) (ha.append t) (hb.append t)

/-! ## Sequences -/

/-- A front may be missing, whatever follows. -/
theorem Front.append {cs rest : List Char} {ss : List Selector} (h : Front cs ss rest)
    (ht : Apart t) : Front (cs ++ t) ss (rest ++ t) := by
  cases h with
  | none => exact .none
  | universal => exact .universal
  | tag h => exact .tag (h.append ht)

/-- **A derivation stays one whatever is written behind it**, if it is apart.  The induction is on
the derivation, which nests through negations; every case is the production over its parts. -/
theorem Sequence.append {cs rest : List Char} {ss : List Selector} (h : Sequence cs ss rest)
    (ht : Apart t) : Sequence (cs ++ t) ss (rest ++ t) := by
  induction h using @Sequence.rec (fun cs s rest _ => Simple (cs ++ t) s (rest ++ t)) with
  | id h => exact .id (h.append ht)
  | className h => exact .className (h.append ht)
  | attr h => exact .attr (h.append ht)
  | plain h hs => exact .plain (h.append ht) hs
  | counting h hc hb hf hb' =>
    exact .counting (h.append ht) hc (hb.append t) (hf.append ht) (hb'.append t)
  | negation h hn hb _ hne hb' ih =>
    exact .negation (h.append ht) hn (hb.append t) ih hne (hb'.append t)
  | front h => exact .front (h.append ht)
  | snoc _ _ ihs iht => exact .snoc ihs iht

/-- Where a front ends no other begins. -/
theorem Front.eq_nil {cs rest : List Char} {ss : List Selector} (h : Front cs ss rest)
    (hc : EndsFront cs) : ss = [] ∧ cs = rest := by
  cases h with
  | none => exact ⟨rfl, rfl⟩
  | universal => exact absurd rfl hc.2
  | tag h => exact absurd h.startsIdentifier (by rw [hc.startsIdentifier]; exact Bool.noConfusion)

/-- **A sequence goes on** with the simple selectors derived behind it. -/
theorem Sequence.trans {cs ds rest : List Char} {ss us : List Selector} (h : Sequence cs ss ds)
    (hd : EndsFront ds) (h' : Sequence ds us rest) : Sequence cs (ss ++ us) rest := by
  induction h' using @Sequence.rec (fun _ _ _ _ => True) with
  | front hf =>
    obtain ⟨rfl, rfl⟩ := hf.eq_nil hd
    rwa [List.append_nil]
  | snoc _ hs ih =>
    rw [← List.append_assoc]
    exact .snoc (ih h hd) hs
  | _ => trivial

end TreeSelectors.Grammar
