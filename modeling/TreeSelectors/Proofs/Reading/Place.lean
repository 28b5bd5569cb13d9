import Mathlib
import TreeSelectors.Proofs.Reading.Sequence

/-!
# Proofs/Reading/Place — what stands at the place of a fault

A fault cuts the text that is read in two, and its cause speaks of both parts (`Cause.HoldsAt`).
What is behind the place its reader has before it.  What is in front only the caller knows: the
parenthesis that opens an argument, the sign of an integer, the colon of a pseudo-class.  It is
handed down from the caller to the reader, as the character that comes before what is read, blanks
aside (`Follows`).
-/

namespace TreeSelectors

open Text

/-! ## What a cause says -/

/-- `c` comes last in `before`, blanks aside. -/
def EndsIn (c : Char) (before : List Char) : Prop :=
  ∃ head ws, before = head ++ c :: ws ∧ ∀ b ∈ ws, isBlank b

/-- A backslash and the longest run of one to six hexadecimal digits, which name no character, or
U+0000. -/
inductive BadEscape : List Char → Prop
  | mk {ds tail : List Char} (hne : ds ≠ []) (hlen : ds.length ≤ 6)
      (hex : ∀ d ∈ ds, isHexDigit d)
      (longest : ds.length = 6 ∨ ∀ d ∈ tail.head?, isHexDigit d = false)
      (value : hexValue ds = 0 ∨ (0xD800 ≤ hexValue ds ∧ hexValue ds ≤ 0xDFFF) ∨
        0x10FFFF < hexValue ds) :
      BadEscape ('\\' :: ds ++ tail)

/-- A run of digits, and no digit on either side of it, that names no signed word of 32 bits; it is
negated if a minus comes before it. -/
inductive BadInteger : List Char → List Char → Prop
  | mk {before ds tail : List Char} {negative : Bool} (hne : ds ≠ []) (hd : ∀ d ∈ ds, d.isDigit)
      (left : ∀ c ∈ before.getLast?, c.isDigit = false)
      (right : ∀ c ∈ tail.head?, c.isDigit = false) (sign : negative ↔ EndsIn '-' before)
      (value : Reader.signedValue negative ds < -2 ^ 31 ∨
        2 ^ 31 ≤ Reader.signedValue negative ds) :
      BadInteger before (ds ++ tail)

/-- The pseudo-classes that there are. -/
def Grammar.pseudoClassNames : List String :=
  plainClasses.map Prod.fst ++ countingClasses.map Prod.fst ++ ["not"]

/-- An identifier that names no pseudo-class, and its name in lower case. -/
inductive UnknownName : String → List Char → Prop
  | mk {cs spelled tail : List Char} {name : String} (h : Grammar.Identifier cs spelled tail)
      (lower : name = fold (String.ofList spelled)) (hne : name ≠ "") (folded : isFolded name)
      (unknown : name ∉ Grammar.pseudoClassNames) : UnknownName name cs

/-- What a cause says of the text in front of its place, which is `before`, and behind it.  No text
ends where a string or an escaped character should stand: both are read only where they begin. -/
def Cause.HoldsAt (before rest : List Char) : Cause → Prop
  | leftOver bytes => 0 < bytes ∧ byteLength rest = bytes
  | expected _ => 0 < byteLength rest
  | unexpectedEnd what =>
    byteLength rest = 0 ∧ what.text ≠ "escaped character" ∧ what.text ≠ "string"
  | unterminatedString => ∃ q ∈ rest.head?, q = '"' ∨ q = '\x27'
  | invalidEscape => BadEscape rest
  | invalidNth => EndsIn '(' before ∧ ∃ c ∈ rest.head?, isBlank c = false
  | integerOverflow => BadInteger before rest
  | unknownPseudoClass name => before.getLast? = some ':' ∧ UnknownName name rest
  | emptyNegation => EndsIn '(' before

/-- The fault is one of `whole`, and says what is so. -/
def Fault.HoldsIn (whole : List Char) (fault : Fault) : Prop :=
  ∃ before, before ++ fault.rest = whole ∧ fault.cause.HoldsAt before fault.rest

theorem byteLength_pos {cs : List Char} (h : cs ≠ []) : 0 < byteLength cs := by
  obtain ⟨c, ds, rfl⟩ := List.exists_cons_of_ne_nil h
  exact Nat.add_pos_left c.utf8Size_pos _

/-! ## What comes before -/

namespace EndsIn

variable {c d : Char} {before : List Char}

/-- Reading backwards over the blanks one comes to `c`. -/
theorem head?_blanks (h : EndsIn c before) (hc : isBlank c = false) :
    (Reader.blanks before.reverse).head? = some c := by
  obtain ⟨head, ws, rfl, hw⟩ := h
  have hrev : (head ++ c :: ws).reverse = ws.reverse ++ c :: head.reverse := by simp
  rw [hrev, Reader.blanks, Grammar.dropWhile_run (by simpa using hw) (by simpa using hc)]
  rfl

/-- Only one character comes last. -/
theorem unique (h : EndsIn c before) (h' : EndsIn d before) (hc : isBlank c = false)
    (hd : isBlank d = false) : c = d :=
  Option.some.inj ((h.head?_blanks hc).symm.trans (h'.head?_blanks hd))

theorem isDigit_getLast? (h : EndsIn c before) (hc : c.isDigit = false) :
    ∀ b ∈ before.getLast?, b.isDigit = false := by
  obtain ⟨head, ws, rfl, hw⟩ := h
  intro b hb
  rw [List.getLast?_append_cons] at hb
  obtain rfl | hmem := List.mem_cons.1 (List.mem_of_getLast? hb)
  · exact hc
  · exact Bool.eq_false_iff.2 fun hd => by
      have hblank := hw b hmem
      rw [isBlank_of_isNameChar (isNameChar_of_isDigit hd)] at hblank
      cases hblank

end EndsIn

namespace Reader

variable {whole cs ds : List Char} {c : Char}

/-- `cs` is an end of `whole`, and `c` comes before it, blanks aside. -/
def Follows (c : Char) (whole cs : List Char) : Prop :=
  ∃ before, EndsIn c before ∧ before ++ cs = whole

theorem Follows.suffix (h : Follows c whole cs) : cs <:+ whole := by
  obtain ⟨before, -, hw⟩ := h
  exact ⟨before, hw⟩

theorem follows_of_cons (h : c :: cs <:+ whole) : Follows c whole cs := by
  obtain ⟨head, hw⟩ := h
  exact ⟨head ++ [c], ⟨head, [], rfl, by simp⟩, by simpa using hw⟩

/-- **Skipping blanks keeps the character in front.** -/
theorem Follows.blanks (h : Follows c whole cs) : Follows c whole (blanks cs) := by
  obtain ⟨_, ⟨head, ws, rfl, hw⟩, hwhole⟩ := h
  obtain ⟨vs, hcs, hv⟩ := Grammar.blanks_sound cs
  refine ⟨head ++ c :: (ws ++ vs), ⟨head, ws ++ vs, rfl, fun b hb => ?_⟩, ?_⟩
  · exact (List.mem_append.1 hb).elim (hw b) (hv b)
  · rw [← hwhole]
    nth_rewrite 2 [hcs]
    simp

/-- Where a longest run ends, its class does. -/
theorem forall_head?_dropWhile (p : Char → Bool) (cs : List Char) :
    ∀ c ∈ (cs.dropWhile p).head?, p c = false := by
  intro c hc
  have h := List.head?_dropWhile_not p cs
  rw [hc] at h
  simpa using h

theorem blanks_suffix_of (h : cs <:+ whole) : blanks cs <:+ whole :=
  (blanks_suffix cs).trans h

theorem suffix_of_cons (h : c :: cs <:+ whole) : cs <:+ whole :=
  (List.suffix_cons c cs).trans h

/-! ## Faults that hold

The counterpart of `Leaves` for readers that fail. -/

/-- If `r` is a fault, it holds in `whole`. -/
def FaultsHold {α : Type} (whole : List Char) (r : Except Fault α) : Prop :=
  ∀ fault, r = .error fault → fault.HoldsIn whole

namespace FaultsHold

variable {α β : Type} {cause : Cause} {what : Wanted}

theorem ok {a : α} : FaultsHold whole (.ok a) := nofun

theorem of_holdsIn {fault : Fault} (h : fault.HoldsIn whole) :
    FaultsHold (α := α) whole (.error fault) := by
  rintro _ ⟨⟩; exact h

/-- What a cause says of the text behind its place alone. -/
theorem error (h : cs <:+ whole) (hc : ∀ before, cause.HoldsAt before cs) :
    FaultsHold (α := α) whole (.error ⟨cause, cs⟩) := by
  obtain ⟨before, hw⟩ := h
  exact .of_holdsIn ⟨before, hw, hc before⟩

/-- Something is missing, which is neither a string nor what a backslash escapes. -/
theorem missing (h : cs <:+ whole)
    (hw : what.text ≠ "escaped character" ∧ what.text ≠ "string") :
    FaultsHold (α := α) whole (.error (.missing what cs)) := by
  cases cs with
  | nil => exact .error h fun _ => ⟨rfl, hw⟩
  | cons c cs => exact .error h fun _ => byteLength_pos (List.cons_ne_nil c cs)

theorem map {f : α → β} {r : Except Fault α} (hr : FaultsHold whole r) :
    FaultsHold whole (r.map f) := by
  cases r with
  | error fault => exact .of_holdsIn (hr fault rfl)
  | ok a => exact .ok

/-- Reading on behind what `r` has read of `cs`. -/
theorem bind {r : Except Fault (α × List Char)} {k : α × List Char → Except Fault β}
    (hr : FaultsHold whole r) (hl : Leaves cs r) (h : cs <:+ whole)
    (hk : ∀ a ds, r = .ok (a, ds) → ds <:+ whole → FaultsHold whole (k (a, ds))) :
    FaultsHold whole (r >>= k) := by
  cases r with
  | error fault => exact .of_holdsIn (hr fault rfl)
  | ok p => exact hk p.1 p.2 rfl ((hl p.1 p.2 rfl).trans h)

end FaultsHold

/-! ## Escapes -/

/-- A code point names no character, or U+0000. -/
theorem scalar?_eq_none_iff {n : Nat} :
    scalar? n = none ↔ n = 0 ∨ (0xD800 ≤ n ∧ n ≤ 0xDFFF) ∨ 0x10FFFF < n := by
  rw [scalar?, ite_eq_right_iff]
  simp only [reduceCtorEq, imp_false, Nat.isValidChar]
  omega

/-- Digits that name no character are refused for their value: the other escapes all stand for
something. -/
theorem badEscape_of_escaped? {d : Char} (h : escaped? d ds = none) :
    BadEscape ('\\' :: d :: ds) := by
  rw [escaped?] at h
  split at h
  · next hd =>
    have hcs : '\\' :: (d :: moreDigits ds) ++ ds.drop (moreDigits ds).length =
        '\\' :: d :: ds := by
      rw [List.cons_append, List.cons_append, Grammar.moreDigits_append_drop]
    rw [← hcs]
    refine .mk (List.cons_ne_nil _ _) (Nat.succ_le_succ (Grammar.length_moreDigits_le ds)) ?_ ?_
      (scalar?_eq_none_iff.1 h)
    · rintro e (_ | ⟨_, he⟩)
      · exact hd
      · exact List.mem_takeWhile_imp he
    · exact (Grammar.longest_moreDigits ds).imp_left fun hl => by rw [List.length_cons, hl]
  · cases h

/-- **An escape that a backslash begins is not cut short**: no text ends in it, and no line. -/
theorem escape_faultsHold (h : '\\' :: cs <:+ whole) (he : escapes cs) :
    FaultsHold whole (escape ('\\' :: cs)) := by
  cases cs with
  | nil => cases he
  | cons d ds =>
    rw [Grammar.escape_cons (by simpa [escapes] using he)]
    split
    · exact .ok
    · next hn => exact .error h fun _ => badEscape_of_escaped? hn

/-! ## Lexemes -/

/-- The faults of a run are those of its escapes. -/
theorem nameRun_faultsHold (h : cs <:+ whole) : FaultsHold whole (nameRun cs) := by
  fun_induction nameRun cs with
  | case1 | case5 => exact .ok
  | case2 _ _ _ ih => exact (ih (suffix_of_cons h)).map
  | case3 _ _ _ _ _ _ he ih => exact (ih ((escape_suffix he).trans (suffix_of_cons h))).map
  | case4 _ _ _ hb fault he =>
    obtain ⟨rfl, hesc⟩ := hb
    exact .of_holdsIn (escape_faultsHold h hesc fault he)

/-- An identifier is missing where none begins, be it at the end of the text. -/
theorem identifier_faultsHold (h : cs <:+ whole) : FaultsHold whole (identifier cs) := by
  unfold identifier
  split
  · exact (nameRun_faultsHold h).map
  · exact .missing h (by decide)

theorem name_faultsHold (h : cs <:+ whole) : FaultsHold whole (name cs) := by
  unfold name
  split
  · next hr => exact .missing ((nameRun_leaves cs _ _ hr).trans h) (by decide)
  · exact .ok
  · next fault hr => exact .of_holdsIn (nameRun_faultsHold h fault hr)

/-- An unterminated string is reported where it began, which is `start`. -/
theorem stringBody_faultsHold {q : Char} {start : List Char} (hs : start <:+ whole)
    (hq : ∃ q ∈ start.head?, q = '"' ∨ q = '\x27') (h : cs <:+ whole) :
    FaultsHold whole (stringBody q start cs) := by
  fun_induction stringBody q start cs with
  | case1 | case3 | case8 => exact .error hs fun _ => hq
  | case2 => exact .ok
  | case4 _ _ ih => exact ih (suffix_of_cons (suffix_of_cons (suffix_of_cons h)))
  | case5 _ _ _ _ _ ih => exact ih (suffix_of_cons (suffix_of_cons h))
  | case6 _ _ _ _ _ _ _ he ih => exact (ih ((escape_suffix he).trans (suffix_of_cons h))).map
  | case7 d ds _ hn fault _ he =>
    exact .of_holdsIn (escape_faultsHold h (by simpa [escapes] using hn) fault he)
  | case9 _ _ _ _ _ ih => exact (ih (suffix_of_cons h)).map

/-- A string is read from its quote on, and that is where it is unterminated. -/
theorem string_faultsHold (h : cs <:+ whole) (hq : ∃ q ∈ cs.head?, isQuote q) :
    FaultsHold whole (string cs) := by
  obtain ⟨q, hc, hq⟩ := hq
  obtain ⟨ds, rfl⟩ := List.head?_eq_some_iff.1 hc
  exact (stringBody_faultsHold h ⟨q, hc, Grammar.isQuote_iff.1 hq⟩ (suffix_of_cons h)).map

/-- A value is missing where neither a quote nor an identifier begins. -/
theorem attributeValue_faultsHold (h : cs <:+ whole) :
    FaultsHold whole (attributeValue cs) := by
  unfold attributeValue
  split
  · exact .missing h (by decide)
  · split
    · next hq => exact string_faultsHold h ⟨_, rfl, hq⟩
    · split
      · exact identifier_faultsHold h
      · exact .missing h (by decide)

theorem expect_faultsHold {what : Wanted} (h : cs <:+ whole)
    (hw : what.text ≠ "escaped character" ∧ what.text ≠ "string") :
    FaultsHold whole (expect c what cs) := by
  unfold expect
  split
  · exact .missing h hw
  · split
    · exact .ok
    · exact .missing h hw

/-- Reading on behind an expected character. -/
theorem FaultsHold.bind_expect {α : Type} {what : Wanted} {k : List Char → Except Fault α}
    (h : cs <:+ whole) (hw : what.text ≠ "escaped character" ∧ what.text ≠ "string")
    (hk : ∀ rest, c :: rest <:+ whole → FaultsHold whole (k rest)) :
    FaultsHold whole (expect c what cs >>= k) := by
  cases he : expect c what cs with
  | error fault => exact .of_holdsIn (expect_faultsHold h hw fault he)
  | ok rest => exact hk rest (Grammar.expect_eq_ok.1 he ▸ h)

/-! ## Attributes -/

theorem comparison_faultsHold (h : cs <:+ whole) : FaultsHold whole (comparison cs) := by
  unfold comparison
  split
  · exact .missing h (by decide)
  · split
    · exact .ok
    · split
      · exact .missing h (by decide)
      · exact (expect_faultsHold (suffix_of_cons h) (by decide)).map

/-- **The faults behind a key say what is so.** -/
theorem attributeTest_faultsHold (h : cs <:+ whole) : FaultsHold whole (attributeTest cs) := by
  unfold attributeTest
  split
  · exact .ok
  · refine (comparison_faultsHold h).bind (comparison_leaves cs) h fun how ds _ hd => ?_
    have hd := blanks_suffix_of hd
    refine (attributeValue_faultsHold hd).bind (attributeValue_leaves _) hd fun v es _ he => ?_
    exact .bind_expect (blanks_suffix_of he) (by decide) fun _ _ => .ok

/-- **The faults of an attribute selector say what is so.** -/
theorem attributeSelector_faultsHold (h : cs <:+ whole) :
    FaultsHold whole (attributeSelector cs) := by
  have h := blanks_suffix_of h
  unfold attributeSelector
  refine (identifier_faultsHold h).bind (identifier_leaves _) h fun key ds _ hd => ?_
  have hd := blanks_suffix_of hd
  exact (attributeTest_faultsHold hd).bind (attributeTest_leaves _) hd fun _ _ _ _ => .ok

/-! ## Formulas

An integer is reported where its digits begin, any other form where the argument does, which is
`start`.  Before the digits comes a sign, or the parenthesis of the argument. -/

/-- No signed word of 32 bits is an integer below `-2³¹`, or from `2³¹` on. -/
theorem word?_eq_none_iff {i : Int} : word? i = none ↔ i < -2 ^ 31 ∨ 2 ^ 31 ≤ i := by
  have hmin : Int32.minValue.toInt = -2 ^ 31 := rfl
  have hmax : Int32.maxValue.toInt = 2 ^ 31 - 1 := rfl
  rw [word?, dite_eq_right_iff]
  simp only [reduceCtorEq, imp_false, hmin, hmax]
  omega

/-- **An integer out of range is told by its digits and its sign**: the caller hands down what comes
before, which is the parenthesis or a sign. -/
theorem integer_faultsHold {negative : Bool} (hc : c = '(' ∨ c = '+' ∨ c = '-')
    (hm : negative ↔ c = '-') (h : Follows c whole cs) (hs : startsDigits cs) :
    FaultsHold whole (integer negative cs) := by
  have hblank : isBlank c = false := by obtain rfl | rfl | rfl := hc <;> rfl
  have hdigit : c.isDigit = false := by obtain rfl | rfl | rfl := hc <;> rfl
  unfold integer
  split
  · exact .ok
  · next hn =>
    obtain ⟨before, hb, hw⟩ := h
    obtain ⟨d, ds, rfl, hd⟩ := Grammar.startsDigits_iff.1 hs
    have hsign : negative ↔ EndsIn '-' before :=
      hm.trans ⟨fun he => he ▸ hb, fun hminus => hb.unique hminus hblank rfl⟩
    have hrun : (d :: ds).takeWhile Char.isDigit ≠ [] := by
      rw [List.takeWhile_cons_of_pos hd]
      exact List.cons_ne_nil _ _
    have hbad : BadInteger before ((d :: ds).takeWhile Char.isDigit ++ _) :=
      .mk hrun (fun _ => List.mem_takeWhile_imp) (hb.isDigit_getLast? hdigit)
        (forall_head?_dropWhile Char.isDigit (d :: ds)) hsign (word?_eq_none_iff.1 hn)
    rw [List.takeWhile_append_dropWhile] at hbad
    exact .of_holdsIn ⟨before, hw, hbad⟩

/-- What follows the counter is behind a sign, or it is no part of the formula. -/
theorem offset_faultsHold {start : List Char} {a : Int32}
    (hstart : Fault.HoldsIn whole ⟨.invalidNth, start⟩) (h : cs <:+ whole) :
    FaultsHold whole (offset start a cs) := by
  unfold offset
  split
  · exact .ok
  · next c ds he =>
    have hcons : c :: ds <:+ whole := he ▸ blanks_suffix_of h
    split
    · next hc =>
      split
      · next hs =>
        have hb := (follows_of_cons hcons).blanks
        exact (integer_faultsHold (.inr hc) decide_eq_true_iff hb hs).map
      · exact .of_holdsIn hstart
    · exact .ok

/-- What is no formula is reported at its first character, which the caller has seen; an integer at
its own place. -/
theorem step_faultsHold {start : List Char} {negative : Bool} (hc : c = '(' ∨ c = '+' ∨ c = '-')
    (hm : negative ↔ c = '-') (hstart : Fault.HoldsIn whole ⟨.invalidNth, start⟩)
    (h : Follows c whole cs) : FaultsHold whole (step start negative cs) := by
  unfold step
  split
  · exact .of_holdsIn hstart
  · next d ds =>
    split
    · next hd =>
      split
      · next fault hi =>
        have hs : startsDigits (d :: ds) := Grammar.startsDigits_iff.2 ⟨d, ds, rfl, hd⟩
        exact .of_holdsIn (integer_faultsHold hc hm h hs fault hi)
      · exact .ok
      · next hi =>
        split
        · have hr := (integer_leaves _ _ _ _ hi).trans h.suffix
          exact offset_faultsHold hstart (suffix_of_cons hr)
        · exact .ok
    · split
      · exact offset_faultsHold hstart (suffix_of_cons h.suffix)
      · exact .of_holdsIn hstart

/-- A word that is none of the two is reported where it begins. -/
theorem keyword_faultsHold (hstart : Fault.HoldsIn whole ⟨.invalidNth, cs⟩) (h : cs <:+ whole) :
    FaultsHold whole (keyword cs) := by
  unfold keyword
  split
  · next fault hn => exact .of_holdsIn (name_faultsHold h fault hn)
  · split
    · exact .ok
    · exact .of_holdsIn hstart

/-- **A formula is read behind its parenthesis**, and the blanks there are behind. -/
theorem formula_faultsHold (h : Follows '(' whole cs)
    (hb : ∀ c ∈ cs.head?, isBlank c = false) : FaultsHold whole (formula cs) := by
  unfold formula
  split
  · exact .missing h.suffix (by decide)
  · next c ds =>
    have hstart : Fault.HoldsIn whole ⟨.invalidNth, c :: ds⟩ := by
      obtain ⟨before, hp, hw⟩ := h
      exact ⟨before, hw, hp, c, rfl, hb c rfl⟩
    have hcons := h.suffix
    repeat' split
    · next hc =>
      subst hc
      exact step_faultsHold (.inr (.inr rfl)) (by decide) hstart (follows_of_cons hcons)
    · next hc =>
      subst hc
      exact step_faultsHold (.inr (.inl rfl)) (by decide) hstart (follows_of_cons hcons)
    · exact step_faultsHold (.inl rfl) (by decide) hstart h
    · exact offset_faultsHold hstart (suffix_of_cons hcons)
    · exact keyword_faultsHold hstart hcons
    · exact .of_holdsIn hstart

/-! ## Pieces -/

theorem front_faultsHold (h : cs <:+ whole) : FaultsHold whole (front cs) := by
  unfold front
  split
  · exact .ok
  · split
    · exact (identifier_faultsHold h).map
    · exact .ok

/-- **The faults of an argument say what is so**: the parenthesis is in front of it. -/
theorem argument_faultsHold (h : cs <:+ whole) : FaultsHold whole (argument cs) := by
  unfold argument
  refine .bind_expect h (by decide) fun ds hd => ?_
  have hd := (follows_of_cons hd).blanks
  have hf := formula_faultsHold hd (forall_head?_dropWhile isBlank ds)
  refine hf.bind (formula_leaves _) hd.suffix fun f es _ he => ?_
  exact .bind_expect (blanks_suffix_of he) (by decide) fun _ _ => .ok

/-- A name that is not found is none of those that there are; it is not empty either, since an
identifier is not. -/
theorem unknownName_of_identifier {name : String} {rest : List Char}
    (h : identifier cs = .ok (name, rest)) (hn : pseudoClass? (fold name) = none) :
    UnknownName (fold name) cs := by
  obtain ⟨spelled, hs, rfl⟩ := Grammar.identifier_sound h
  refine .mk hs rfl ?_ (isFolded_fold _) fun hmem => ?_
  · have hne : spelled ≠ [] := by cases hs <;> exact List.cons_ne_nil _ _
    rw [← String.toList_inj.ne]
    simpa using hne
  · generalize fold (String.ofList spelled) = found at hn hmem
    fin_cases hmem <;> cases hn

/-- **The faults behind a colon say what is so**, an unknown name included. -/
theorem pseudo_faultsHold (h : ':' :: cs <:+ whole) : FaultsHold whole (pseudo cs) := by
  have hcs := suffix_of_cons h
  unfold pseudo
  refine (identifier_faultsHold hcs).bind (identifier_leaves cs) hcs fun name ds hi hd => ?_
  dsimp only
  split
  · next hn =>
    obtain ⟨head, hw⟩ := h
    refine .of_holdsIn ⟨head ++ [':'], by simpa using hw, ?_, unknownName_of_identifier hi hn⟩
    exact List.getLast?_concat
  · exact .ok
  · exact (argument_faultsHold hd).bind (argument_leaves ds) hd fun _ _ _ _ => .ok
  · refine .bind_expect hd (by decide) fun es he => ?_
    have he := blanks_suffix_of (suffix_of_cons he)
    exact (front_faultsHold he).bind (front_leaves _) he fun _ _ _ _ => .ok

/-- **The faults of a piece say what is so**, whichever mark it begins with. -/
theorem next?_faultsHold {r : Except Fault (Piece × List Char)} (h : cs <:+ whole)
    (hr : next? cs = some r) : FaultsHold whole r := by
  cases cs with
  | nil => cases hr
  | cons c cs =>
    have hcs := suffix_of_cons h
    rw [next?, piece?.eq_def] at hr
    split at hr <;> cases hr
    · exact (name_faultsHold hcs).map
    · exact (identifier_faultsHold hcs).map
    · exact (attributeSelector_faultsHold hcs).map
    · exact pseudo_faultsHold h

theorem next?_suffix {cs rest : List Char} {p : Piece} (h : next? cs = some (.ok (p, rest))) :
    rest <:+ cs := by
  cases cs with
  | nil => cases h
  | cons c cs => exact (piece?_leaves h p rest rfl).trans (List.suffix_cons c cs)

/-! ## Negations

A negation can only be empty where it was opened just before. -/

/-- Where there is no front nothing has been read. -/
theorem front_eq_none {rest : List Char} (h : front cs = .ok (none, rest)) : rest = cs := by
  unfold front at h
  split at h
  · cases h
  · split at h
    · obtain ⟨_, -, hf⟩ := mapRead_eq_ok.1 h
      cases hf
    · cases h
      rfl

/-- A negation that is opened without a front has only its parenthesis in front. -/
theorem pseudo_opening {rest : List Char} (h : ':' :: cs <:+ whole)
    (hp : pseudo cs = .ok (.opening none, rest)) : Follows '(' whole rest := by
  obtain ⟨⟨name, ds⟩, hi, hp⟩ := Grammar.bind_eq_ok.1 hp
  have hd := (identifier_leaves cs _ _ hi).trans (suffix_of_cons h)
  dsimp only at hp
  split at hp
  · cases hp
  · cases hp
  · obtain ⟨_, -, hf⟩ := Grammar.bind_eq_ok.1 hp
    cases hf
  · obtain ⟨es, he, hp⟩ := Grammar.bind_eq_ok.1 hp
    obtain ⟨⟨f, fs⟩, hf, hp⟩ := Grammar.bind_eq_ok.1 hp
    cases hp
    rw [Grammar.expect_eq_ok.1 he] at hd
    exact front_eq_none hf ▸ (follows_of_cons hd).blanks

/-- A negation that opens on no front stands right behind its parenthesis. -/
theorem next?_opening {rest : List Char} (h : cs <:+ whole)
    (hn : next? cs = some (.ok (.opening none, rest))) : Follows '(' whole rest := by
  obtain ⟨_, hp, -⟩ | ⟨_, ds, rfl, -, -⟩ := Grammar.next?_sound hn
  · cases hp
  · exact pseudo_opening h (Option.some.inj hn)

/-- **A negation is empty behind its parenthesis**, blanks aside; else the closing one is
missing. -/
theorem closing_faultsHold {read : Option Selector} (h : cs <:+ whole)
    (hopen : read = none → Follows '(' whole cs) : FaultsHold whole (closing read cs) := by
  cases read with
  | none =>
    obtain ⟨before, hb, hw⟩ := hopen rfl
    exact .of_holdsIn ⟨before, hw, hb⟩
  | some r => exact (expect_faultsHold (blanks_suffix_of h) (by decide)).map

theorem closing_suffix {read : Option Selector} {s : Selector} {cs rest : List Char}
    (h : closing read cs = .ok (s, rest)) : rest <:+ cs := by
  cases read with
  | none => cases h
  | some r =>
    obtain ⟨ds, he, h⟩ := Grammar.map_eq_ok.1 h
    cases h
    exact (expect_suffix he).trans (blanks_suffix cs)

/-! ## Sequences -/

/-- The state that is kept: where nothing has been read of an open negation, its parenthesis is just
in front. -/
theorem sequence_faultsHold {outer : List (Option Selector)} {read : Option Selector}
    (h : cs <:+ whole) (hopen : outer ≠ [] → read = none → Follows '(' whole cs) :
    FaultsHold whole (sequence outer read cs) := by
  fun_induction sequence outer read cs with
  | case1 _ _ _ fault hp => exact .of_holdsIn (next?_faultsHold h hp fault rfl)
  | case2 _ _ _ _ _ hp ih => exact ih ((next?_suffix hp).trans h) nofun
  | case3 _ _ _ _ _ hp ih =>
    exact ih ((next?_suffix hp).trans h) fun _ hread => next?_opening h (hread ▸ hp)
  | case4 => exact .ok
  | case5 _ _ _ hne => exact .error h fun _ => ⟨byteLength_pos hne, rfl⟩
  | case6 _ _ _ _ _ fault hc =>
    exact .of_holdsIn (closing_faultsHold h (hopen (List.cons_ne_nil _ _)) fault hc)
  | case7 _ _ _ _ _ _ _ hc ih => exact ih ((closing_suffix hc).trans h) nofun

/-- **A fault of a text holds in it**: it lies there, and what its cause says is so. -/
theorem selector_faultsHold (cs : List Char) : FaultsHold cs (selector cs) :=
  (front_faultsHold List.suffix_rfl).bind (front_leaves cs) List.suffix_rfl fun _ _ _ h =>
    sequence_faultsHold h fun hne => absurd rfl hne

/-- A fault lies in the text that is read. -/
theorem selector_faultsIn (cs : List Char) (fault : Fault) (h : selector cs = .error fault) :
    fault.rest <:+ cs := by
  obtain ⟨before, hw, -⟩ := selector_faultsHold cs fault h
  exact ⟨before, hw⟩

end Reader

end TreeSelectors
