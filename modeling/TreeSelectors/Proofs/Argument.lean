import Mathlib
import TreeSelectors.Proofs.Diagnosis
import TreeSelectors.Proofs.Reading.Magnitude

/-!
# Proofs/Argument — the integers of `an+b` are exact, or reported

An argument is written with digits at up to two places (`Argument.runs`), of any number and with any
zeros in front.  Where every integer so written is a word of 32 bits, the argument says just these;
else the digits of the first that is none are reported.  Either way the reader tells by the exact
value, since nothing wraps on words of 64 bits.
-/

namespace TreeSelectors

open Text

/-! ## Integers out of range -/

namespace Grammar

/-- Digits that name no signed word of 32 bits behind their sign. -/
inductive Overflow (negative : Bool) : List Char → Prop
  | mk {ds rest : List Char} (hne : ds ≠ []) (hd : ∀ d ∈ ds, d.isDigit)
      (hr : ∀ c ∈ rest.head?, c.isDigit = false)
      (value : Reader.word? (Reader.signedValue negative ds) = none) :
      Overflow negative (ds ++ rest)

variable {cs ds es fs gs rest : List Char} {negative minus : Bool}

theorem Overflow.startsDigits (h : Overflow negative cs) : Reader.startsDigits cs := by
  obtain ⟨hne, hd, -, -⟩ := h
  obtain ⟨d, ds, rfl⟩ := List.exists_cons_of_ne_nil hne
  exact startsDigits_iff.2 ⟨d, _, rfl, hd d List.mem_cons_self⟩

theorem Overflow.integer (h : Overflow negative cs) :
    Reader.integer negative cs = .error ⟨.integerOverflow, cs⟩ := by
  obtain ⟨-, hd, hr, hvalue⟩ := h
  rw [Reader.integer, takeWhile_run hd hr, hvalue]

/-- **An integer out of range is reported** before anything is read behind it. -/
theorem Overflow.formula (hs : OptionalSign cs negative ds) (h : Overflow negative ds) :
    Reader.formula cs = .error ⟨.integerOverflow, ds⟩ := by
  obtain ⟨d, gs, rfl, hd⟩ := startsDigits_iff.1 h.startsDigits
  rw [hs.complete ⟨d, gs, rfl, .inl hd⟩, Reader.step.eq_def]
  simp only [hd, if_true, h.integer]

/-- …behind a counter as well. -/
theorem Overflow.formula_offset {a : Int32} (hs : OptionalSign cs negative ds)
    (ha : Step negative ds a es) (hb : Blanks es fs) (hm : Sign fs minus gs) (hb' : Blanks gs rest)
    (h : Overflow minus rest) : Reader.formula cs = .error ⟨.integerOverflow, rest⟩ := by
  rw [hs.complete ha.startsStep, ha.complete, offset_signed hb hm hb' h.startsDigits, h.integer]
  rfl

end Grammar

/-! ## How an argument is written -/

/-- Decimal digits, one or more, zeros in front included. -/
structure DigitRun where
  chars : List Char
  ne_nil : chars ≠ []
  isDigit : ∀ d ∈ chars, d.isDigit

/-- Blanks, or none. -/
structure BlankRun where
  chars : List Char
  isBlank : ∀ c ∈ chars, isBlank c

/-- A sign, which is a minus or a plus. -/
def signChar (minus : Bool) : Char :=
  if minus then '-' else '+'

/-- The letter of the counter. -/
def counterChar (capital : Bool) : Char :=
  if capital then 'N' else 'n'

/-- What may follow the counter: a sign, blanks standing around it, and digits. -/
structure Argument.Tail where
  before : BlankRun
  minus : Bool
  behind : BlankRun
  digits : DigitRun

/-- An integer, or `an+b`: where a sign, a coefficient or a tail is missing, there is `none`. -/
inductive Argument
  | constant (minus? : Option Bool) (digits : DigitRun)
  | counting (minus? : Option Bool) (coefficient? : Option DigitRun) (capital : Bool)
      (tail? : Option Argument.Tail)

/-- Digits in an argument: what is written in front of them, and whether they stand behind a
minus. -/
structure Argument.Run where
  front : List Char
  minus : Bool
  digits : DigitRun

namespace Argument

/-- The integer that digits name behind their sign. -/
def Run.value (r : Run) : Int :=
  Reader.signedValue r.minus r.digits.chars

/-- Whether a signed word of 32 bits has this value. -/
def Run.inRange (r : Run) : Bool :=
  -2147483648 ≤ r.value && r.value ≤ 2147483647

/-- A sign as it is written, or nothing. -/
def signText (minus? : Option Bool) : List Char :=
  (minus?.map signChar).toList

/-- A coefficient as it is written, or nothing. -/
def coefficientText (coefficient? : Option DigitRun) : List Char :=
  coefficient?.elim [] DigitRun.chars

/-- What is written of a tail in front of its digits. -/
def Tail.front (t : Tail) : List Char :=
  t.before.chars ++ signChar t.minus :: t.behind.chars

/-- A tail as it is written, or nothing. -/
def tailText (tail? : Option Tail) : List Char :=
  tail?.elim [] fun t => t.front ++ t.digits.chars

/-- The text of an argument. -/
def text : Argument → List Char
  | constant minus? digits => signText minus? ++ digits.chars
  | counting minus? coefficient? capital tail? =>
    signText minus? ++ (coefficientText coefficient? ++ counterChar capital :: tailText tail?)

/-- The first digits of an argument, if it does not begin with its counter. -/
def leadRun? : Argument → Option Run
  | constant minus? digits => some ⟨signText minus?, minus?.getD false, digits⟩
  | counting minus? coefficient? _ _ =>
    coefficient?.map fun digits => ⟨signText minus?, minus?.getD false, digits⟩

/-- The digits of its tail, if it has one. -/
def tailRun? : Argument → Option Run
  | constant _ _ => none
  | counting minus? coefficient? capital tail? => tail?.map fun t =>
    ⟨signText minus? ++ (coefficientText coefficient? ++ counterChar capital :: t.front), t.minus,
      t.digits⟩

/-- The digits in an argument, from left to right. -/
def runs (t : Argument) : List Run :=
  t.leadRun?.toList ++ t.tailRun?.toList

/-- The step that an argument says, which is one if it has no coefficient. -/
def step : Argument → Int
  | constant _ _ => 0
  | counting minus? none _ _ => if minus?.getD false then -1 else 1
  | counting minus? (some digits) _ _ => Reader.signedValue (minus?.getD false) digits.chars

/-- The offset that an argument says, which is zero if it has no tail. -/
def offset : Argument → Int
  | constant minus? digits => Reader.signedValue (minus?.getD false) digits.chars
  | counting _ _ _ none => 0
  | counting _ _ _ (some t) => Reader.signedValue t.minus t.digits.chars

theorem Run.word?_eq_none_iff {r : Run} : Reader.word? r.value = none ↔ r.inRange = false := by
  rw [Reader.word?_eq_none_iff, inRange, Bool.and_eq_false_iff, decide_eq_false_iff_not,
    decide_eq_false_iff_not]
  omega

theorem Run.exists_word {r : Run} (h : r.inRange) : ∃ i : Int32, i.toInt = r.value := by
  obtain ⟨i, hi⟩ := Option.ne_none_iff_exists'.1 fun hn =>
    Bool.eq_false_iff.1 (word?_eq_none_iff.1 hn) h
  exact ⟨i, Grammar.word?_eq_some_iff.1 hi⟩

/-- The first run out of range is the lead, or the lead is in range and it is that of the tail. -/
theorem of_find?_runs {t : Argument} {r : Run} (h : t.runs.find? (fun r => !r.inRange) = some r) :
    r.inRange = false ∧
      (t.leadRun? = some r ∨ (∀ l ∈ t.leadRun?, l.inRange) ∧ t.tailRun? = some r) := by
  have hbad := List.find?_some h
  refine ⟨by simpa using hbad, ?_⟩
  rw [runs, List.find?_append, Option.or_eq_some_iff] at h
  obtain h | ⟨hlead, h⟩ := h
  · exact .inl (Option.mem_toList.1 (List.mem_of_find?_eq_some h))
  · refine .inr ⟨fun l hl => ?_, Option.mem_toList.1 (List.mem_of_find?_eq_some h)⟩
    simpa using List.find?_eq_none.1 hlead l (Option.mem_toList.2 hl)

end Argument

/-! ## Derivations -/

namespace Grammar

open Argument

variable {minus : Bool} {i : Int32}

theorem sign_signChar (minus : Bool) (rest : List Char) :
    Sign (signChar minus :: rest) minus rest := by
  cases minus with
  | false => exact .plus
  | true => exact .minus

theorem optionalSign_signText (minus? : Option Bool) (rest : List Char) :
    OptionalSign (signText minus? ++ rest) (minus?.getD false) rest := by
  cases minus? with
  | none => exact .none
  | some minus => exact .some (sign_signChar minus rest)

theorem counter_counterChar (capital : Bool) (rest : List Char) :
    Counter (counterChar capital :: rest) rest := by
  cases capital with
  | false => exact .lower
  | true => exact .upper

/-- Zeros in front change nothing: any digits of the value derive it. -/
theorem integer_digits {negative : Bool} {i : Int32} (digits : DigitRun)
    (h : i.toInt = Reader.signedValue negative digits.chars) (rest : List Char) :
    Integer negative (digits.chars ++ rest) i rest :=
  .mk digits.ne_nil digits.isDigit (h.trans (signedValue_eq_number _ digits.isDigit))

/-- A coefficient in range is one, and so is a missing one. -/
theorem exists_step {minus? : Option Bool} {coefficient? : Option DigitRun} {capital : Bool}
    {tail? : Option Tail}
    (h : ∀ r ∈ (counting minus? coefficient? capital tail?).leadRun?, r.inRange)
    (rest : List Char) : ∃ a : Int32,
      Step (minus?.getD false) (coefficientText coefficient? ++ counterChar capital :: rest) a
        rest ∧ a.toInt = (counting minus? coefficient? capital tail?).step := by
  have hcounter := counter_counterChar capital rest
  cases coefficient? with
  | none =>
    refine ⟨_, .bare hcounter, ?_⟩
    rw [step]
    split <;> rfl
  | some digits =>
    obtain ⟨a, ha⟩ := Run.exists_word (h _ rfl)
    exact ⟨a, .coefficient (integer_digits digits ha _) hcounter, ha⟩

/-- A tail in range is an offset, and so is a missing one. -/
theorem exists_offset {minus? : Option Bool} {coefficient? : Option DigitRun} {capital : Bool}
    {tail? : Option Tail}
    (h : ∀ r ∈ (counting minus? coefficient? capital tail?).tailRun?, r.inRange)
    (rest : List Char) : ∃ b : Int32, Offset (tailText tail? ++ rest) b rest ∧
      b.toInt = (counting minus? coefficient? capital tail?).offset := by
  cases tail? with
  | none => exact ⟨0, .none, rfl⟩
  | some t =>
    obtain ⟨b, hb⟩ := Run.exists_word (h _ rfl)
    refine ⟨b, ?_, hb⟩
    rw [tailText, Option.elim_some, Tail.front, List.append_assoc, List.append_assoc]
    exact .some ⟨_, rfl, t.before.isBlank⟩ (sign_signChar t.minus _) ⟨_, rfl, t.behind.isBlank⟩
      (integer_digits t.digits hb rest)

/-- **An argument with every integer in range is derived**, and says just these. -/
theorem exists_formula {t : Argument} (h : ∀ r ∈ t.runs, r.inRange) (rest : List Char) :
    ∃ f, Formula (t.text ++ rest) f rest ∧ f.step.toInt = t.step ∧ f.offset.toInt = t.offset := by
  have hlead : ∀ r ∈ t.leadRun?, r.inRange := fun r hr =>
    h r (List.mem_append_left _ (Option.mem_toList.2 hr))
  have htail : ∀ r ∈ t.tailRun?, r.inRange := fun r hr =>
    h r (List.mem_append_right _ (Option.mem_toList.2 hr))
  cases t with
  | constant minus? digits =>
    obtain ⟨b, hb⟩ := Run.exists_word (hlead _ rfl)
    refine ⟨⟨0, b⟩, ?_, rfl, hb⟩
    rw [text, List.append_assoc]
    exact .constant (optionalSign_signText minus? _) (integer_digits digits hb rest)
  | counting minus? coefficient? capital tail? =>
    obtain ⟨a, hstep, ha⟩ := exists_step hlead (tailText tail? ++ rest)
    obtain ⟨b, hoffset, hb⟩ := exists_offset htail rest
    refine ⟨⟨a, b⟩, ?_, ha, hb⟩
    rw [text, List.append_assoc, List.append_assoc]
    exact .counting (optionalSign_signText minus? _) hstep hoffset

/-- Digits of a run out of range. -/
theorem overflow_digits {r : Run} (h : r.inRange = false) {rest : List Char}
    (hr : ∀ c ∈ rest.head?, c.isDigit = false) : Overflow r.minus (r.digits.chars ++ rest) :=
  .mk r.digits.ne_nil r.digits.isDigit hr (Run.word?_eq_none_iff.2 h)

/-- **The first integer out of range is reported**, where its digits begin. -/
theorem formula_overflow {t : Argument} {r : Run}
    (h : t.runs.find? (fun r => !r.inRange) = some r) {rest : List Char}
    (hr : ∀ c ∈ rest.head?, c.isDigit = false) : ∃ after,
      t.text ++ rest = r.front ++ (r.digits.chars ++ after) ∧
        Reader.formula (t.text ++ rest) = .error ⟨.integerOverflow, r.digits.chars ++ after⟩ := by
  obtain ⟨hbad, hplace⟩ := of_find?_runs h
  cases t with
  | constant minus? digits =>
    obtain hlead | ⟨-, htail⟩ := hplace
    · obtain rfl := Option.some.inj hlead
      refine ⟨rest, by simp [text], ?_⟩
      rw [text, List.append_assoc]
      exact (overflow_digits hbad hr).formula (optionalSign_signText minus? _)
    · cases htail
  | counting minus? coefficient? capital tail? =>
    obtain hlead | ⟨hlead, htail⟩ := hplace
    · obtain ⟨digits, rfl, rfl⟩ := Option.map_eq_some_iff.1 hlead
      refine ⟨counterChar capital :: (tailText tail? ++ rest), by simp [text, coefficientText], ?_⟩
      rw [text, List.append_assoc, List.append_assoc]
      refine Overflow.formula (optionalSign_signText minus? _) (overflow_digits hbad ?_)
      rintro _ ⟨⟩
      cases capital <;> rfl
    · obtain ⟨a, hstep, -⟩ := exists_step hlead (tailText tail? ++ rest)
      obtain ⟨t, rfl, rfl⟩ := Option.map_eq_some_iff.1 htail
      refine ⟨rest, by simp [text, tailText], ?_⟩
      have hb : Blanks (tailText (some t) ++ rest)
          (signChar t.minus :: (t.behind.chars ++ (t.digits.chars ++ rest))) :=
        ⟨t.before.chars, by simp [tailText, Tail.front], t.before.isBlank⟩
      rw [text, List.append_assoc, List.append_assoc]
      exact (overflow_digits hbad hr).formula_offset (optionalSign_signText minus? _) hstep hb
        (sign_signChar t.minus _) ⟨_, rfl, t.behind.isBlank⟩

/-! ## Counting pseudo-classes -/

/-- A counting pseudo-class is named in any letter case. -/
theorem identifier_countingClass {name : String} {fromEnd sameTag : Bool}
    (h : (fold name, fromEnd, sameTag) ∈ countingClasses) (rest : List Char) :
    Identifier (name.toList ++ rest) name.toList rest := by
  have hword : ∀ x ∈ countingClasses, x.1.toList.head?.any isNameStart ∧
      x.1.toList.all isNameChar := by decide +kernel
  obtain ⟨hstart, hall⟩ := hword _ h
  rw [toList_fold] at hstart hall
  cases hcs : name.toList with
  | nil =>
    rw [hcs] at hstart
    cases hstart
  | cons c cs =>
    rw [hcs, List.map_cons] at hstart hall
    refine identifier_word (isNameStart_of_toLower hstart) (List.all_eq_true.2 fun d hd => ?_) rest
    exact isNameChar_of_toLower
      (List.all_eq_true.1 hall _ (List.mem_cons_of_mem _ (List.mem_map_of_mem hd)))

/-- A fault in the argument is one of the pseudo-class. -/
theorem pseudo_of_argument_error {cs name ds : List Char} {fromEnd sameTag : Bool} {fault : Fault}
    (h : Identifier cs name ('(' :: ds))
    (hc : (lowered name, fromEnd, sameTag) ∈ countingClasses)
    (he : Reader.argument ('(' :: ds) = .error fault) : Reader.pseudo cs = .error fault := by
  rw [Reader.pseudo, h.complete (.cons rfl (by decide))]
  simp only [bind, Except.bind, fold_eq_lowered, pseudoClass?_counting.2 hc, he]

/-- A fault of the formula is one of the argument: there is nothing else to read before it. -/
theorem argument_of_formula_overflow {ds es rest : List Char} (hb : Blanks ds es)
    (he : Reader.formula es = .error ⟨.integerOverflow, rest⟩) :
    Reader.argument ('(' :: ds) = .error ⟨.integerOverflow, rest⟩ := by
  have hn : ∀ c ∈ es.head?, isBlank c = false := by
    intro c hc
    obtain ⟨fs, rfl⟩ := List.head?_eq_some_iff.1 hc
    refine Bool.eq_false_iff.2 fun hblank => ?_
    obtain rfl | rfl | hn := isBlank_iff.1 hblank
    · cases he
    · cases he
    · obtain rfl | rfl | rfl := isNewline_iff.1 hn <;> cases he
  rw [Reader.argument, expect_eq_ok.2 rfl]
  simp only [bind, Except.bind, blanks_complete hb hn, he]

/-- A fault of a pseudo-class is one of the whole text, if that begins with it. -/
theorem selector_of_pseudo_error {cs : List Char} {fault : Fault}
    (he : Reader.pseudo cs = .error fault) : Reader.selector (':' :: cs) = .error fault := by
  have hnext : Reader.next? (':' :: cs) = some (.error fault) := congrArg some he
  rw [selector_of_marked ⟨':', cs, rfl, by simp⟩, Reader.sequence_eq, hnext]

end Grammar

namespace Selector

/-- A counting pseudo-class, blanks standing around its argument. -/
def countingText (name : String) (before : BlankRun) (t : Argument) (behind : BlankRun) : String :=
  ":" ++ name ++ "(" ++ .ofList (before.chars ++ t.text ++ behind.chars) ++ ")"

theorem toList_countingText (name : String) (before : BlankRun) (t : Argument)
    (behind : BlankRun) : (countingText name before t behind).toList =
      ':' :: (name.toList ++ '(' :: (before.chars ++ (t.text ++ (behind.chars ++ [')'])))) := by
  simp [countingText]

/-- **The integers of `an+b` are exact, or reported.**  If every integer that is written is in
range, the selector counts by just these; else the error lies at the first digit of the first one
that is not.  Either way reading each on words of 64 bits comes to an answer, by its exact value. -/
theorem compile_argument_exact {name : String} {fromEnd sameTag : Bool}
    (h : (fold name, fromEnd, sameTag) ∈ Grammar.countingClasses) (before : BlankRun)
    (t : Argument) (behind : BlankRun) :
    ((∀ r ∈ t.runs, r.inRange) → ∃ f : Nth, f.step.toInt = t.step ∧ f.offset.toInt = t.offset ∧
      compile (countingText name before t behind) = .ok (.nthChild f fromEnd sameTag)) ∧
    (∀ r, t.runs.find? (fun r => !r.inRange) = some r →
      compile (countingText name before t behind) = .error ⟨countingText name before t behind,
        (":" ++ name ++ "(" ++ .ofList (before.chars ++ r.front)).utf8ByteSize,
        .integerOverflow⟩) ∧
    ∀ r ∈ t.runs, Reader.signedWord? r.minus r.digits.chars = some (Reader.word? r.value) := by
  have htext := toList_countingText name before t behind
  have hid := Grammar.identifier_countingClass h
  rw [← String.ofList_toList (s := name), Grammar.fold_eq_lowered] at h
  refine ⟨fun hrange => ?_, fun r hr => ?_, fun r _ => Reader.signedWord?_eq _ r.digits.isDigit⟩
  · obtain ⟨f, hf, hstep, hoffset⟩ := Grammar.exists_formula hrange (behind.chars ++ [')'])
    refine ⟨f, hstep, hoffset, compile_of_derives ?_⟩
    rw [htext]
    exact ⟨[_], .snoc (.front .none) (.counting (hid _) h ⟨_, rfl, before.isBlank⟩ hf
      ⟨_, rfl, behind.isBlank⟩), rfl⟩
  · have hclose : Grammar.Blanks (behind.chars ++ [')']) [')'] := ⟨_, rfl, behind.isBlank⟩
    obtain ⟨after, hsplit, hformula⟩ :=
      Grammar.formula_overflow hr (Grammar.endsName_of_closing hclose).not_isDigit
    have hargument := Grammar.argument_of_formula_overflow ⟨_, rfl, before.isBlank⟩ hformula
    have hselector := Grammar.selector_of_pseudo_error
      (Grammar.pseudo_of_argument_error (hid _) h hargument)
    rw [← htext] at hselector
    refine compile_eq_error_iff.2 ⟨_, hselector, ?_⟩
    have hplace : (countingText name before t behind).toList =
        (":" ++ name ++ "(" ++ .ofList (before.chars ++ r.front)).toList ++
          (r.digits.chars ++ after) := by
      rw [htext, hsplit]
      simp
    rw [ofFault_eq hplace, byteLength_toList]

/-- …as at the least word, which has a zero in front, and one below it. -/
theorem compile_argument_exact_least :
    (fold "NTH-Last-Child", true, false) ∈ Grammar.countingClasses ∧
      (∃ f : Nth, f.step.toInt = -1 ∧ f.offset.toInt = -2147483648 ∧
        compile ":NTH-Last-Child( -N - 02147483648)" = .ok (.nthChild f true false)) ∧
      compile ":NTH-Last-Child( -N - 02147483649)" =
        .error ⟨":NTH-Last-Child( -N - 02147483649)", 22, .integerOverflow⟩ := by
  have h : (fold "NTH-Last-Child", true, false) ∈ Grammar.countingClasses := by decide +kernel
  have hdigits (digits : DigitRun) := compile_argument_exact h ⟨[' '], by simp [isBlank]⟩
    (.counting (some true) none true
      (some ⟨⟨[' '], by simp [isBlank]⟩, true, ⟨[' '], by simp [isBlank]⟩, digits⟩))
    ⟨[], by simp⟩
  obtain ⟨f, hstep, hoffset, hexact⟩ := (hdigits ⟨['0', '2', '1', '4', '7', '4', '8', '3', '6', '4',
    '8'], by simp, by simp⟩).1 (List.forall_mem_singleton.2 rfl)
  have hreported := (hdigits ⟨['0', '2', '1', '4', '7', '4', '8', '3', '6', '4', '9'], by simp,
    by simp⟩).2.1 _ rfl
  refine ⟨h, ⟨f, hstep, hoffset, ?_⟩, ?_⟩
  · exact (congrArg compile (by decide +kernel)).trans hexact
  · exact (congrArg compile (by decide +kernel)).trans (hreported.trans (by decide +kernel))

end Selector

end TreeSelectors
