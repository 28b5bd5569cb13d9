import TreeSelectors.Proofs.NormalForm
import TreeSelectors.Selector.Printer

/-!
# Proofs/Grammar — the language of selectors, as rules

Each rule relates a text `cs`, the value of what stands at its beginning, and the text `rest` that
follows.  The rules say nothing of how to find a derivation: what a production may be followed by is
part of the production above it.  The one place where a rule looks ahead is the end of an escape,
whose digits are the *longest* run and whose blank belongs to it.

What a derivation denotes is said by the rules too: `lowered` gives the names that ignore case, and
`number` the value of digits in either base.
-/

namespace TreeSelectors

open Text

namespace Grammar

/-! ## Letter case and digits -/

/-- The name with a small letter for each capital from `A` to `Z`. -/
def lowered (name : List Char) : String :=
  String.ofList (name.map Char.toLower)

/-- The digits by their values.  A hexadecimal digit above nine is a letter, in either case. -/
def digits : List Char :=
  ['0', '1', '2', '3', '4', '5', '6', '7', '8', '9', 'a', 'b', 'c', 'd', 'e', 'f']

/-- The number that `ds` names in the given base, its last digit being the one of least weight. -/
def number (base : ℕ) (ds : List Char) : ℕ :=
  Nat.ofDigits base (ds.reverse.map fun d => digits.idxOf d.toLower)

/-- Folding the text of a name lowers it. -/
theorem fold_eq_lowered (name : List Char) : fold (String.ofList name) = lowered name := by
  rw [fold, String.toList_ofList, lowered]

/-- A tag that is built of a name has the name lowered… -/
theorem ofTag_eq (name : List Char) :
    Selector.ofTag (String.ofList name) = .tag (lowered name) := by
  rw [Selector.ofTag, fold_eq_lowered]

/-- …and so has a key. -/
theorem ofAttribute_eq (key : List Char) (test : AttributeTest) :
    Selector.ofAttribute (String.ofList key) test = .attr (lowered key) test := by
  rw [Selector.ofAttribute, fold_eq_lowered]

/-- One digit more. -/
theorem number_snoc (base : ℕ) (ds : List Char) (d : Char) :
    number base (ds ++ [d]) = base * number base ds + digits.idxOf d.toLower := by
  rw [number, List.reverse_append, List.reverse_singleton, List.singleton_append, List.map_cons,
    Nat.ofDigits_cons, Nat.add_comm]
  rfl

/-- The value of a digit is its place among the digits; there are few characters to look at. -/
theorem hexDigitValue_eq_idxOf {d : Char} (h : isHexDigit d) :
    hexDigitValue d = digits.idxOf d.toLower := by
  have hall : ∀ n < 128, isHexDigit (Char.ofNat n) →
      hexDigitValue (Char.ofNat n) = digits.idxOf (Char.ofNat n).toLower := by decide +kernel
  rw [← Char.ofNat_toNat d] at h ⊢
  exact hall d.toNat (toNat_lt_of_isHexDigit (Char.ofNat_toNat d ▸ h)) h

/-- Hexadecimal digits name the number in base sixteen… -/
theorem hexValue_eq_number {ds : List Char} (h : ∀ d ∈ ds, isHexDigit d) :
    hexValue ds = number 16 ds := by
  induction ds using List.reverseRecOn with
  | nil => rfl
  | append_singleton ds d ih =>
    rw [List.forall_mem_append, List.forall_mem_singleton] at h
    rw [hexValue_snoc, number_snoc, ih h.1, hexDigitValue_eq_idxOf h.2]

/-- …and decimal ones the number in base ten. -/
theorem decimalValue_eq_number {ds : List Char} (h : ∀ d ∈ ds, d.isDigit) :
    decimalValue ds = number 10 ds := by
  induction ds using List.reverseRecOn with
  | nil => rfl
  | append_singleton ds d ih =>
    rw [List.forall_mem_append, List.forall_mem_singleton] at h
    have hvalue : d.toNat - '0'.toNat = digits.idxOf d.toLower := by
      rw [← hexDigitValue_eq_idxOf (isHexDigit_of_isDigit h.2), hexDigitValue, if_pos h.2]
    rw [decimalValue_snoc, number_snoc, ih h.1, hvalue]

/-! ## Blanks and line ends -/

/-- Any number of blanks. -/
def Blanks (cs rest : List Char) : Prop :=
  ∃ ws, cs = ws ++ rest ∧ ∀ c ∈ ws, isBlank c

theorem Blanks.refl (cs : List Char) : Blanks cs cs :=
  ⟨[], rfl, by simp⟩

theorem Blanks.trans {cs ds es : List Char} (h : Blanks cs ds) (h' : Blanks ds es) :
    Blanks cs es := by
  obtain ⟨vs, rfl, hv⟩ := h
  obtain ⟨ws, rfl, hw⟩ := h'
  exact ⟨vs ++ ws, (List.append_assoc vs ws es).symm, fun c hc =>
    (List.mem_append.1 hc).elim (hv c) (hw c)⟩

/-- One line end; a carriage return takes its line feed along. -/
inductive LineEnd : List Char → List Char → Prop
  | pair {rest : List Char} : LineEnd ('\r' :: '\n' :: rest) rest
  | single {c : Char} {rest : List Char} (hc : isNewline c)
      (hp : ¬(c = '\r' ∧ rest.head? = some '\n')) : LineEnd (c :: rest) rest

/-! ## Escapes -/

/-- What ends the digits of an escape: one blank, or whatever is no blank. -/
inductive Separator : List Char → List Char → Prop
  | lineEnd {cs rest : List Char} (h : LineEnd cs rest) : Separator cs rest
  | space {rest : List Char} : Separator (' ' :: rest) rest
  | tab {rest : List Char} : Separator ('\t' :: rest) rest
  | none {rest : List Char} (h : ∀ c ∈ rest.head?, isBlank c = false) : Separator rest rest

/-- A backslash, and the character that it stands for: by its code point, in the longest run of one
to six hexadecimal digits, or as it is. -/
inductive Escape : List Char → Char → List Char → Prop
  | code {ds tail rest : List Char} {c : Char} (hne : ds ≠ []) (hlen : ds.length ≤ 6)
      (hex : ∀ d ∈ ds, isHexDigit d)
      (longest : ds.length = 6 ∨ ∀ d ∈ tail.head?, isHexDigit d = false)
      (value : c.toNat = number 16 ds) (hc : c ≠ '\x00') (hs : Separator tail rest) :
      Escape ('\\' :: ds ++ tail) c rest
  | literal {c : Char} {rest : List Char} (hex : isHexDigit c = false)
      (hn : isNewline c = false) : Escape ('\\' :: c :: rest) c rest

/-! ## Names and strings -/

/-- What a name may begin with: a letter, `_`, anything outside ASCII, or an escape. -/
inductive NameStart : List Char → Char → List Char → Prop
  | char {c : Char} {rest : List Char} (hc : isNameStart c) : NameStart (c :: rest) c rest
  | escape {cs rest : List Char} {c : Char} (h : Escape cs c rest) : NameStart cs c rest

/-- What a name may go on with: a digit or `-` besides. -/
inductive NameItem : List Char → Char → List Char → Prop
  | char {c : Char} {rest : List Char} (hc : isNameChar c) : NameItem (c :: rest) c rest
  | escape {cs rest : List Char} {c : Char} (h : Escape cs c rest) : NameItem cs c rest

/-- Any number of name characters. -/
inductive NameItems : List Char → List Char → List Char → Prop
  | nil {rest : List Char} : NameItems rest [] rest
  | cons {cs ds rest name : List Char} {c : Char} (h : NameItem cs c ds)
      (t : NameItems ds name rest) : NameItems cs (c :: name) rest

/-- A name is one or more name characters. -/
def Name (cs name rest : List Char) : Prop :=
  NameItems cs name rest ∧ name ≠ []

/-- An identifier is a name that begins like one, behind a dash or not. -/
inductive Identifier : List Char → List Char → List Char → Prop
  | plain {cs ds rest name : List Char} {c : Char} (h : NameStart cs c ds)
      (t : NameItems ds name rest) : Identifier cs (c :: name) rest
  | dash {cs ds rest name : List Char} {c : Char} (h : NameStart cs c ds)
      (t : NameItems ds name rest) : Identifier ('-' :: cs) ('-' :: c :: name) rest

/-- The inside of a string up to the quote `q` that ends it.  A backslash at a line end joins the
two lines; a line end without one cannot stand there. -/
inductive StringBody (q : Char) : List Char → List Char → List Char → Prop
  | close {rest : List Char} : StringBody q (q :: rest) [] rest
  | char {c : Char} {cs value rest : List Char} (hq : c ≠ q) (hb : c ≠ '\\')
      (hn : isNewline c = false) (t : StringBody q cs value rest) :
      StringBody q (c :: cs) (c :: value) rest
  | continuation {cs ds value rest : List Char} (h : LineEnd cs ds)
      (t : StringBody q ds value rest) : StringBody q ('\\' :: cs) value rest
  | escape {cs ds value rest : List Char} {c : Char} (h : Escape cs c ds)
      (t : StringBody q ds value rest) : StringBody q cs (c :: value) rest

/-! ## Attributes -/

/-- The value that an attribute is compared with: a string in either quotes, or an identifier. -/
inductive Value : List Char → List Char → List Char → Prop
  | string {q : Char} {cs value rest : List Char} (hq : q = '"' ∨ q = '\x27')
      (h : StringBody q cs value rest) : Value (q :: cs) value rest
  | identifier {cs value rest : List Char} (h : Identifier cs value rest) : Value cs value rest

/-- What follows the key of an attribute selector, up to the closing bracket. -/
inductive Test : List Char → AttributeTest → List Char → Prop
  | present {rest : List Char} : Test (']' :: rest) .present rest
  | compare {how : Comparison} {cs ds es value rest : List Char} (hb : Blanks cs ds)
      (hv : Value ds value es) (hc : Blanks es (']' :: rest)) :
      Test (how.text ++ cs) (.compare how (String.ofList value)) rest

/-- An attribute selector behind its opening bracket. -/
inductive AttributeSelector : List Char → Selector → List Char → Prop
  | mk {cs ds es fs key rest : List Char} {test : AttributeTest} (hb : Blanks cs ds)
      (hk : Identifier ds key es) (hb' : Blanks es fs) (ht : Test fs test rest) :
      AttributeSelector cs (.attr (lowered key) test) rest

/-! ## Formulas -/

/-- A sign, and whether it is a minus. -/
inductive Sign : List Char → Bool → List Char → Prop
  | plus {rest : List Char} : Sign ('+' :: rest) false rest
  | minus {rest : List Char} : Sign ('-' :: rest) true rest

/-- A sign or none, which means plus. -/
inductive OptionalSign : List Char → Bool → List Char → Prop
  | none {rest : List Char} : OptionalSign rest false rest
  | some {cs rest : List Char} {negative : Bool} (h : Sign cs negative rest) :
      OptionalSign cs negative rest

/-- One or more decimal digits, which name a signed word of 32 bits behind their sign. -/
inductive Integer (negative : Bool) : List Char → Int32 → List Char → Prop
  | mk {ds rest : List Char} {i : Int32} (hne : ds ≠ []) (hd : ∀ d ∈ ds, d.isDigit)
      (value : i.toInt = if negative then -(number 10 ds : Int) else number 10 ds) :
      Integer negative (ds ++ rest) i rest

/-- The letter of the counter, in either case. -/
inductive Counter : List Char → List Char → Prop
  | lower {rest : List Char} : Counter ('n' :: rest) rest
  | upper {rest : List Char} : Counter ('N' :: rest) rest

/-- The coefficient and the counter; a missing coefficient is one. -/
inductive Step (negative : Bool) : List Char → Int32 → List Char → Prop
  | bare {cs rest : List Char} (h : Counter cs rest) :
      Step negative cs (if negative then -1 else 1) rest
  | coefficient {cs ds rest : List Char} {a : Int32} (hi : Integer negative cs a ds)
      (h : Counter ds rest) : Step negative cs a rest

/-- What may follow the counter: a signed integer, blanks standing around the sign. -/
inductive Offset : List Char → Int32 → List Char → Prop
  | none {rest : List Char} : Offset rest 0 rest
  | some {cs ds es fs rest : List Char} {negative : Bool} {b : Int32} (hb : Blanks cs ds)
      (hs : Sign ds negative es) (hb' : Blanks es fs) (hi : Integer negative fs b rest) :
      Offset cs b rest

/-- `odd`, `even`, an integer or `an+b`.  A word begins with its letter, not with an escape. -/
inductive Formula : List Char → Nth → List Char → Prop
  | odd {c : Char} {cs word rest : List Char} (h : NameItems cs word rest)
      (hw : (c :: word).map Char.toLower = ['o', 'd', 'd']) : Formula (c :: cs) ⟨2, 1⟩ rest
  | even {c : Char} {cs word rest : List Char} (h : NameItems cs word rest)
      (hw : (c :: word).map Char.toLower = ['e', 'v', 'e', 'n']) : Formula (c :: cs) ⟨2, 0⟩ rest
  | constant {cs ds rest : List Char} {negative : Bool} {b : Int32}
      (hs : OptionalSign cs negative ds) (hi : Integer negative ds b rest) :
      Formula cs ⟨0, b⟩ rest
  | counting {cs ds es rest : List Char} {negative : Bool} {a b : Int32}
      (hs : OptionalSign cs negative ds) (ha : Step negative ds a es) (hb : Offset es b rest) :
      Formula cs ⟨a, b⟩ rest

/-! ## Sequences -/

/-- The pseudo-classes without an argument. -/
def plainClasses : List (String × Selector) :=
  [("first-child", .nthChild ⟨0, 1⟩ false false), ("last-child", .nthChild ⟨0, 1⟩ true false),
   ("first-of-type", .nthChild ⟨0, 1⟩ false true), ("last-of-type", .nthChild ⟨0, 1⟩ true true),
   ("only-child", .onlyChild false), ("only-of-type", .onlyChild true), ("empty", .empty),
   ("root", .root)]

/-- The pseudo-classes with a formula: whether each counts from the end, and only the same tag. -/
def countingClasses : List (String × Bool × Bool) :=
  [("nth-child", false, false), ("nth-last-child", true, false), ("nth-of-type", false, true),
   ("nth-last-of-type", true, true)]

/-- The front of a sequence, which may be missing. -/
inductive Front : List Char → List Selector → List Char → Prop
  | none {rest : List Char} : Front rest [] rest
  | universal {rest : List Char} : Front ('*' :: rest) [.universal] rest
  | tag {cs name rest : List Char} (h : Identifier cs name rest) :
      Front cs [.tag (lowered name)] rest

mutual

/-- A simple selector.  The name of a pseudo-class counts in any letter case, escapes decoded. -/
inductive Simple : List Char → Selector → List Char → Prop
  | id {cs value rest : List Char} (h : Name cs value rest) :
      Simple ('#' :: cs) (.id (String.ofList value)) rest
  | className {cs name rest : List Char} (h : Identifier cs name rest) :
      Simple ('.' :: cs) (.className (String.ofList name)) rest
  | attr {cs rest : List Char} {s : Selector} (h : AttributeSelector cs s rest) :
      Simple ('[' :: cs) s rest
  | plain {cs name rest : List Char} {s : Selector} (h : Identifier cs name rest)
      (hs : (lowered name, s) ∈ plainClasses) : Simple (':' :: cs) s rest
  | counting {cs name ds es fs rest : List Char} {fromEnd sameTag : Bool} {f : Nth}
      (h : Identifier cs name ('(' :: ds))
      (hc : (lowered name, fromEnd, sameTag) ∈ countingClasses)
      (hb : Blanks ds es) (hf : Formula es f fs) (hb' : Blanks fs (')' :: rest)) :
      Simple (':' :: cs) (.nthChild f fromEnd sameTag) rest
  | negation {cs name ds es fs rest : List Char} {ss : List Selector}
      (h : Identifier cs name ('(' :: ds)) (hn : lowered name = "not")
      (hb : Blanks ds es) (hs : Sequence es ss fs) (hne : ss ≠ [])
      (hb' : Blanks fs (')' :: rest)) :
      Simple (':' :: cs) (.negation (.conjunction ss)) rest

/-- A sequence, as the row of its conjuncts: a front and any number of simple selectors. -/
inductive Sequence : List Char → List Selector → List Char → Prop
  | front {cs rest : List Char} {ss : List Selector} (h : Front cs ss rest) : Sequence cs ss rest
  | snoc {cs ds rest : List Char} {ss : List Selector} {s : Selector} (h : Sequence cs ss ds)
      (t : Simple ds s rest) : Sequence cs (ss ++ [s]) rest

end

/-- The whole of `cs` is one sequence, which says what `s` says. -/
def Derives (cs : List Char) (s : Selector) : Prop :=
  ∃ ss, Sequence cs ss [] ∧ Selector.conjunction ss = s

end Grammar

end TreeSelectors
