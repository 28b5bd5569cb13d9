/-!
# Text/Ascii — letter case, blanks and name characters

The letter case that selectors ignore is the case of the twenty-six ASCII letters: `fold` lowers
them and leaves every other character alone, so `É` and `é` stay apart. Everything outside ASCII may
stand in a name; inside ASCII a name holds letters, digits, `-` and `_`.
-/

namespace TreeSelectors.Text

/-! ## Letter case -/

/-- `s` with its ASCII capitals lowered. -/
def fold (s : String) : String :=
  String.ofList (s.toList.map Char.toLower)

/-- Whether `s` has no ASCII capital, so that folding leaves it as it is. -/
def isFolded (s : String) : Bool :=
  s.toList.all fun c => !c.isUpper

/-- Whether `s` and `t` differ in nothing but the case of ASCII letters. -/
def sameFolded (s t : String) : Bool :=
  s.toList.map Char.toLower == t.toList.map Char.toLower

@[simp] theorem toList_fold (s : String) : (fold s).toList = s.toList.map Char.toLower := by
  simp [fold]

/-- Texts are the same but for case exactly if they fold alike. -/
theorem sameFolded_iff {s t : String} : sameFolded s t = true ↔ fold s = fold t := by
  simp [sameFolded, fold, String.ofList_inj]

/-! ## Character classes -/

/-- The line ends: line feed, carriage return and form feed. -/
def isNewline (c : Char) : Bool :=
  c == '\n' || c == '\r' || c == '\x0c'

/-- What separates tokens: the line ends, the space and the tab. -/
def isBlank (c : Char) : Bool :=
  c == ' ' || c == '\t' || isNewline c

/-- The ASCII control characters. -/
def isControl (c : Char) : Bool :=
  c.toNat < 0x20 || c.toNat == 0x7f

/-- What a name may begin with: an ASCII letter, `_`, or anything outside ASCII. -/
def isNameStart (c : Char) : Bool :=
  c.isAlpha || c == '_' || 0x80 ≤ c.toNat

/-- What a name may go on with: what it may begin with, a digit, or `-`. -/
def isNameChar (c : Char) : Bool :=
  isNameStart c || c.isDigit || c == '-'

/-! ## Length in bytes -/

/-- The number of bytes that UTF-8 takes for `cs`. -/
def byteLength (cs : List Char) : Nat :=
  cs.foldr (fun c n => c.utf8Size + n) 0

@[simp] theorem byteLength_nil : byteLength [] = 0 := rfl

@[simp] theorem byteLength_cons (c : Char) (cs : List Char) :
    byteLength (c :: cs) = c.utf8Size + byteLength cs := rfl

@[simp] theorem byteLength_append (cs ds : List Char) :
    byteLength (cs ++ ds) = byteLength cs + byteLength ds := by
  induction cs with
  | nil => simp
  | cons c cs ih => simp [ih, Nat.add_assoc]

/-- The count agrees with the size of the string. -/
theorem byteLength_toList (s : String) : byteLength s.toList = s.utf8ByteSize := by
  obtain ⟨cs, rfl⟩ := s.exists_eq_ofList
  rw [String.toList_ofList]
  induction cs with
  | nil => simp
  | cons c cs ih => simp [String.ofList_cons, ih]

end TreeSelectors.Text
