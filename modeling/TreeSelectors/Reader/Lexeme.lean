import TreeSelectors.Reader.Fault
import TreeSelectors.Text.Numeral

/-!
# Reader/Lexeme — escapes, names and strings

The readers here take the text from some place on and return what they read with the text that
follows it. A backslash begins an escape: one to six hexadecimal digits name a code point, and one
blank after them (or a carriage return with a line feed) belongs to the escape; any other character
stands for itself. A backslash at a line end or at the end of the text begins no escape.

What a reader leaves is an end of what it was given (`Leaves`), so no reader goes back.
-/

namespace TreeSelectors.Reader

open Text

/-- The text from the first character on that is no blank. -/
def blanks (cs : List Char) : List Char :=
  cs.dropWhile isBlank

/-- `f` of what was read, with the same text left. -/
def mapRead {α β : Type} (f : α → β) (r : Except Fault (α × List Char)) :
    Except Fault (β × List Char) :=
  r.map fun (a, rest) => (f a, rest)

@[simp] theorem mapRead_ok {α β : Type} (f : α → β) (a : α) (rest : List Char) :
    mapRead f (.ok (a, rest)) = .ok (f a, rest) := rfl

@[simp] theorem mapRead_error {α β : Type} (f : α → β) (fault : Fault) :
    mapRead f (.error fault) = .error fault := rfl

/-- What is made of something read has been read. -/
theorem mapRead_eq_ok {α β : Type} {f : α → β} {r : Except Fault (α × List Char)} {b : β}
    {rest : List Char} : mapRead f r = .ok (b, rest) ↔ ∃ a, r = .ok (a, rest) ∧ f a = b := by
  rcases r with fault | ⟨a, ds⟩
  · simp
  · simp only [mapRead_ok, Except.ok.injEq, Prod.mk.injEq]
    exact ⟨fun h => ⟨a, ⟨rfl, h.2⟩, h.1⟩, fun ⟨_, h, hf⟩ => ⟨h.1 ▸ hf, h.2⟩⟩

/-- If `r` has read something of `cs`, the text that it leaves is an end of `cs`. -/
def Leaves {α : Type} (cs : List Char) (r : Except Fault (α × List Char)) : Prop :=
  ∀ a rest, r = .ok (a, rest) → rest <:+ cs

namespace Leaves

variable {α β : Type} {cs ds : List Char}

theorem ok {a : α} (h : ds <:+ cs) : Leaves cs (.ok (a, ds)) := by
  rintro _ _ ⟨⟩; exact h

theorem error {fault : Fault} : Leaves (α := α) cs (.error fault) := by
  rintro _ _ ⟨⟩

/-- What is left of an end is left of the whole. -/
theorem trans {r : Except Fault (α × List Char)} (h : ds <:+ cs) (hr : Leaves ds r) :
    Leaves cs r :=
  fun a rest e => (hr a rest e).trans h

theorem mapRead {f : α → β} {r : Except Fault (α × List Char)} (hr : Leaves cs r) :
    Leaves cs (mapRead f r) := by
  intro b rest e
  obtain ⟨a, ha, _⟩ := mapRead_eq_ok.1 e
  exact hr a rest ha

/-- One reader after the other. -/
theorem bind {r : Except Fault (α × List Char)} {k : α × List Char → Except Fault (β × List Char)}
    (hr : Leaves cs r) (hk : ∀ a ds, ds <:+ cs → Leaves cs (k (a, ds))) : Leaves cs (r >>= k) := by
  cases r with
  | error => exact .error
  | ok p => exact hk p.1 p.2 (hr p.1 p.2 rfl)

end Leaves

/-- Skipping blanks leaves an end. -/
theorem blanks_suffix (cs : List Char) : blanks cs <:+ cs :=
  List.dropWhile_suffix _

/-! ## Escapes -/

/-- Whether an escape begins where the text after a backslash is `cs`. -/
def escapes (cs : List Char) : Bool :=
  match cs with
  | [] => false
  | c :: _ => !isNewline c

/-- The hexadecimal digits that follow the first one of an escape. -/
def moreDigits (cs : List Char) : List Char :=
  (cs.take 5).takeWhile isHexDigit

/-- `cs` without the one blank that ends the digits of an escape. -/
def dropSeparator (cs : List Char) : List Char :=
  match cs with
  | '\r' :: '\n' :: cs => cs
  | [] => []
  | c :: cs => if isBlank c then cs else c :: cs

/-- The character of code point `n`, unless there is none or it is U+0000. -/
def scalar? (n : Nat) : Option Char :=
  if n ≠ 0 ∧ n.isValidChar then some (Char.ofNat n) else none

/-- The character that an escape stands for, where `c :: cs` follows the backslash. -/
def escaped? (c : Char) (cs : List Char) : Option Char :=
  if isHexDigit c then scalar? (hexValue (c :: moreDigits cs)) else some c

/-- The text after an escape, where `c :: cs` follows the backslash. -/
def escapeRest (c : Char) (cs : List Char) : List Char :=
  if isHexDigit c then dropSeparator (cs.drop (moreDigits cs).length) else cs

/-- Dropping what ends an escape leaves an end. -/
theorem dropSeparator_suffix (cs : List Char) : dropSeparator cs <:+ cs := by
  unfold dropSeparator
  split
  · exact (List.suffix_cons _ _).trans (List.suffix_cons _ _)
  · exact List.suffix_rfl
  · split
    · exact List.suffix_cons _ _
    · exact List.suffix_rfl

theorem escapeRest_suffix (c : Char) (cs : List Char) : escapeRest c cs <:+ cs := by
  unfold escapeRest
  split
  · exact (dropSeparator_suffix _).trans (List.drop_suffix _ _)
  · exact List.suffix_rfl

/-- Reads an escape from its backslash on, which is the first character. -/
def escape (cs : List Char) : Except Fault (Char × List Char) :=
  match cs.tail with
  | [] => .error (.missing .escapedCharacter [])
  | d :: ds =>
    if isNewline d then .error ⟨.invalidEscape, cs⟩
    else
      match escaped? d ds with
      | some c => .ok (c, escapeRest d ds)
      | none => .error ⟨.invalidEscape, cs⟩

/-- An escape takes its backslash and at least one character. -/
theorem escape_suffix {c d : Char} {cs rest : List Char} (h : escape (d :: cs) = .ok (c, rest)) :
    rest <:+ cs := by
  cases cs with
  | nil => cases h
  | cons e es =>
    rw [escape, List.tail_cons] at h
    split at h
    · next h' => cases h'
    · next h' =>
      obtain ⟨rfl, rfl⟩ := List.cons.inj h'
      split at h
      · cases h
      · split at h <;> cases h
        exact (escapeRest_suffix _ _).trans (List.suffix_cons _ _)

/-- Puts `c` in front of what was read. -/
def push (c : Char) (r : Except Fault (List Char × List Char)) :
    Except Fault (List Char × List Char) :=
  mapRead (c :: ·) r

/-! ## Names -/

/-- Reads the longest run of name characters and escapes, which may be empty. -/
def nameRun : List Char → Except Fault (List Char × List Char)
  | [] => .ok ([], [])
  | c :: cs =>
    if isNameChar c then push c (nameRun cs)
    else if c = '\\' ∧ escapes cs then
      match _h : escape (c :: cs) with
      | .ok (x, rest) => push x (nameRun rest)
      | .error fault => .error fault
    else .ok ([], c :: cs)
termination_by cs => cs.length
decreasing_by
  · simp
  · exact Nat.lt_succ_of_le (escape_suffix _h).length_le

/-- **One step of a run**, by the character that comes next. -/
theorem nameRun_cons (c : Char) (cs : List Char) :
    nameRun (c :: cs) =
      if isNameChar c then push c (nameRun cs)
      else if c = '\\' ∧ escapes cs then do
        let (x, rest) ← escape (c :: cs)
        push x (nameRun rest)
      else .ok ([], c :: cs) := by
  rw [nameRun.eq_def]
  dsimp only
  split
  · rfl
  · split
    · split <;> next h => rw [h]; rfl
    · rfl

theorem Leaves.push {c : Char} {cs : List Char} {r : Except Fault (List Char × List Char)}
    (h : Leaves cs r) : Leaves cs (push c r) :=
  h.mapRead

/-- A run leaves an end, since each escape takes its backslash at least. -/
theorem nameRun_leaves (cs : List Char) : Leaves cs (nameRun cs) := by
  fun_induction nameRun cs with
  | case1 => exact .ok List.suffix_rfl
  | case2 c cs _ ih => exact (ih.trans (List.suffix_cons _ _)).push
  | case3 c cs _ _ x rest h ih =>
    exact (ih.trans ((escape_suffix h).trans (List.suffix_cons _ _))).push
  | case4 => exact .error
  | case5 => exact .ok List.suffix_rfl

/-- Whether a name may begin with the first character, or the first escape, of `cs`. -/
def startsName (cs : List Char) : Bool :=
  match cs with
  | [] => false
  | c :: cs => if c = '\\' then escapes cs else isNameStart c

/-- Whether an identifier begins here: a name that a dash may lead. -/
def startsIdentifier (cs : List Char) : Bool :=
  match cs with
  | '-' :: cs => startsName cs
  | cs => startsName cs

/-- Reads an identifier. -/
def identifier (cs : List Char) : Except Fault (String × List Char) :=
  if startsIdentifier cs then mapRead String.ofList (nameRun cs)
  else .error (.missing .identifier cs)

/-- Reads a name, which may begin with any name character. -/
def name (cs : List Char) : Except Fault (String × List Char) :=
  match nameRun cs with
  | .ok ([], rest) => .error (.missing .name rest)
  | .ok (name, rest) => .ok (String.ofList name, rest)
  | .error fault => .error fault

/-- An identifier leaves what its run does. -/
theorem identifier_leaves (cs : List Char) : Leaves cs (identifier cs) := by
  unfold identifier
  split
  · exact (nameRun_leaves cs).mapRead
  · exact .error

theorem name_leaves (cs : List Char) : Leaves cs (name cs) := by
  unfold name
  split
  · exact .error
  · next h => exact .ok (nameRun_leaves cs _ _ h)
  · exact .error

/-! ## Strings -/

/-- Reads a string up to the quote `q` that ends it. A backslash at a line end goes on with the next
line; a line end without one leaves the string, which began at `start`, unterminated. -/
def stringBody (q : Char) (start : List Char) : List Char → Except Fault (List Char × List Char)
  | [] => .error ⟨.unterminatedString, start⟩
  | c :: cs =>
    if c = q then .ok ([], cs)
    else if c = '\\' then
      match cs with
      | [] => .error ⟨.unterminatedString, start⟩
      | '\r' :: '\n' :: ds => stringBody q start ds
      | d :: ds =>
        if isNewline d then stringBody q start ds
        else
          match _h : escape (c :: d :: ds) with
          | .ok (x, rest) => push x (stringBody q start rest)
          | .error fault => .error fault
    else if isNewline c then .error ⟨.unterminatedString, start⟩
    else push c (stringBody q start cs)
termination_by cs => cs.length
decreasing_by
  · simp only [List.length_cons]; omega
  · simp only [List.length_cons]; omega
  · exact Nat.lt_succ_of_le (escape_suffix _h).length_le
  · simp

/-- A string leaves what follows its quote. -/
theorem stringBody_leaves (q : Char) (start cs : List Char) :
    Leaves cs (stringBody q start cs) := by
  have two (a b : Char) (ds : List Char) : ds <:+ a :: b :: ds :=
    (List.suffix_cons _ _).trans (List.suffix_cons _ _)
  fun_induction stringBody q start cs with
  | case1 => exact .error
  | case2 => exact .ok (List.suffix_cons _ _)
  | case3 => exact .error
  | case4 _ ds ih => exact ih.trans ((two _ _ _).trans (List.suffix_cons _ _))
  | case5 _ d ds _ _ ih => exact ih.trans (two _ _ _)
  | case6 _ d ds _ _ x rest h ih =>
    exact (ih.trans ((escape_suffix h).trans (List.suffix_cons _ _))).push
  | case7 => exact .error
  | case8 => exact .error
  | case9 c ds _ _ _ ih => exact (ih.trans (List.suffix_cons _ _)).push

/-- Whether `c` can open a string. -/
def isQuote (c : Char) : Bool :=
  c == '"' || c == '\x27'

/-- Reads a string from its quote on, which is the first character. -/
def string (cs : List Char) : Except Fault (String × List Char) :=
  match cs with
  | [] => .error (.missing .string [])
  | q :: ds => mapRead String.ofList (stringBody q cs ds)

theorem string_leaves (cs : List Char) : Leaves cs (string cs) := by
  cases cs with
  | nil => exact .error
  | cons q ds => exact ((stringBody_leaves _ _ _).trans (List.suffix_cons _ _)).mapRead

/-- Reads the value of an attribute: a string, or an identifier. -/
def attributeValue (cs : List Char) : Except Fault (String × List Char) :=
  match cs with
  | [] => .error (.missing .attributeValue cs)
  | c :: _ =>
    if isQuote c then string cs
    else if startsIdentifier cs then identifier cs
    else .error (.missing .attributeValue cs)

/-- A value leaves what follows it, in quotes or not. -/
theorem attributeValue_leaves (cs : List Char) : Leaves cs (attributeValue cs) := by
  unfold attributeValue
  split
  · exact .error
  · split
    · exact string_leaves _
    · split
      · exact identifier_leaves _
      · exact .error

end TreeSelectors.Reader
