import TreeSelectors.Reader.Formula
import TreeSelectors.Selector.Basic

/-!
# Reader/Sequence — a selector from its text

A sequence is an optional front, `*` or a tag, and any number of simple selectors behind it, all of
which have to match. `:not(` opens a sequence inside the one that is being read. `sequence` keeps
the sequences that are still open, innermost first, and reads on piece by piece: each piece takes at
least one character, so the text left bounds what is still to do.

`Selector.compile` reads a whole text. A text that goes on behind its sequence is left over, and the
empty text is the universal selector.
-/

namespace TreeSelectors.Reader

open Text

/-- Reads the character `c`, which is `what`. -/
def expect (c : Char) (what : Wanted) (cs : List Char) : Except Fault (List Char) :=
  match cs with
  | [] => .error (.missing what [])
  | d :: ds => if d = c then .ok ds else .error (.missing what (d :: ds))

/-! ## Attributes -/

/-- The comparison whose sign is `c` and an equals sign. -/
def comparison? (c : Char) : Option Comparison :=
  match c with
  | '~' => some .includes
  | '|' => some .dashMatch
  | '^' => some .startsWith
  | '$' => some .endsWith
  | '*' => some .contains
  | _ => none

/-- Reads the sign of a comparison. -/
def comparison (cs : List Char) : Except Fault (Comparison × List Char) :=
  match cs with
  | [] => .error (.missing .closingBracket [])
  | c :: ds =>
    if c = '=' then .ok (.equals, ds)
    else
      match comparison? c with
      | none => .error (.missing .operatorOrBracket cs)
      | some how => (expect '=' .equalsSign ds).map fun rest => (how, rest)

/-- Reads what follows the key of an attribute selector, up to the closing bracket. -/
def attributeTest (cs : List Char) : Except Fault (AttributeTest × List Char) :=
  match cs with
  | ']' :: rest => .ok (.present, rest)
  | cs => do
    let (how, rest) ← comparison cs
    let (value, rest) ← attributeValue (blanks rest)
    let rest ← expect ']' .closingBracket (blanks rest)
    return (.compare how value, rest)

/-- Reads an attribute selector behind its opening bracket. -/
def attributeSelector (cs : List Char) : Except Fault (Selector × List Char) := do
  let (key, rest) ← identifier (blanks cs)
  let (test, rest) ← attributeTest (blanks rest)
  return (.ofAttribute key test, rest)

/-! ## Pieces -/

/-- What the name of a pseudo-class announces. -/
inductive PseudoClass
  /-- A selector without an argument. -/
  | plain (s : Selector)
  /-- A counting selector, with a formula in parentheses. -/
  | counting (fromEnd sameTag : Bool)
  /-- A negation, with a sequence in parentheses. -/
  | negation

/-- The pseudo-class of a name in lower case. -/
def pseudoClass? (name : String) : Option PseudoClass :=
  match name with
  | "first-child" => some (.plain (.nthChild ⟨0, 1⟩ false false))
  | "last-child" => some (.plain (.nthChild ⟨0, 1⟩ true false))
  | "first-of-type" => some (.plain (.nthChild ⟨0, 1⟩ false true))
  | "last-of-type" => some (.plain (.nthChild ⟨0, 1⟩ true true))
  | "only-child" => some (.plain (.onlyChild false))
  | "only-of-type" => some (.plain (.onlyChild true))
  | "empty" => some (.plain .empty)
  | "root" => some (.plain .root)
  | "nth-child" => some (.counting false false)
  | "nth-last-child" => some (.counting true false)
  | "nth-of-type" => some (.counting false true)
  | "nth-last-of-type" => some (.counting true true)
  | "not" => some .negation
  | _ => none

/-- One step through a text of sequences. -/
inductive Piece
  /-- A simple selector without a sequence in it. -/
  | simple (s : Selector)
  /-- The opening of a negation, with the front of its sequence. -/
  | opening (front : Option Selector)

/-- Reads the front of a sequence, if it has one. -/
def front (cs : List Char) : Except Fault (Option Selector × List Char) :=
  match cs with
  | '*' :: rest => .ok (some .universal, rest)
  | cs =>
    if startsIdentifier cs then mapRead (fun name => some (.ofTag name)) (identifier cs)
    else .ok (none, cs)

/-- Reads the argument of a counting pseudo-class. -/
def argument (cs : List Char) : Except Fault (Nth × List Char) := do
  let rest ← expect '(' .openingParenthesis cs
  let (f, rest) ← formula (blanks rest)
  let rest ← expect ')' .closingParenthesis (blanks rest)
  return (f, rest)

/-- Reads a pseudo-class behind its colon. -/
def pseudo (cs : List Char) : Except Fault (Piece × List Char) := do
  let (name, rest) ← identifier cs
  match pseudoClass? (fold name) with
  | none => throw ⟨.unknownPseudoClass (fold name), cs⟩
  | some (.plain s) => return (.simple s, rest)
  | some (.counting fromEnd sameTag) =>
    let (f, rest) ← argument rest
    return (.simple (.nthChild f fromEnd sameTag), rest)
  | some .negation =>
    let rest ← expect '(' .openingParenthesis rest
    let (s, rest) ← front (blanks rest)
    return (.opening s, rest)

/-- Reads the piece that `c` announces, where `cs` follows it. -/
def piece? (c : Char) (cs : List Char) : Option (Except Fault (Piece × List Char)) :=
  match c with
  | '#' => some (mapRead (fun value => .simple (.id value)) (name cs))
  | '.' => some (mapRead (fun name => .simple (.className name)) (identifier cs))
  | '[' => some (mapRead .simple (attributeSelector cs))
  | ':' => some (pseudo cs)
  | _ => none

/-- What has been read of a sequence, with one more simple selector. -/
def join (read : Option Selector) (s : Selector) : Selector :=
  match read with
  | none => s
  | some r => .inter r s

/-- Reads the end of a negation whose sequence is `read`. -/
def closing (read : Option Selector) (cs : List Char) : Except Fault (Selector × List Char) :=
  match read with
  | none => .error ⟨.emptyNegation, cs⟩
  | some s => (expect ')' .closingParenthesis (blanks cs)).map fun rest => (.negation s, rest)

/-! ## What is left -/

theorem expect_suffix {c : Char} {what : Wanted} {cs rest : List Char}
    (h : expect c what cs = .ok rest) : rest <:+ cs := by
  unfold expect at h
  split at h
  · simp at h
  · split at h
    · cases h; exact List.suffix_cons _ _
    · simp at h

/-- An expected character is taken off the text. -/
theorem length_expect {c : Char} {what : Wanted} {cs rest : List Char}
    (h : expect c what cs = .ok rest) : rest.length < cs.length := by
  unfold expect at h
  split at h
  · simp at h
  · split at h
    · cases h; simp
    · simp at h

/-- A comparison takes one character or two. -/
theorem comparison_leaves (cs : List Char) : Leaves cs (comparison cs) := by
  unfold comparison
  split
  · exact .error
  · split
    · exact .ok (List.suffix_cons _ _)
    · split
      · exact .error
      · intro how rest h
        cases he : expect '=' .equalsSign _ with
        | error => rw [he] at h; simp [Except.map] at h
        | ok ds =>
          rw [he] at h
          simp only [Except.map, Except.ok.injEq, Prod.mk.injEq] at h
          exact h.2 ▸ (expect_suffix he).trans (List.suffix_cons _ _)

/-- Reading on behind an expected character. -/
theorem leaves_expect {α : Type} {c : Char} {what : Wanted} {cs ds : List Char}
    {k : List Char → Except Fault (α × List Char)} (hs : ds <:+ cs)
    (hk : ∀ rest, rest <:+ cs → Leaves cs (k rest)) : Leaves cs (expect c what ds >>= k) := by
  cases he : expect c what ds with
  | error => exact .error
  | ok rest => exact hk rest ((expect_suffix he).trans hs)

theorem attributeTest_leaves (cs : List Char) : Leaves cs (attributeTest cs) := by
  unfold attributeTest
  split
  · exact .ok (List.suffix_cons _ _)
  · refine (comparison_leaves cs).bind fun how ds hd => ?_
    refine ((attributeValue_leaves _).trans ((blanks_suffix ds).trans hd)).bind fun v es he => ?_
    exact leaves_expect ((blanks_suffix es).trans he) fun rest h => .ok h

/-- An attribute selector leaves what follows its bracket. -/
theorem attributeSelector_leaves (cs : List Char) : Leaves cs (attributeSelector cs) := by
  unfold attributeSelector
  refine ((identifier_leaves _).trans (blanks_suffix cs)).bind fun key ds hd => ?_
  exact ((attributeTest_leaves _).trans ((blanks_suffix ds).trans hd)).bind fun t es he => .ok he

theorem front_leaves (cs : List Char) : Leaves cs (front cs) := by
  unfold front
  split
  · exact .ok (List.suffix_cons _ _)
  · split
    · exact (identifier_leaves _).mapRead
    · exact .ok List.suffix_rfl

theorem argument_leaves (cs : List Char) : Leaves cs (argument cs) := by
  unfold argument
  refine leaves_expect List.suffix_rfl fun ds hd => ?_
  refine ((formula_leaves _).trans ((blanks_suffix ds).trans hd)).bind fun f es he => ?_
  exact leaves_expect ((blanks_suffix es).trans he) fun rest h => .ok h

/-- A pseudo-class leaves an end, be it inside a negation. -/
theorem pseudo_leaves (cs : List Char) : Leaves cs (pseudo cs) := by
  unfold pseudo
  refine (identifier_leaves cs).bind fun name ds hd => ?_
  dsimp only
  split
  · exact .error
  · exact .ok hd
  · exact ((argument_leaves ds).trans hd).bind fun f es he => .ok he
  · refine leaves_expect hd fun es he => ?_
    exact ((front_leaves _).trans ((blanks_suffix es).trans he)).bind fun s rest h => .ok h

theorem piece?_leaves {c : Char} {cs : List Char} {r : Except Fault (Piece × List Char)}
    (h : piece? c cs = some r) : Leaves cs r := by
  unfold piece? at h
  split at h <;> cases h
  · exact (name_leaves cs).mapRead
  · exact (identifier_leaves cs).mapRead
  · exact (attributeSelector_leaves cs).mapRead
  · exact pseudo_leaves cs

/-- Closing a negation takes its parenthesis. -/
theorem length_closing {read : Option Selector} {s : Selector} {cs rest : List Char}
    (h : closing read cs = .ok (s, rest)) : rest.length < cs.length := by
  cases read with
  | none => simp [closing] at h
  | some r =>
    cases he : expect ')' .closingParenthesis (blanks cs) with
    | error => simp [closing, he, Except.map] at h
    | ok ds =>
      simp only [closing, he, Except.map, Except.ok.injEq, Prod.mk.injEq] at h
      exact h.2 ▸ Nat.lt_of_lt_of_le (length_expect he) (blanks_suffix cs).length_le

/-! ## Sequences -/

/-- The piece at the beginning of `cs`, if one begins there. -/
def next? (cs : List Char) : Option (Except Fault (Piece × List Char)) :=
  match cs with
  | [] => none
  | c :: cs => piece? c cs

/-- A piece takes its mark at least, so each step of the reader makes the text shorter. -/
theorem length_next? {cs rest : List Char} {p : Piece} (h : next? cs = some (.ok (p, rest))) :
    rest.length < cs.length := by
  cases cs with
  | nil => simp [next?] at h
  | cons c cs => exact Nat.lt_succ_of_le (piece?_leaves h p rest rfl).length_le

/-- Reads on in a sequence of which `read` has been read; `outer` holds what has been read of the
sequences around it. Where no piece begins, the innermost negation ends, and the whole text if none
is open. -/
def sequence (outer : List (Option Selector)) (read : Option Selector) (cs : List Char) :
    Except Fault Selector :=
  match _h : next? cs with
  | some (.error fault) => .error fault
  | some (.ok (.simple s, rest)) => sequence outer (some (join read s)) rest
  | some (.ok (.opening front, rest)) => sequence (read :: outer) front rest
  | none =>
    match outer with
    | [] => if cs = [] then .ok (read.getD .universal) else .error ⟨.leftOver (byteLength cs), cs⟩
    | around :: outer =>
      match _h : closing read cs with
      | .error fault => .error fault
      | .ok (s, rest) => sequence outer (some (join around s)) rest
termination_by cs.length
decreasing_by
  · exact length_next? _h
  · exact length_next? _h
  · exact length_closing _h

/-- **One step of reading**, by the piece that comes next. -/
theorem sequence_eq (outer : List (Option Selector)) (read : Option Selector) (cs : List Char) :
    sequence outer read cs =
      match next? cs with
      | some (.error fault) => .error fault
      | some (.ok (.simple s, rest)) => sequence outer (some (join read s)) rest
      | some (.ok (.opening front, rest)) => sequence (read :: outer) front rest
      | none =>
        match outer with
        | [] =>
          if cs = [] then .ok (read.getD .universal) else .error ⟨.leftOver (byteLength cs), cs⟩
        | around :: outer =>
          match closing read cs with
          | .error fault => .error fault
          | .ok (s, rest) => sequence outer (some (join around s)) rest := by
  rw [sequence.eq_def]
  split
  · next h => rw [h]
  · next h => rw [h]
  · next h => rw [h]
  · next h =>
    rw [h]
    cases outer with
    | nil => rfl
    | cons around outer => dsimp only; split <;> next h => rw [h]

/-- Reads a text that is one sequence. -/
def selector (cs : List Char) : Except Fault Selector := do
  let (front, rest) ← front cs
  sequence [] front rest

end TreeSelectors.Reader

namespace TreeSelectors

/-- The selector that `text` is the text of. -/
def Selector.compile (text : String) : Except ParseError Selector :=
  match Reader.selector text.toList with
  | .ok s => .ok s
  | .error fault => .error (.ofFault text fault)

end TreeSelectors
