import Mathlib
import TreeSelectors.Reader.Sequence

/-!
# Proofs/Reading/Fault — what a fault does not depend on

A fault depends on the text from its place on and on which negations are open, but not on what has
been read of the outermost sequence (`sequence_error_of_sameAbove`).
-/

namespace TreeSelectors.Reader

/-! ## Open negations

Only the sequence of an open negation has to be there when it is closed.  The outermost sequence
is never closed, and what has been read of it stays at the bottom. -/

/-- Two states with the same negations open, that differ at most in the outermost sequence. -/
inductive SameAbove : List (Option Selector) → Option Selector → List (Option Selector) →
    Option Selector → Prop
  | bottom (a b : Option Selector) : SameAbove [] a [] b
  | above {outer outer' : List (Option Selector)} {a b : Option Selector}
      (h : SameAbove outer a outer' b) (read : Option Selector) :
      SameAbove (a :: outer) read (b :: outer') read

theorem SameAbove.join {outer outer' : List (Option Selector)} {a b : Option Selector}
    (h : SameAbove outer a outer' b) (s : Selector) :
    SameAbove outer (some (join a s)) outer' (some (join b s)) := by
  cases h with
  | bottom => exact .bottom _ _
  | above h => exact .above h _

/-- **No fault depends on what has been read of the outermost sequence.**  The two readers take the
same pieces, and what they hold stays the same above the bottom. -/
theorem sequence_error_of_sameAbove {outer outer' : List (Option Selector)}
    {a b : Option Selector} {cs : List Char} {fault : Fault} (h : SameAbove outer a outer' b)
    (he : sequence outer a cs = .error fault) : sequence outer' b cs = .error fault := by
  generalize hlen : cs.length = n
  induction n using Nat.strong_induction_on generalizing outer outer' a b cs with
  | h n ih =>
    subst hlen
    rw [sequence_eq] at he ⊢
    split at he
    · exact he
    · next hp => exact ih _ (length_next? hp) (h.join _) he rfl
    · next hp => exact ih _ (length_next? hp) (h.above _) he rfl
    · cases h with
      | bottom =>
        dsimp only at he ⊢
        split at he
        · cases he
        · next hne => rw [if_neg hne]; exact he
      | above h =>
        dsimp only at he ⊢
        split at he
        · exact he
        · next hc => exact ih _ (length_closing hc) (h.join _) he rfl

end TreeSelectors.Reader
