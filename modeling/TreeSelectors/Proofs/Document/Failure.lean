import Mathlib
import TreeSelectors.Document.Arena
import TreeSelectors.Document.Outline
import TreeSelectors.Document.Query
import TreeSelectors.Proofs.Document.History

/-!
# Proofs/Document/Failure — an edit fails exactly when it must, and then nothing has changed

An edit is refused for want of a live node, or of an element, and for nothing else (`Refuses`).
That a failure leaves the document as it was says little of a function that returns a document or a
cause; it says more of an append that is done in place.  There a node is made first and linked to
its parent then, and the second step has faults of its own.  `Arena` holds what there is between the
two steps: a node just made can always be linked, so no failure leaves one behind.
-/

namespace TreeSelectors

/-! ## Making and linking -/

namespace Forest

theorem snoc_eq_beside (l : Nat) (c : Content) (f : Forest) :
    f.snoc l c = f.beside (cons l c nil nil) := by
  induction f with
  | nil => rfl
  | cons k d below right _ ih => rw [snoc, beside, ih]

/-- An append is the graft of a node alone. -/
theorem appendUnder_eq_graft (p l : Nat) (c : Content) (f : Forest) :
    f.appendUnder p l c = f.graft p (cons l c nil nil) := by
  induction f with
  | nil => rfl
  | cons k d below right ihb ihr => rw [appendUnder, graft, snoc_eq_beside, ihb, ihr]

theorem prune_of_notMem {n : Nat} {f : Forest} (h : n ∉ f.labels) : f.prune n = f := by
  induction f with
  | nil => rfl
  | cons l c below right ihb ihr =>
    simp only [labels, List.mem_cons, List.mem_append, not_or] at h
    rw [prune, if_neg (Ne.symm h.1), ihb h.2.1, ihr h.2.2]

/-- A new tree on the right is taken away again. -/
theorem prune_snoc {n : Nat} {c : Content} {f : Forest} (h : n ∉ f.labels) :
    (f.snoc n c).prune n = f := by
  induction f with
  | nil => exact if_pos rfl
  | cons l d below right _ ihr =>
    simp only [labels, List.mem_cons, List.mem_append, not_or] at h
    rw [snoc, prune, if_neg (Ne.symm h.1), prune_of_notMem h.2.1, ihr h.2.2]

end Forest

theorem Edit.target_of_appended? {e : Edit} {p : Nat} {c : Content}
    (he : e.appended? = some (p, c)) : e.target = p := by
  cases e <;> cases he <;> rfl

namespace Document

variable {d d' : Document} {e : Edit} {p : Nat} {c : Content}

/-- **A node just made can be linked** to every live parent, and comes last there. -/
theorem link_make (hp : d.isLive p) (c : Content) :
    (d.arena.make c).link p d.next = .ok ⟨d.tree.appendUnder p d.next c, d.next + 1⟩ := by
  obtain ⟨x, hx⟩ := Option.isSome_iff_exists.1 hp
  have hnew : d.next ∉ d.tree.labels := fun hm => Nat.lt_irrefl _ (d.handedOut _ hm)
  have hparent : (d.arena.make c).trees.find? p = some x := by
    change (d.tree.snoc d.next c).find? p = some x
    rw [Forest.find?_snoc, hx, Option.some_or]
  have hself : (d.arena.make c).trees.find? d.next = some (c, .nil) := by
    change (d.tree.snoc d.next c).find? d.next = some (c, .nil)
    rw [Forest.find?_snoc, Forest.find?_eq_none.2 hnew, Option.none_or, if_pos rfl]
  have htrees : ((d.arena.make c).trees.prune d.next).graft p (.cons d.next c .nil .nil) =
      d.tree.appendUnder p d.next c := by
    rw [Forest.appendUnder_eq_graft]
    exact congrArg (Forest.graft p · _) (Forest.prune_snoc hnew)
  have hbelow : p ∉ Forest.nil.labels := List.not_mem_nil
  rw [Arena.link, if_neg (lt_next hp).ne, hparent, hself]
  dsimp only
  rw [if_neg hbelow, htrees]
  rfl

/-- **Appending in place is appending**: it fails for want of the parent only, and nothing is left
behind then. -/
theorem arena_append (d : Document) (p : Nat) (c : Content) : d.arena.append p c =
    match d.append p c with
    | .ok d' => (.ok d.next, d'.arena)
    | .error cause => (.error (.inl cause), d.arena) := by
  have hlive : (d.arena.trees.find? p).isSome = d.isLive p := rfl
  have hnext : d.arena.next = d.next := rfl
  rw [Arena.append, append, hlive, hnext]
  by_cases hp : d.isLive p
  · rw [dif_pos hp, if_pos hp, link_make hp]
    rfl
  · rw [dif_neg hp, if_neg hp]

/-! ## What an edit must be refused for -/

/-- What an edit cannot do: append to what is not there, give an attribute to what is no element,
and remove the document node or what is not there. -/
def Refuses (d : Document) : Edit → Prop
  | .appendElement parent _ | .appendText parent _ | .appendComment parent _ => ¬d.isLive parent
  | .setAttribute n _ _ => ¬d.isLive n ∨ d.view.isElement n = false
  | .remove n => n = 0 ∨ ¬d.isLive n

/-- Appending needs a live parent, of whatever kind… -/
theorem succeeds_append_iff : (∃ d', d.append p c = .ok d') ↔ d.isLive p := by
  rw [append]
  by_cases hp : d.isLive p
  · simp [hp]
  · simp [hp]

/-- …an attribute needs an element… -/
theorem succeeds_setAttribute_iff {n : Nat} {name value : String} :
    (∃ d', d.setAttribute n name value = .ok d') ↔ d.view.isElement n := by
  have hview : d.view.isElement n = (d.content? n).any Content.isElement := rfl
  rw [setAttribute, hview]
  cases d.content? n with
  | none => simp
  | some c => by_cases hc : c.isElement <;> simp [hc]

/-- …and the document node cannot be removed. -/
theorem succeeds_remove_iff {n : Nat} : (∃ d', d.remove n = .ok d') ↔ n ≠ 0 ∧ d.isLive n := by
  constructor
  · rintro ⟨d', h⟩
    have hr := removed_of_remove h
    exact ⟨hr.ne_zero, hr.live⟩
  · exact fun h => exists_remove h.2 h.1

/-- **An edit fails exactly if it must.** -/
theorem not_succeeds_iff : ¬d.Succeeds e ↔ d.Refuses e := by
  cases e with
  | appendElement p tag => exact succeeds_append_iff.not
  | appendText p s => exact succeeds_append_iff.not
  | appendComment p s => exact succeeds_append_iff.not
  | setAttribute n name value =>
    refine succeeds_setAttribute_iff.not.trans ?_
    rw [Bool.not_eq_true, Refuses, iff_or_self]
    intro hn
    exact ((d.sound).missing n hn).2.2.1
  | remove n =>
    refine succeeds_remove_iff.not.trans ?_
    rw [Refuses, not_and_or, not_not]

/-- No edit can be made at what is not there. -/
theorem refuses_of_not_isLive (h : ¬d.isLive e.target) : d.Refuses e := by
  cases e with
  | setAttribute => exact .inl h
  | remove => exact .inr h
  | _ => exact h

/-! ## What can be seen of a document -/

/-- Nothing that can be asked of either document tells them apart, the next label apart. -/
structure LooksLike (d' d : Document) : Prop where
  isLive : ∀ n, d'.isLive n = d.isLive n
  content? : ∀ n, d'.content? n = d.content? n
  parent? : ∀ n, d'.view.parent? n = d.view.parent? n
  children : ∀ n, d'.view.children n = d.view.children n
  outline : d'.outline = d.outline
  selects : ∀ (s : Selector) n, s.selects d'.view n = s.selects d.view n
  select : ∀ text, d'.select text = d.select text
  selectFirst : ∀ text, d'.selectFirst text = d.selectFirst text

/-- **All that can be seen of a document is its tree.** -/
theorem looksLike_of_tree_eq (h : d'.tree = d.tree) : d'.LooksLike d := by
  obtain ⟨tree', next', _, _, _, _⟩ := d'
  obtain ⟨tree, next, _, _, _, _⟩ := d
  obtain rfl : tree' = tree := h
  exact ⟨fun _ => rfl, fun _ => rfl, fun _ => rfl, fun _ => rfl, rfl, fun _ _ => rfl,
    fun _ => rfl, fun _ => rfl⟩

theorem attempt_of_apply (h : d.apply e = .ok d') : d.attempt e = d' := by
  rw [attempt, h]

theorem attempt_of_not_succeeds (h : ¬d.Succeeds e) : d.attempt e = d := by
  rw [attempt]
  cases hd : d.apply e with
  | ok d' => exact absurd ⟨d', hd⟩ h
  | error cause => rfl

/-- **An edit fails exactly if it must, and then nothing has changed**: after every run, edits are
refused for what is missing only, what was taken away with a node above it included; a failure
leaves the document and the next label as they were, even of an append that is done in place. -/
theorem fails_iff_refuses (es : List Edit) (e : Edit) :
    let d := new.attemptAll es
    (¬d.Succeeds e ↔ d.Refuses e) ∧ (TakenAway es e.target → d.Refuses e) ∧
      (¬d.Succeeds e → (d.attempt e).LooksLike d ∧ (d.attempt e).next = d.next) ∧
      ∀ p c, e.appended? = some (p, c) → (d.arena.append p c).2 = (d.attempt e).arena ∧
        ((∃ cause, (d.arena.append p c).1 = .error cause) ↔ d.Refuses e) := by
  intro d
  refine ⟨not_succeeds_iff, fun ht => ?_, fun hf => ?_, fun p c he => ?_⟩
  · exact refuses_of_not_isLive fun hlive => (isLive_attemptAll.1 hlive).2 ht
  · rw [attempt_of_not_succeeds hf]
    exact ⟨looksLike_of_tree_eq rfl, rfl⟩
  · rw [← not_succeeds_iff, Succeeds, attempt, apply_eq_append he, arena_append]
    cases d.append p c with
    | ok d' => simp
    | error cause => simp

end Document

end TreeSelectors
