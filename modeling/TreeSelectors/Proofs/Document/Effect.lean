import Mathlib
import TreeSelectors.Document.Edit
import TreeSelectors.Proofs.Document.Links

/-!
# Proofs/Document/Effect — what an edit does to what can be seen

An edit appends a node, adds an attribute or takes a branch away.  `Effect` says for each of the
three what it needs and what becomes of the contents and the children of every label; parents
follow, since they agree with children.  Whatever is proved of edits goes through `effect_of_apply`.
-/

namespace TreeSelectors

/-- The parent and the content of the node that an edit appends, if it is an edit that appends. -/
def Edit.appended? : Edit → Option (Nat × Content)
  | appendElement parent tag => some (parent, .element (Text.fold tag) [])
  | appendText parent s => some (parent, .text s)
  | appendComment parent s => some (parent, .comment s)
  | setAttribute _ _ _ | remove _ => none

namespace Document

variable {d d' : Document} {n m p : Nat} {c : Content} {a : Attribute} {e : Edit}

/-! ## The three effects -/

/-- A new last child under the live node `p`, with the next label. -/
structure Appended (d : Document) (p : Nat) (c : Content) (d' : Document) : Prop where
  live : d.isLive p
  next : d'.next = d.next + 1
  content? : ∀ m, d'.content? m = if m = d.next then some c else d.content? m
  children : ∀ m, d'.view.children m = d.view.children m ++ if m = p then [d.next] else []

/-- One more attribute on the element `n`. -/
structure Attributed (d : Document) (n : Nat) (a : Attribute) (d' : Document) : Prop where
  element : d.view.isElement n
  next : d'.next = d.next
  content? : ∀ m, d'.content? m = (d.content? m).map fun c => if m = n then c.addAttribute a else c
  children : ∀ m, d'.view.children m = d.view.children m

/-- Whatever lies under `n` is gone, and `n` from among the children of its parent. -/
structure Removed (d : Document) (n : Nat) (d' : Document) : Prop where
  live : d.isLive n
  ne_zero : n ≠ 0
  next : d'.next = d.next
  isLive : ∀ m, d'.isLive m ↔ d.isLive m ∧ ¬d.view.Under n m
  content? : ∀ m, ¬d.view.Under n m → d'.content? m = d.content? m
  children : ∀ m, ¬d.view.Under n m → d'.view.children m = (d.view.children m).filter (· ≠ n)

/-- What a successful edit does. -/
inductive Effect (d : Document) : Edit → Document → Prop
  | appended {e : Edit} {p : Nat} {c : Content} {d' : Document} (he : e.appended? = some (p, c))
      (h : d.Appended p c d') : Effect d e d'
  | attributed {n : Nat} {name value : String} {d' : Document}
      (h : d.Attributed n ⟨Text.fold name, value⟩ d') : Effect d (.setAttribute n name value) d'
  | removed {n : Nat} {d' : Document} (h : d.Removed n d') : Effect d (.remove n) d'

/-! ## Edits have them -/

/-- What an append does that succeeds… -/
theorem appended_of_append (h : d.append p c = .ok d') : d.Appended p c d' := by
  rw [append] at h
  split at h
  · next hp =>
    cases h
    have hnew : d.next ∉ d.tree.labels := fun hm => Nat.lt_irrefl _ (d.handedOut _ hm)
    have hself := Forest.find?_appendUnder_self (c := c) d.nodup (d.isLive_iff.1 hp) hnew
    refine ⟨hp, rfl, fun m => ?_, Forest.children_appendUnder d.nodup (d.isLive_iff.1 hp) hnew⟩
    change ((d.tree.appendUnder p d.next c).find? m).map Prod.fst = _
    by_cases hm : m = d.next
    · rw [if_pos hm, hm, hself]
      rfl
    · rw [if_neg hm, Forest.find?_appendUnder_of_ne d.nodup hm, Option.map_map]
      rfl
  · cases h

/-- …what an attribute does on an element… -/
theorem attributed_addAttribute (hn : d.view.isElement n) :
    d.Attributed n a (d.addAttribute n a) where
  element := hn
  next := rfl
  content? m := by
    change ((d.tree.modify n (Content.addAttribute a)).find? m).map Prod.fst = _
    rw [Forest.find?_modify, Option.map_map, Document.content?, Option.map_map]
    rfl
  children := Forest.children_modify n (Content.addAttribute a) d.tree

/-- …and what a removal does. -/
theorem removed_of_remove (h : d.remove n = .ok d') : d.Removed n d' := by
  rw [remove] at h
  split at h
  · cases h
  · next hn =>
    split at h
    · next hlive =>
      cases h
      have hfind (m : Nat) (hm : ¬d.view.Under n m) : (d.tree.prune n).find? m =
          (d.tree.find? m).map fun x => (x.1, x.2.prune n) := by
        rw [Forest.find?_prune d.nodup, if_neg (mt (mem_branch_iff hlive).1 hm)]
      refine ⟨hlive, hn, rfl, fun m => ?_, fun m hm => ?_, fun m hm => ?_⟩
      · change ((d.tree.prune n).find? m).isSome ↔ _
        by_cases hm : d.view.Under n m
        · rw [Forest.find?_prune d.nodup, if_pos ((mem_branch_iff hlive).2 hm)]
          exact ⟨nofun, fun h => absurd hm h.2⟩
        · rw [hfind m hm, Option.isSome_map]
          exact ⟨fun h => ⟨h, hm⟩, fun h => h.1⟩
      · change ((d.tree.prune n).find? m).map Prod.fst = _
        rw [hfind m hm, Option.map_map]
        rfl
      · exact Forest.children_prune d.nodup (mt (mem_branch_iff hlive).1 hm)
    · cases h

/-- Every live node but the document node can be removed. -/
theorem exists_remove (hlive : d.isLive n) (hn : n ≠ 0) : ∃ d', d.apply (.remove n) = .ok d' := by
  change ∃ d', d.remove n = .ok d'
  rw [remove, dif_neg hn, if_pos hlive]
  exact ⟨_, rfl⟩

/-- An edit that appends is the same as appending. -/
theorem apply_eq_append (he : e.appended? = some (p, c)) : d.apply e = d.append p c := by
  cases e <;> cases he <;> rfl

/-- **A successful edit has one of the three effects.** -/
theorem effect_of_apply (h : d.apply e = .ok d') : d.Effect e d' := by
  cases he : e.appended? with
  | some x => exact .appended he (appended_of_append (apply_eq_append he ▸ h))
  | none =>
    cases e with
    | setAttribute n name value =>
      change d.setAttribute n name value = .ok d' at h
      rw [setAttribute] at h
      split at h
      · cases h
      · next c hc =>
        split at h
        · next hel =>
          cases h
          exact .attributed (attributed_addAttribute (by simp [view, hc, hel]))
        · cases h
    | remove n => exact .removed (removed_of_remove h)
    | _ => cases he

/-! ## What follows for lives and parents -/

namespace Appended

variable (h : d.Appended p c d')

include h

theorem isLive_iff : d'.isLive m ↔ m = d.next ∨ d.isLive m := by
  rw [isLive_iff_content?, h.content?, isLive_iff_content?]
  split
  · next hm => simp [hm]
  · next hm => simp [hm]

theorem parent?_of_ne (hm : m ≠ d.next) : d'.view.parent? m = d.view.parent? m := by
  refine d.linked.parent?_congr d'.linked fun q => ?_
  rw [h.children, List.mem_append, or_iff_left]
  split
  · exact fun hq => hm (List.mem_singleton.1 hq)
  · exact List.not_mem_nil

end Appended

namespace Attributed

variable (h : d.Attributed n a d')

include h

theorem isLive_iff : d'.isLive m ↔ d.isLive m := by
  rw [isLive_iff_content?, h.content?, Option.isSome_map, isLive_iff_content?]

theorem parent? (m : Nat) : d'.view.parent? m = d.view.parent? m :=
  d.linked.parent?_congr d'.linked fun q => by rw [h.children]

/-- What is no attribute is shown as before. -/
theorem shows (m : Nat) : d'.view.isElement m = d.view.isElement m ∧
    d'.view.tagName m = d.view.tagName m ∧ d'.view.text? m = d.view.text? m := by
  simp only [view, h.content?]
  cases d.content? m with
  | none => exact ⟨rfl, rfl, rfl⟩
  | some c =>
    simp only [Option.map_some]
    split
    · cases c <;> exact ⟨rfl, rfl, rfl⟩
    · exact ⟨rfl, rfl, rfl⟩

end Attributed

namespace Removed

variable (h : d.Removed n d')

include h

theorem parent?_of_not_under (hm : ¬d.view.Under n m) :
    d'.view.parent? m = d.view.parent? m := by
  have hne : m ≠ n := fun e => hm (e ▸ .refl _)
  refine d.linked.parent?_congr d'.linked fun q => ?_
  by_cases hq : d.view.Under n q
  · have hlive : ¬d'.isLive q := fun hl => ((h.isLive q).1 hl).2 hq
    rw [children_of_not_isLive hlive]
    refine ⟨nofun, fun hmq => absurd (hq.trans (.of_parent ?_)) hm⟩
    exact d.linked.mem_children_iff.1 hmq
  · rw [h.children q hq, List.mem_filter]
    exact and_iff_left (by simpa using hne)

end Removed

/-- Labels are never taken back. -/
theorem Effect.next_le (h : d.Effect e d') : d.next ≤ d'.next := by
  cases h with
  | appended _ h => exact h.next ▸ Nat.le_succ _
  | attributed h => exact h.next.ge
  | removed h => exact h.next.ge

end Document

end TreeSelectors
