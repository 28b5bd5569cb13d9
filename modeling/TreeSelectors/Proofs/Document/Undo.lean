import Mathlib
import TreeSelectors.Proofs.Document.Failure

/-!
# Proofs/Document/Undo — a removal takes back what was appended, and all that came of it

A node is appended, edits are made on it and on what comes to lie under it, and it is removed again.
Labels rise, so the labels of all that is new are at least that of the node.  Two facts are kept on
the way (`Grafted`): without the labels from there on the tree is the old one, and every such label
that is live lies under the node.  Hence nothing but the old tree is left when the node goes.
-/

namespace TreeSelectors

/-! ## The older part of a forest -/

namespace Forest

variable {f : Forest} {n m l : Nat} {c : Content}

/-- The forest without the nodes labelled `n` or higher, and without what lies under those. -/
def olderThan (n : Nat) : Forest → Forest
  | nil => nil
  | cons l c below right =>
    if l < n then cons l c (below.olderThan n) (right.olderThan n) else right.olderThan n

theorem olderThan_eq_self (h : ∀ m ∈ f.labels, m < n) : f.olderThan n = f := by
  induction f with
  | nil => rfl
  | cons l c below right ihb ihr =>
    have hb : below.olderThan n = below := ihb fun m hm =>
      h m (List.mem_cons_of_mem l (List.mem_append_left _ hm))
    have hr : right.olderThan n = right := ihr fun m hm =>
      h m (List.mem_cons_of_mem l (List.mem_append_right _ hm))
    rw [olderThan, if_pos (h l List.mem_cons_self), hb, hr]

theorem olderThan_snoc (h : n ≤ l) (c : Content) (f : Forest) :
    (f.snoc l c).olderThan n = f.olderThan n := by
  induction f with
  | nil => exact if_neg h.not_gt
  | cons k d below right _ ih => rw [snoc, olderThan, olderThan, ih]

/-- A new label is not among the older ones, wherever it is appended. -/
theorem olderThan_appendUnder (h : n ≤ l) (p : Nat) (c : Content) (f : Forest) :
    (f.appendUnder p l c).olderThan n = f.olderThan n := by
  induction f with
  | nil => rfl
  | cons k d below right ihb ihr =>
    have hbelow : (if k = p then below.snoc l c else below.appendUnder p l c).olderThan n =
        below.olderThan n := by
      split
      · exact olderThan_snoc h c below
      · exact ihb
    rw [appendUnder, olderThan, olderThan, hbelow, ihr]

/-- A change to a new node cannot be seen… -/
theorem olderThan_modify (h : n ≤ m) (g : Content → Content) (f : Forest) :
    (f.modify m g).olderThan n = f.olderThan n := by
  induction f with
  | nil => rfl
  | cons l c below right ihb ihr =>
    rw [modify, olderThan, olderThan, ihb, ihr]
    split
    · next hl => rw [if_neg (show l ≠ m by omega)]
    · rfl

/-- …nor can its removal. -/
theorem olderThan_prune (h : n ≤ m) (f : Forest) :
    (f.prune m).olderThan n = f.olderThan n := by
  induction f with
  | nil => rfl
  | cons l c below right ihb ihr =>
    rw [prune, olderThan]
    split
    · next hl => rw [ihr, if_neg (show ¬l < n by omega)]
    · rw [olderThan, ihb, ihr]

end Forest

namespace Document

open TreeView

variable {d d' x x' : Document} {e : Edit} {es : List Edit} {n p : Nat} {c : Content}

/-! ## One edit -/

/-- **Edits from `n` on leave the labels below `n` as they are**; an append may be made anywhere. -/
theorem olderThan_of_apply (h : d.apply e = .ok d') (ht : e.appended? = none → n ≤ e.target)
    (hn : n ≤ d.next) : d'.tree.olderThan n = d.tree.olderThan n := by
  cases he : e.appended? with
  | some y =>
    rw [apply_eq_append he, append] at h
    split at h
    · cases h
      exact Forest.olderThan_appendUnder hn y.1 y.2 d.tree
    · cases h
  | none =>
    cases e with
    | setAttribute m name value =>
      change d.setAttribute m name value = .ok d' at h
      rw [setAttribute] at h
      split at h
      · cases h
      · split at h
        · cases h
          exact Forest.olderThan_modify (ht rfl) _ d.tree
        · cases h
    | remove m =>
      change d.remove m = .ok d' at h
      rw [remove] at h
      split at h
      · cases h
      · split at h
        · cases h
          exact Forest.olderThan_prune (ht rfl) d.tree
        · cases h
    | _ => cases he

/-! ## What is kept until the removal -/

/-- `x` is `d` but for what lies under the node that `d` labels next. -/
structure Grafted (d x : Document) : Prop where
  older : x.tree.olderThan d.next = d.tree
  live : x.isLive d.next
  under : ∀ m, x.isLive m → d.next ≤ m → x.view.Under d.next m

theorem olderThan_next (d : Document) : d.tree.olderThan d.next = d.tree :=
  Forest.olderThan_eq_self d.handedOut

/-- One node has been grafted on. -/
theorem grafted_of_append (he : e.appended? = some (p, c)) (h : d.apply e = .ok x) :
    d.Grafted x := by
  have ha := appended_of_append (apply_eq_append he ▸ h)
  refine ⟨?_, ha.isLive_iff.2 (.inl rfl), fun m hm hle => ?_⟩
  · rw [olderThan_of_apply h (fun hn => by rw [hn] at he; cases he) le_rfl, olderThan_next]
  · obtain rfl | hold := ha.isLive_iff.1 hm
    · exact .refl _
    · exact absurd hle (lt_next hold).not_ge

namespace Grafted

variable (h : d.Grafted x)

include h

/-- A node appended under the graft belongs to it. -/
theorem appended (ha : x.Appended p c x') (hp : d.next ≤ p) (m : Nat) (hm : x'.isLive m)
    (hle : d.next ≤ m) : x'.view.Under d.next m := by
  have hold {m : Nat} (hm : x.isLive m) (hle : d.next ≤ m) : x'.view.Under d.next m := by
    refine (h.under m hm hle).of_parent?_eq fun k hk => ha.parent?_of_ne ?_
    exact (lt_next (isLive_of_above hk hm)).ne
  obtain rfl | hlive := ha.isLive_iff.1 hm
  · have hmem : x.next ∈ x'.view.children p := by
      rw [ha.children, if_pos rfl]
      exact List.mem_append_right _ List.mem_cons_self
    exact (hold ha.live hp).trans (.of_parent (x'.linked.mem_children_iff.1 hmem))
  · exact hold hlive hle

/-- **Every edit on the graft keeps it one**, but for the removal of its top. -/
theorem attempt (ht : d.next ≤ e.target) (hne : e ≠ .remove d.next) : d.Grafted (x.attempt e) := by
  rw [Document.attempt]
  cases hx : x.apply e with
  | error cause => exact h
  | ok x' =>
    have holder : x'.tree.olderThan d.next = d.tree :=
      (olderThan_of_apply hx (fun _ => ht) (lt_next h.live).le).trans h.older
    cases effect_of_apply hx with
    | appended he ha =>
      rw [Edit.target_of_appended? he] at ht
      exact ⟨holder, ha.isLive_iff.2 (.inr h.live), h.appended ha ht⟩
    | attributed ha =>
      refine ⟨holder, ha.isLive_iff.2 h.live, fun m hm hle => ?_⟩
      exact (h.under m (ha.isLive_iff.1 hm) hle).of_parent?_eq fun k _ => ha.parent? k
    | @removed q _ hr =>
      have hq : ¬x.view.Under q d.next := fun hu => hne (by rw [(le_of_under hu).antisymm ht])
      refine ⟨holder, (hr.isLive _).2 ⟨h.live, hq⟩, fun m hm hle => ?_⟩
      obtain ⟨hlive, hu⟩ := (hr.isLive m).1 hm
      refine (h.under m hlive hle).of_parent?_eq fun k hk => hr.parent?_of_not_under ?_
      exact fun hqk => hu (hqk.trans hk)

/-- **A run on new labels leaves a graft**, by induction on its edits. -/
theorem attemptAll (hes : ∀ e ∈ es, d.next ≤ e.target ∧ e ≠ .remove d.next) :
    d.Grafted (x.attemptAll es) := by
  induction es generalizing x with
  | nil => exact h
  | cons e es ih =>
    obtain ⟨ht, hne⟩ := hes e List.mem_cons_self
    exact ih (h.attempt ht hne) fun f hf => hes f (List.mem_cons_of_mem e hf)

/-- **Without the graft the tree is the old one.** -/
theorem tree_eq (hx : x.apply (.remove d.next) = .ok x') : x'.tree = d.tree := by
  have hr := removed_of_remove hx
  have hlabels : ∀ m ∈ x'.tree.labels, m < d.next := by
    intro m hm
    obtain ⟨hlive, hu⟩ := (hr.isLive m).1 (x'.isLive_iff.2 hm)
    exact Nat.lt_of_not_ge fun hle => hu (h.under m hlive hle)
  rw [← Forest.olderThan_eq_self hlabels, ← h.older]
  exact olderThan_of_apply hx (fun _ => le_rfl) (lt_next h.live).le

end Grafted

/-! ## The whole run -/

/-- **A removal undoes an append**, whatever was done to the new node and under it meanwhile: edits
on labels from the new one on, failing or not, that do not remove the node itself.  No label, no
selector and no search tells the document from what it was. -/
theorem attemptAll_looksLike (hp : d.isLive p) (he : e.appended? = some (p, c))
    (hes : ∀ f ∈ es, d.next ≤ f.target ∧ f ≠ .remove d.next) :
    (d.attemptAll (e :: es)).Succeeds (.remove d.next) ∧
      (d.attemptAll (e :: es ++ [.remove d.next])).LooksLike d := by
  obtain ⟨x, hx⟩ : ∃ x, d.append p c = .ok x := succeeds_append_iff.2 hp
  rw [← apply_eq_append he] at hx
  have hrun : d.attemptAll (e :: es) = x.attemptAll es := by
    rw [← attempt_of_apply hx]
    rfl
  have hgraft : d.Grafted (d.attemptAll (e :: es)) :=
    hrun ▸ (grafted_of_append he hx).attemptAll hes
  have hne : d.next ≠ 0 := (lt_next d.isLive_zero).ne'
  obtain ⟨y, hy⟩ := exists_remove hgraft.live hne
  refine ⟨⟨y, hy⟩, looksLike_of_tree_eq ?_⟩
  rw [attemptAll_append]
  exact (congrArg Document.tree (attempt_of_apply hy)).trans (hgraft.tree_eq hy)

/-- …as of a list item, whose text and whose mark have come, changed and gone in the meantime; the
last edit finds nothing to be made on. -/
theorem attemptAll_looksLike_item :
    let d := new.attemptAll [.appendElement 0 "ul", .appendElement 1 "li"]
    let e : Edit := .appendElement 1 "LI"
    let es : List Edit := [.appendElement 3 "b", .appendText 4 "x", .setAttribute 3 "class" "new",
      .remove 4, .appendText 5 "y"]
    (d.isLive 1 ∧ e.appended? = some (1, .element "li" []) ∧
        (∀ f ∈ es, d.next ≤ f.target ∧ f ≠ .remove d.next) ∧ d.next = 3) ∧
      (d.attemptAll (e :: es)).Succeeds (.remove 3) ∧
        (d.attemptAll (e :: es ++ [.remove 3])).LooksLike d := by
  intro d e es
  have hp : d.isLive 1 := by decide +kernel
  have he : e.appended? = some (1, .element "li" []) := by decide +kernel
  have hes : ∀ f ∈ es, d.next ≤ f.target ∧ f ≠ .remove d.next := by decide +kernel
  have hnext : d.next = 3 := by decide +kernel
  have h := attemptAll_looksLike hp he hes
  rw [hnext] at h
  exact ⟨⟨hp, he, hes, hnext⟩, h⟩

end Document

end TreeSelectors
