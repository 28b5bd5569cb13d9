import Mathlib
import TreeSelectors.Proofs.Document.History
import TreeSelectors.Proofs.Tree.Polarity

/-!
# Proofs/Document/Attributes — attributes are added and never replaced

Setting an attribute puts it behind those that its element has, whatever their names, and changes
nothing else that can be seen (`Attributed.view_eq`).  So the answers of a selector change in one
direction only, which the negations in it decide.  Over a run the attributes of a node are those
that the edits gave to it, in the order of the edits.
-/

namespace TreeSelectors

/-! ## What an attribute changes -/

theorem Content.attributes_addAttribute {a : Attribute} {c : Content} (h : c.isElement) :
    (c.addAttribute a).attributes = c.attributes ++ [a] := by
  cases c with
  | element tag attributes => rfl
  | document | text s | comment s => cases h

/-- The attribute that the edit gives to the node `n`, if it gives one. -/
def Edit.given? (n : Nat) : Edit → Option Attribute
  | setAttribute m name value => if n = m then some ⟨Text.fold name, value⟩ else none
  | appendElement _ _ | appendText _ _ | appendComment _ _ | remove _ => none

namespace Document

variable {d d' : Document} {n m : Nat} {a : Attribute} {e : Edit} {es : List Edit}

/-- **One element has an attribute more**, and every other node has those that it had. -/
theorem Attributed.attributes_eq (h : d.Attributed n a d') (m : Nat) :
    d'.view.attributes m = d.view.attributes m ++ if m = n then [a] else [] := by
  simp only [view, h.content?]
  by_cases hm : m = n
  · subst hm
    obtain ⟨c, hc, helement⟩ := (Option.any_eq_true _ _).1 h.element
    have hc : d.content? m = some c := hc
    simp [hc, Content.attributes_addAttribute helement]
  · simp [hm]

/-- **An attribute more is all that changes.** -/
theorem Attributed.view_eq (h : d.Attributed n a d') :
    d'.view = d.view.withAttributes fun m =>
      d.view.attributes m ++ if m = n then [a] else [] := by
  have hview (v : TreeView Nat) : v = ⟨v.isElement, v.tagName, v.attributes, v.text?, v.parent?,
    v.children⟩ := rfl
  rw [hview d'.view, TreeView.withAttributes, TreeView.mk.injEq]
  exact ⟨funext fun m => (h.shows m).1, funext fun m => (h.shows m).2.1, funext h.attributes_eq,
    funext fun m => (h.shows m).2.2, funext h.parent?, funext h.children⟩

/-- What an edit that succeeds has set; the name is folded. -/
theorem attributed_of_setAttribute {name value : String}
    (h : d.setAttribute n name value = .ok d') : d.Attributed n ⟨Text.fold name, value⟩ d' := by
  cases effect_of_apply (e := .setAttribute n name value) h with
  | appended he h => cases he
  | attributed h => exact h

/-! ## Answers -/

/-- **Setting an attribute only ever adds answers**, as far as selectors ask for attributes under an
even number of negations; under an odd number it only ever takes answers away, and where they do not
ask for attributes it changes none.  The new attribute comes behind those that are there, and hides
none of them. -/
theorem setAttribute_adds_answers {name value : String}
    (h : d.setAttribute n name value = .ok d') (s : Selector) :
    (s.Positive → ∀ m, s.selects d.view m → s.selects d'.view m) ∧
      (s.Negative → ∀ m, s.selects d'.view m → s.selects d.view m) ∧
      (s.attributeDepths = [] → ∀ m, s.selects d'.view m = s.selects d.view m) ∧
      (∀ m, d'.view.attributes m =
        d.view.attributes m ++ if m = n then [⟨Text.fold name, value⟩] else []) ∧
      ∀ m key test, d.view.hasAttribute m key test → d'.view.hasAttribute m key test := by
  have hadded := attributed_of_setAttribute h
  have hmore (m : Nat) : d.view.attributes m ⊆
      d.view.attributes m ++ if m = n then [⟨Text.fold name, value⟩] else [] :=
    List.subset_append_left _ _
  have hattributes := hadded.attributes_eq
  rw [hadded.view_eq] at hattributes ⊢
  exact ⟨fun hs m => (Selector.selects_withAttributes (hmore m) s).1 hs,
    fun hs m => (Selector.selects_withAttributes (hmore m) s).2 hs,
    fun hs m => Selector.selects_withAttributes_eq (hmore m) hs, hattributes,
    fun m _ _ => TreeView.hasAttribute_withAttributes (hmore m)⟩

/-- …as where a second `class` comes to an element: it is in both classes then, and the negation of
the second one has lost it. -/
theorem setAttribute_adds_answers_class :
    let d := new.attemptAll [.appendElement 0 "p", .setAttribute 1 "class" "a"]
    let d' := d.addAttribute 1 ⟨"class", "b"⟩
    let s := Selector.inter (.className "a") (.negation (.negation (.attr "class" .present)))
    let r := Selector.negation (.inter (.tag "p") (.className "b"))
    d.setAttribute 1 "CLASS" "b" = .ok d' ∧
      (s.Positive ∧ s.selects d.view 1 ∧ ∀ m, s.selects d.view m → s.selects d'.view m) ∧
      (r.Negative ∧ r.selects d.view 1 ∧ ¬r.selects d'.view 1 ∧
        ∀ m, r.selects d'.view m → r.selects d.view m) ∧
      (Selector.empty.attributeDepths = [] ∧
        ∀ m, Selector.empty.selects d'.view m = Selector.empty.selects d.view m) := by
  intro d d' s r
  have h : d.setAttribute 1 "CLASS" "b" = .ok d' := rfl
  have hs : s.Positive := by decide
  have hr : r.Negative := by decide
  refine ⟨h, ⟨hs, by decide +kernel, ?_⟩, ⟨hr, by decide +kernel, by decide +kernel, ?_⟩, rfl, ?_⟩
  · exact (setAttribute_adds_answers h s).1 hs
  · exact (setAttribute_adds_answers h r).2.1 hr
  · exact (setAttribute_adds_answers h .empty).2.2.1 rfl

/-! ## Runs -/

/-- One edit gives `n` an attribute more or leaves it those it has, unless it takes `n` away. -/
theorem Effect.attributes_eq (h : d.Effect e d') (hn : ∀ r, e = .remove r → ¬d.view.Under r n) :
    d'.view.attributes n = d.view.attributes n ++ (e.given? n).toList := by
  cases h with
  | @appended _ p c _ he h =>
    have hgiven : e.given? n = none := by cases e <;> cases he <;> rfl
    have hnone : c.attributes = [] := by cases e <;> cases he <;> rfl
    rw [hgiven, Option.toList_none, List.append_nil]
    by_cases hnext : n = d.next
    · have hgone : ¬d.isLive n := fun hlive => (lt_next hlive).ne hnext
      rw [(d.sound.missing n hgone).2.2.2.2.2]
      simp only [view, h.content?, if_pos hnext, Option.map_some, Option.getD_some, hnone]
    · have hcontent : d'.content? n = d.content? n := by rw [h.content?, if_neg hnext]
      simp only [view, hcontent]
  | @attributed m name value _ h =>
    rw [h.attributes_eq, Edit.given?]
    split <;> rfl
  | @removed r _ h =>
    have hcontent : d'.content? n = d.content? n := h.content? n (hn r rfl)
    simp only [view, hcontent, Edit.given?, Option.toList_none, List.append_nil]

/-- The edits of a run that begins with a new document, those that fail left out. -/
def made (es : List Edit) : List Edit :=
  ((new.history es).filter fun x => (x.1.apply x.2).isOk).map Prod.snd

theorem made_concat (es : List Edit) (e : Edit) :
    made (es ++ [e]) = made es ++ if ((new.attemptAll es).apply e).isOk then [e] else [] := by
  simp only [made, history_append, history, List.filter_append, List.map_append,
    List.filter_singleton]
  cases ((new.attemptAll es).apply e).isOk <;> rfl

/-- **The attributes of a node are those that the edits gave to it**, in the order of the edits and
each as often as it was given. -/
theorem attributes_attemptAll (h : ¬TakenAway es n) :
    (new.attemptAll es).view.attributes n = (made es).filterMap (Edit.given? n) := by
  induction es using List.reverseRecOn with
  | nil =>
    have hnew : new.content? n = if 0 = n then some .document else none := by
      rw [content?, new, Forest.find?]
      split <;> rfl
    simp only [attemptAll, List.foldl_nil, view, hnew]
    split <;> rfl
  | append_singleton es e ih =>
    rw [takenAway_append, not_or] at h
    rw [attemptAll_append, made_concat, List.filterMap_append, ← ih h.1]
    change ((new.attemptAll es).attempt e).view.attributes n = _
    rw [attempt]
    cases hd : (new.attemptAll es).apply e with
    | error cause => simp [Except.isOk, Except.toBool]
    | ok d' =>
      have hstep := (effect_of_apply hd).attributes_eq (n := n) ?_
      · rw [hstep]
        cases hg : e.given? n <;> simp [Except.isOk, Except.toBool, hg]
      · rintro r rfl hu
        exact h.2 ⟨_, List.mem_singleton_self _, ⟨d', hd⟩, r, rfl, hu⟩

end Document

end TreeSelectors
