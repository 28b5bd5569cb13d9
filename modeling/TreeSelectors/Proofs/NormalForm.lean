import Mathlib
import TreeSelectors.Proofs.Characters
import TreeSelectors.Selector.Basic

/-!
# Proofs/NormalForm — what a selector is as one sequence

A selector nests conjunctions as it likes; a sequence is a row of conjuncts with at most one tag or
universal selector, which stands in front.  `normal` flattens, rearranges (`arrange`) and folds a
selector into that shape, and `Canonical` says which selectors have it.
-/

namespace TreeSelectors

open Text

namespace Selector

/-! ## Conjunctions -/

/-- What all of `ss` select, joined from left to right; of no conjuncts, every element. -/
def conjunction : List Selector → Selector
  | [] => universal
  | s :: ss => ss.foldl inter s

theorem conjunction_snoc {ss : List Selector} (h : ss ≠ []) (s : Selector) :
    conjunction (ss ++ [s]) = inter (conjunction ss) s := by
  obtain ⟨r, rs, rfl⟩ := List.exists_cons_of_ne_nil h
  exact List.foldl_append

/-- Every tag, id, class and key of the selector satisfies `p`. -/
def EveryName (p : String → Prop) : Selector → Prop
  | tag name | id name | className name | attr name _ => p name
  | inter left right => left.EveryName p ∧ right.EveryName p
  | negation inner => inner.EveryName p
  | universal | nthChild _ _ _ | onlyChild _ | empty | root => True

/-! ## The normal form -/

/-- Whether the selector is a tag. -/
def isTag : Selector → Bool
  | tag _ => true
  | _ => false

/-- A conjunct where no tag can stand: a tag is negated twice. -/
def behind : Selector → Selector
  | tag name => negation (negation (tag name))
  | s => s

/-- What comes to the front: the first tag, or one universal selector if there is no tag. -/
def fronts (ss : List Selector) : List Selector :=
  match ss.find? isTag with
  | some t => [t]
  | none => if universal ∈ ss then [universal] else []

/-- What stays in its place: all but the first tag and the universal selectors. -/
def rears (ss : List Selector) : List Selector :=
  ((ss.eraseP isTag).filter (· ≠ universal)).map behind

/-- The conjuncts in an order that a sequence has. -/
def arrange (ss : List Selector) : List Selector :=
  fronts ss ++ rears ss

/-- **Nothing is lost by taking the first tag to the front.** -/
theorem perm_find?_eraseP (ss : List Selector) :
    ((ss.find? isTag).toList ++ ss.eraseP isTag).Perm ss := by
  induction ss with
  | nil => exact .refl _
  | cons s ss ih =>
    by_cases hs : s.isTag
    · rw [List.find?_cons_of_pos hs, List.eraseP_cons_of_pos hs]
      exact .refl _
    · rw [List.find?_cons_of_neg hs, List.eraseP_cons_of_neg hs]
      exact List.perm_middle.trans (ih.cons s)

/-- The conjuncts of a selector from left to right, each in normal form. -/
def normalConjuncts : Selector → List Selector
  | inter left right => left.normalConjuncts ++ right.normalConjuncts
  | negation inner => [negation (conjunction (arrange inner.normalConjuncts))]
  | tag name => [tag (fold (withoutNul name))]
  | id value => [id (withoutNul value)]
  | className name => [className (withoutNul name)]
  | attr key test => [attr (fold (withoutNul key)) test]
  | universal => [universal]
  | nthChild nth fromEnd sameTag => [nthChild nth fromEnd sameTag]
  | onlyChild sameTag => [onlyChild sameTag]
  | empty => [empty]
  | root => [root]

/-- **The normal form**: flattened, rearranged and joined from left to right at every level, letter
case folded in tags and keys, U+0000 replaced in every name. -/
def normal (s : Selector) : Selector :=
  conjunction (arrange s.normalConjuncts)

/-! ## Canonical selectors

`front` tells whether the place is the front of a sequence, where alone a tag or `*` can stand. -/

/-- The selectors that can stand at a place of a sequence, as a reader builds them. -/
def CanonicalAt (front : Bool) : Selector → Prop
  | universal => front
  | tag name => front ∧ name ≠ "" ∧ isFolded name
  | id value => value ≠ ""
  | className name => name ≠ ""
  | attr key _ => key ≠ "" ∧ isFolded key
  | inter left right => front ∧ left.CanonicalAt true ∧ right.CanonicalAt false
  | negation inner => inner.CanonicalAt true
  | nthChild _ _ _ | onlyChild _ | empty | root => True

/-- The selectors that are one sequence. -/
def Canonical (s : Selector) : Prop :=
  s.CanonicalAt true

/-- What can stand behind a front can stand at one. -/
theorem CanonicalAt.canonical {s : Selector} (h : s.CanonicalAt false) : s.Canonical := by
  cases s with
  | universal => cases h
  | tag name => cases h.1
  | inter left right => cases h.1
  | _ => exact h

theorem CanonicalAt.ne_universal {s : Selector} (h : s.CanonicalAt false) : s ≠ universal := by
  rintro rfl
  cases h

/-- Tags stand only in front. -/
theorem CanonicalAt.isTag_eq_false {s : Selector} (h : s.CanonicalAt false) : s.isTag = false := by
  cases s with
  | tag name => cases h.1
  | _ => rfl

/-- **A row is canonical** if its first member is, at a front, and the others behind one. -/
theorem canonical_conjunction {ss : List Selector} (h : ∀ s ∈ ss.head?, s.Canonical)
    (ht : ∀ s ∈ ss.tail, s.CanonicalAt false) : (conjunction ss).Canonical := by
  induction ss using List.reverseRecOn with
  | nil => exact rfl
  | append_singleton ss s ih =>
    cases ss with
    | nil => exact h s rfl
    | cons r rs =>
      rw [conjunction_snoc (List.cons_ne_nil r rs)]
      refine ⟨rfl, ih h fun t hs => ht t (List.mem_append_left _ hs), ?_⟩
      exact ht s (List.mem_append_right _ List.mem_cons_self)

theorem behind_eq_self {s : Selector} (h : s.isTag = false) : s.behind = s := by
  cases s with
  | tag name => cases h
  | _ => rfl

/-- What comes last and could not be a front leaves the front as it is… -/
theorem fronts_snoc {s : Selector} (hu : s ≠ universal) (ht : s.isTag = false)
    (ss : List Selector) : fronts (ss ++ [s]) = fronts ss := by
  have hf : (ss ++ [s]).find? isTag = ss.find? isTag := by
    rw [List.find?_append, List.find?_cons_of_neg (by simp [ht]), List.find?_nil, Option.or_none]
  rw [fronts, fronts, hf]
  simp only [List.mem_append, List.mem_singleton, hu.symm, or_false]

/-- …and stays behind it. -/
theorem rears_snoc {s : Selector} (hu : s ≠ universal) (ht : s.isTag = false)
    (ss : List Selector) : rears (ss ++ [s]) = rears ss ++ [s] := by
  have he : (ss ++ [s]).eraseP isTag = ss.eraseP isTag ++ [s] := by
    rw [List.eraseP_append]
    split
    · rfl
    · next hs =>
      rw [List.eraseP_of_forall_not fun t h h' => hs (List.any_eq_true.2 ⟨t, h, h'⟩),
        List.eraseP_cons_of_neg (by simp [ht]), List.eraseP_nil]
  rw [rears, he]
  simp [rears, hu, behind_eq_self ht]

/-- What can stand behind the front stays where it is. -/
theorem arrange_snoc {s : Selector} (h : s.CanonicalAt false) (ss : List Selector) :
    arrange (ss ++ [s]) = arrange ss ++ [s] := by
  rw [arrange, fronts_snoc h.ne_universal h.isTag_eq_false,
    rears_snoc h.ne_universal h.isTag_eq_false, arrange, List.append_assoc]

/-- A selector has a conjunct at least. -/
theorem normalConjuncts_ne_nil (s : Selector) : s.normalConjuncts ≠ [] := by
  induction s with
  | inter left right ihl _ => exact List.append_ne_nil_of_left_ne_nil ihl _
  | _ => exact List.cons_ne_nil _ _

theorem arrange_ne_nil {ss : List Selector} (h : ss ≠ []) : arrange ss ≠ [] := by
  intro he
  obtain ⟨hf, hr⟩ := List.append_eq_nil_iff.1 he
  rw [fronts] at hf
  split at hf
  · cases hf
  · next hnone =>
    split at hf
    · cases hf
    · next hu =>
      obtain ⟨s, ss, rfl⟩ := List.exists_cons_of_ne_nil h
      have hs : isTag s = false := by simpa using List.find?_eq_none.1 hnone s List.mem_cons_self
      have hne : s ≠ universal := fun e => hu (e ▸ List.mem_cons_self)
      simp [rears, hs, hne] at hr

theorem normal_eq_of_normalConjuncts {s : Selector} (h : s.CanonicalAt false)
    (hs : s.normalConjuncts = [s]) : s.normal = s := by
  rw [normal, hs]
  exact congrArg conjunction (arrange_snoc h [])

/-- A canonical selector without U+0000 is its own normal form.  Behind a front it is its only
conjunct, which carries the induction through a conjunction. -/
theorem Canonical.normal_eq {s : Selector} (h : s.Canonical)
    (hn : s.EveryName fun name => '\x00' ∉ name.toList) :
    s.normal = s ∧ (s.CanonicalAt false → s.normalConjuncts = [s]) := by
  induction s with
  | universal => exact ⟨rfl, fun _ => rfl⟩
  | tag name =>
    have hname : fold (withoutNul name) = name := by
      rw [withoutNul_eq_self hn, fold_eq_self_iff.2 h.2.2]
    exact ⟨congrArg tag hname, fun _ => congrArg (fun name => [tag name]) hname⟩
  | id value =>
    have hs : (id value).normalConjuncts = [id value] := by
      rw [normalConjuncts, withoutNul_eq_self hn]
    exact ⟨normal_eq_of_normalConjuncts h hs, fun _ => hs⟩
  | className name =>
    have hs : (className name).normalConjuncts = [className name] := by
      rw [normalConjuncts, withoutNul_eq_self hn]
    exact ⟨normal_eq_of_normalConjuncts h hs, fun _ => hs⟩
  | attr key test =>
    have hs : (attr key test).normalConjuncts = [attr key test] := by
      rw [normalConjuncts, withoutNul_eq_self hn, fold_eq_self_iff.2 h.2]
    exact ⟨normal_eq_of_normalConjuncts h hs, fun _ => hs⟩
  | inter left right ihl ihr =>
    obtain ⟨-, hl, hr⟩ := h
    obtain ⟨hleft, -⟩ := ihl hl hn.1
    obtain ⟨-, hright⟩ := ihr hr.canonical hn.2
    refine ⟨?_, fun h => nomatch h.1⟩
    rw [normal, normalConjuncts, hright hr, arrange_snoc hr,
      conjunction_snoc (arrange_ne_nil left.normalConjuncts_ne_nil)]
    exact congrArg (inter · right) hleft
  | negation inner ih =>
    obtain ⟨hinner, -⟩ := ih h hn
    have hs : (negation inner).normalConjuncts = [negation inner] :=
      congrArg (fun s => [negation s]) hinner
    exact ⟨normal_eq_of_normalConjuncts h hs, fun _ => hs⟩
  | _ => exact ⟨rfl, fun _ => rfl⟩

/-! ## Names of a normal form -/

/-- What holds of the names of all conjuncts holds of those of their conjunction. -/
theorem everyName_conjunction {p : String → Prop} {ss : List Selector}
    (h : ∀ s ∈ ss, s.EveryName p) : (conjunction ss).EveryName p := by
  induction ss using List.reverseRecOn with
  | nil => exact trivial
  | append_singleton ss s ih =>
    have hs := h s (List.mem_append_right _ List.mem_cons_self)
    cases ss with
    | nil => exact hs
    | cons r rs =>
      rw [conjunction_snoc (List.cons_ne_nil r rs)]
      exact ⟨ih fun t ht => h t (List.mem_append_left _ ht), hs⟩

theorem everyName_arrange {p : String → Prop} {ss : List Selector}
    (h : ∀ s ∈ ss, s.EveryName p) : ∀ s ∈ arrange ss, s.EveryName p := by
  intro s hs
  obtain hs | hs := List.mem_append.1 hs
  · rw [fronts] at hs
    split at hs
    · next t ht =>
      obtain rfl := List.mem_singleton.1 hs
      exact h s (List.mem_of_find?_eq_some ht)
    · split at hs
      · obtain rfl := List.mem_singleton.1 hs
        exact trivial
      · cases hs
  · obtain ⟨r, hr, rfl⟩ := List.mem_map.1 hs
    have hp := h r (List.mem_of_mem_eraseP (List.mem_of_mem_filter hr))
    cases r <;> exact hp

/-- No name of a normal form holds U+0000. -/
theorem everyName_normal (s : Selector) :
    s.normal.EveryName fun name => '\x00' ∉ name.toList := by
  refine everyName_conjunction (everyName_arrange ?_)
  induction s with
  | inter left right ihl ihr =>
    intro r hr
    exact (List.mem_append.1 hr).elim (ihl r) (ihr r)
  | negation inner ih =>
    intro r hr
    obtain rfl := List.mem_singleton.1 hr
    exact everyName_conjunction (everyName_arrange ih)
  | tag name | attr name _ =>
    intro r hr
    obtain rfl := List.mem_singleton.1 hr
    exact nul_notMem_fold (nul_notMem_withoutNul name)
  | id name | className name =>
    intro r hr
    obtain rfl := List.mem_singleton.1 hr
    exact nul_notMem_withoutNul name
  | _ =>
    intro r hr
    obtain rfl := List.mem_singleton.1 hr
    exact trivial

/-- **A canonical selector is its own normal form exactly if no name holds U+0000.** -/
theorem Canonical.normal_eq_self_iff {s : Selector} (h : s.Canonical) :
    s.normal = s ↔ s.EveryName fun name => '\x00' ∉ name.toList :=
  ⟨fun hs => hs ▸ s.everyName_normal, fun hn => (h.normal_eq hn).1⟩

end Selector

end TreeSelectors
