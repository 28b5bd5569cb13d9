import Mathlib
import TreeSelectors.Proofs.NormalForm
import TreeSelectors.Selector.Specificity

/-!
# Proofs/Specificity — a specificity is a clamped count of leaves

The sums of a specificity clamp at every step; clamping once at the end gives the same, so the shape
of a selector does not matter, and neither does the arrangement of its conjuncts.  What matters is
how many ids, classes and tags there are among its `atoms`, the leaves in any order.
-/

namespace TreeSelectors

namespace Selector

/-- The ids, the classes (with attributes and pseudo-classes) and the tags of a selector, as many as
there are. -/
def leaves : Selector → ℕ × ℕ × ℕ
  | universal => 0
  | tag _ => (0, 0, 1)
  | id _ => (1, 0, 0)
  | inter left right => left.leaves + right.leaves
  | negation inner => inner.leaves
  | className _ | attr _ _ | nthChild _ _ _ | onlyChild _ | empty | root => (0, 1, 0)

end Selector

namespace Specificity

/-- A count as a word of 16 bits, or the largest word. -/
def clampCount (k : ℕ) : UInt16 :=
  UInt16.ofNat (min k 65535)

/-- Three counts, each clamped. -/
def clamp (k : ℕ × ℕ × ℕ) : Specificity :=
  ⟨clampCount k.1, clampCount k.2.1, clampCount k.2.2⟩

theorem toNat_clampCount (k : ℕ) : (clampCount k).toNat = min k 65535 := by
  rw [clampCount, UInt16.toNat_ofNat_of_lt']
  exact Nat.lt_of_le_of_lt (Nat.min_le_right _ _) (by decide)

/-- **Clamping once is clamping at every step.** -/
theorem clampedAdd_clampCount (j k : ℕ) :
    clampedAdd (clampCount j) (clampCount k) = clampCount (j + k) := by
  rw [← UInt16.toNat_inj, toNat_clampedAdd, toNat_clampCount, toNat_clampCount, toNat_clampCount]
  omega

theorem clamp_add (j k : ℕ × ℕ × ℕ) : clamp j + clamp k = clamp (j + k) := by
  change Specificity.mk _ _ _ = Specificity.mk _ _ _
  simp only [clamp, clampedAdd_clampCount, Prod.fst_add, Prod.snd_add]

end Specificity

namespace Selector

/-- **A specificity is the clamped count of the leaves.** -/
theorem specificity_eq_clamp (s : Selector) : s.specificity = .clamp s.leaves := by
  induction s with
  | inter left right ihl ihr => rw [specificity, leaves, ihl, ihr, Specificity.clamp_add]
  | negation inner ih => exact ih
  | _ => rfl

/-! ## The leaves of a normal form -/

theorem leaves_conjunction (ss : List Selector) :
    (conjunction ss).leaves = (ss.map leaves).sum := by
  induction ss using List.reverseRecOn with
  | nil => rfl
  | append_singleton ss s ih =>
    rw [List.map_append, List.sum_append, ← ih]
    cases ss with
    | nil => simp [conjunction, leaves]
    | cons r rs =>
      rw [conjunction_snoc (List.cons_ne_nil r rs), leaves, List.map_singleton, List.sum_singleton]

theorem leaves_behind (s : Selector) : s.behind.leaves = s.leaves := by
  cases s <;> rfl

/-- Leaving `*` out and negating tags twice takes no leaf away. -/
theorem sum_leaves_behind (ss : List Selector) :
    (((ss.filter (· ≠ universal)).map behind).map leaves).sum = (ss.map leaves).sum := by
  induction ss with
  | nil => rfl
  | cons s ss ih =>
    by_cases hs : s = universal
    · subst hs
      rw [List.filter_cons_of_neg (by simp), ih]
      exact (zero_add _).symm
    · rw [List.filter_cons_of_pos (by simpa using hs)]
      simp only [List.map_cons, List.sum_cons, leaves_behind, ih]

/-- An arrangement has the leaves that it had. -/
theorem sum_leaves_arrange (ss : List Selector) :
    ((arrange ss).map leaves).sum = (ss.map leaves).sum := by
  have hfronts : ((fronts ss).map leaves).sum
      = ((ss.find? isTag).toList.map leaves).sum := by
    rw [fronts]
    split
    · next h => rw [h]; rfl
    · next h => rw [h]; split <;> rfl
  calc ((arrange ss).map leaves).sum
      = ((ss.find? isTag).toList.map leaves).sum + ((ss.eraseP isTag).map leaves).sum := by
        rw [arrange, List.map_append, List.sum_append, hfronts, rears, sum_leaves_behind]
    _ = (((ss.find? isTag).toList ++ ss.eraseP isTag).map leaves).sum := by
        rw [List.map_append, List.sum_append]
    _ = (ss.map leaves).sum := ((perm_find?_eraseP ss).map leaves).sum_eq

/-- **The normal form has the leaves of the selector.** -/
theorem leaves_normal (s : Selector) : s.normal.leaves = s.leaves := by
  rw [normal, leaves_conjunction, sum_leaves_arrange]
  induction s with
  | inter left right ihl ihr =>
    rw [normalConjuncts, List.map_append, List.sum_append, ihl, ihr, leaves]
  | negation inner ih =>
    rw [normalConjuncts, List.map_singleton, List.sum_singleton, leaves, leaves_conjunction,
      sum_leaves_arrange, ih, leaves]
  | _ => rfl

/-- **The normal form says as much as the selector**, beyond the top count too. -/
theorem specificity_normal (s : Selector) : s.normal.specificity = s.specificity := by
  rw [specificity_eq_clamp, specificity_eq_clamp, leaves_normal]

/-! ## Counting leaves -/

/-- The leaves of a selector from left to right, those under negations included. -/
def atoms : Selector → List Selector
  | inter left right => left.atoms ++ right.atoms
  | negation inner => inner.atoms
  | s => [s]

/-- Whether the selector is an id. -/
def isId : Selector → Bool
  | id _ => true
  | _ => false

/-- Whether the selector is a class, an attribute or a pseudo-class. -/
def isClass : Selector → Bool
  | className _ | attr _ _ | nthChild _ _ _ | onlyChild _ | empty | root => true
  | _ => false

/-- The three counts run over the same leaves, each with its own kind. -/
theorem leaves_eq_countP (s : Selector) :
    s.leaves = (s.atoms.countP isId, s.atoms.countP isClass, s.atoms.countP isTag) := by
  induction s with
  | inter left right ihl ihr =>
    rw [leaves, ihl, ihr]
    simp only [atoms, List.countP_append, Prod.mk_add_mk]
  | negation inner ih => exact ih
  | _ => rfl

/-- The selector joined with itself, and the result with itself, `k` times over. -/
def doubled : ℕ → Selector → Selector
  | 0, s => s
  | k + 1, s => doubled k (inter s s)

/-- Every leaf is there `2 ^ k` times over. -/
theorem countP_atoms_doubled (p : Selector → Bool) (k : ℕ) (s : Selector) :
    (doubled k s).atoms.countP p = 2 ^ k * s.atoms.countP p := by
  induction k generalizing s with
  | zero => rw [doubled, pow_zero, one_mul]
  | succ k ih => rw [doubled, ih, atoms, List.countP_append, ← two_mul, pow_succ, mul_assoc]

theorem perm_atoms_doubled {s r : Selector} (h : s.atoms.Perm r.atoms) (k : ℕ) :
    (doubled k s).atoms.Perm (doubled k r).atoms := by
  induction k generalizing s r with
  | zero => exact h
  | succ k ih => exact ih (h.append h)

/-- **A specificity is a clamped count.**  Its counts are those of the ids, of the classes (with
attributes and pseudo-classes) and of the tags in the whole selector, or the largest word where they
exceed it; so selectors with the same leaves, in whatever order and grouping and under whatever
negations, are equally specific. -/
theorem specificity_counts_leaves (s r : Selector) :
    s.specificity.ids.toNat = min (s.atoms.countP isId) 65535 ∧
      s.specificity.classes.toNat = min (s.atoms.countP isClass) 65535 ∧
      s.specificity.tags.toNat = min (s.atoms.countP isTag) 65535 ∧
      (s.atoms.Perm r.atoms → s.specificity = r.specificity) := by
  have hclamp (q : Selector) : q.specificity =
      .clamp (q.atoms.countP isId, q.atoms.countP isClass, q.atoms.countP isTag) := by
    rw [specificity_eq_clamp, leaves_eq_countP]
  refine ⟨?_, ?_, ?_, fun h => ?_⟩
  iterate 3
    rw [hclamp]
    exact Specificity.toNat_clampCount _
  rw [hclamp, hclamp, h.countP_eq, h.countP_eq, h.countP_eq]

/-- …as where ids and tags are 131072 each, once in pairs and once in pairs of pairs with the ids
negated. -/
theorem specificity_counts_leaves_beyond_top :
    let s := doubled 17 (inter (id "a") (tag "b"))
    let r := doubled 16
      (inter (negation (inter (id "a") (id "a"))) (inter (tag "b") (negation (tag "b"))))
    s.atoms.Perm r.atoms ∧ s.specificity = r.specificity ∧
      s.specificity.ids.toNat = 65535 ∧ s.specificity.classes.toNat = 0 ∧
      s.specificity.tags.toNat = 65535 := by
  intro s r
  have hperm : s.atoms.Perm r.atoms := perm_atoms_doubled (by decide) 16
  obtain ⟨hids, hclasses, htags, heq⟩ := specificity_counts_leaves s r
  rw [countP_atoms_doubled] at hids hclasses htags
  exact ⟨hperm, heq hperm, hids, hclasses, htags⟩

end Selector

end TreeSelectors
