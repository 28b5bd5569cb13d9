import Mathlib
import TreeSelectors.Proofs.Tree.Order
import TreeSelectors.Selector.Query
import TreeSelectors.Tree.Stack
import TreeSelectors.Tree.Table

/-!
# Proofs/Tree/Stack — a search with a stack goes through the walk

The stack holds the pending nodes of `preOrder` from the bottom up, and a visit keeps it so.  Hence
the visits end exactly if every node on the stack is grounded, and then they list the walks of its
nodes, the top one first.  Nothing links children to parents here: a node may hang in several
places, several times in one, or be known to nobody.
-/

namespace TreeSelectors

universe u

namespace TreeView

variable {ν : Type u} {t : TreeView ν} {stack ns : List ν} {p : ν → Bool}

/-! ## Visits -/

/-- A visit of the last entry goes on with its children in its place. -/
theorem Visits.concat {left : List ν} {n : ν}
    (h : t.Visits (left ++ (t.children n).reverse) ns) : t.Visits (left ++ [n]) (n :: ns) :=
  .visit (t.visit?_concat left n) h

theorem visit?_eq_none : t.visit? stack = none ↔ stack = [] := by
  rw [visit?, Option.map_eq_none_iff, List.getLast?_eq_none_iff]

/-- Only the last entry is visited. -/
theorem visit?_eq_some {n : ν} {stack' : List ν} (h : t.visit? stack = some (n, stack')) :
    ∃ left, stack = left ++ [n] ∧ stack' = left ++ (t.children n).reverse := by
  obtain rfl | ⟨left, m, rfl⟩ := stack.eq_nil_or_concat
  · cases h
  · rw [List.concat_eq_append, visit?_concat] at h
    cases h
    exact ⟨left, List.concat_eq_append, rfl⟩

/-- **The pending list, turned round, is the stack.**  The induction is on the visits of the list:
each puts the children where the node was. -/
theorem visits_preOrder (pending : List t.Ground) :
    t.Visits (pending.map Ground.node).reverse (t.preOrder pending) := by
  induction pending using preOrder.induct with
  | case1 => exact preOrder.eq_1 t ▸ .done rfl
  | case2 n pending ih =>
    rw [List.map_append, t.map_below, List.reverse_append] at ih
    rw [preOrder, List.map_cons, List.reverse_cons]
    exact ih.concat

/-- Where the visits end, every node that waits is grounded. -/
theorem Visits.grounded (h : t.Visits stack ns) : ∀ n ∈ stack, t.Grounded n := by
  induction h with
  | done h => exact visit?_eq_none.1 h ▸ List.forall_mem_nil _
  | visit h _ ih =>
    obtain ⟨left, rfl, rfl⟩ := visit?_eq_some h
    rw [List.forall_mem_append, List.forall_mem_singleton]
    rw [List.forall_mem_append] at ih
    exact ⟨ih.1, ⟨_, fun c hc => ih.2 c (List.mem_reverse.2 hc)⟩⟩

/-- The visits from a stack can go in one way only. -/
theorem Visits.unique {ms : List ν} (h : t.Visits stack ns) (h' : t.Visits stack ms) :
    ns = ms := by
  induction h generalizing ms with
  | done h =>
    cases h' with
    | done _ => rfl
    | visit h' _ => cases h.symm.trans h'
  | visit h _ ih =>
    cases h' with
    | done h' => cases h'.symm.trans h
    | visit h' hs' =>
      cases h.symm.trans h'
      rw [ih hs']

/-- **The visits from a stack end exactly if its nodes are grounded**, and they are then those of
the pending list. -/
theorem visits_iff : t.Visits stack ns ↔
    ∃ pending : List t.Ground, (pending.map Ground.node).reverse = stack ∧
      t.preOrder pending = ns := by
  constructor
  · intro h
    let pending : List t.Ground := stack.reverse.attach.map fun n =>
      ⟨n.1, h.grounded n.1 (List.mem_reverse.1 n.2)⟩
    have hstack : (pending.map Ground.node).reverse = stack := by
      rw [List.map_map, List.reverse_eq_iff]
      exact List.attach_map_subtype_val stack.reverse
    have hvisits := visits_preOrder pending
    rw [hstack] at hvisits
    exact ⟨pending, hstack, hvisits.unique h⟩
  · rintro ⟨pending, rfl, rfl⟩
    exact visits_preOrder pending

/-- From one node alone the visits are its walk. -/
theorem visits_singleton_iff (top : t.Ground) : t.Visits [top.node] ns ↔ ns = t.walk top := by
  have hwalk : t.Visits [top.node] (t.walk top) := by
    have h := visits_preOrder [top]
    rwa [preOrder_eq, List.flatMap_singleton] at h
  exact ⟨fun h => h.unique hwalk, fun h => h ▸ hwalk⟩

/-- A node that hangs twice below another is visited twice, and one that no row describes once. -/
example : (TreeView.ofRows #[⟨some "a", none, [], none, some [1, 7, 1]⟩,
    ⟨some "b", none, [], some 0, some []⟩]).Visits [0] [0, 1, 7, 1] :=
  .visit rfl (.visit rfl (.visit rfl (.visit rfl (.done rfl))))

/-! ## The first node with a property -/

/-- Stopping early finds what is first among all visits. -/
theorem Visits.finds (h : t.Visits stack ns) : t.Finds p stack (ns.find? p) := by
  induction h with
  | done h => exact .done h
  | @visit _ _ _ n h _ ih =>
    cases hp : p n with
    | true => exact List.find?_cons_of_pos hp ▸ .here h hp
    | false =>
      rw [List.find?_cons_of_neg (Bool.eq_false_iff.1 hp)]
      exact .later h hp ih

/-- A search comes to one result at most. -/
theorem Finds.unique {m m' : Option ν} (h : t.Finds p stack m) (h' : t.Finds p stack m') :
    m = m' := by
  induction h with
  | done h =>
    cases h' with
    | done _ => rfl
    | here h' _ | later h' _ _ => cases h.symm.trans h'
  | here h hp =>
    cases h' with
    | done h' => cases h'.symm.trans h
    | here h' _ => cases h.symm.trans h'; rfl
    | later h' hp' _ =>
      cases h.symm.trans h'
      cases hp.symm.trans hp'
  | later h hp _ ih =>
    cases h' with
    | done h' => cases h'.symm.trans h
    | here h' hp' =>
      cases h.symm.trans h'
      cases hp.symm.trans hp'
    | later h' _ hs' =>
      cases h.symm.trans h'
      exact ih hs'

end TreeView

namespace Selector

open TreeView

variable {ν : Type u} [DecidableEq ν] {t : TreeView ν}

theorem selectAll_eq_filter_walk (s : Selector) (top : t.Ground) :
    s.selectAll t top = (t.walk top).filter fun n => s.selects t n := by
  rw [selectAll, Selector.filter, preOrder_eq, List.flatMap_singleton]

/-- The first node found is the head of all that are found. -/
theorem selectFirst_eq_head? (s : Selector) (top : t.Ground) :
    s.selectFirst t top = (s.selectAll t top).head? := by
  rw [selectFirst, selectAll, Selector.filter, List.head?_filter]

/-- **A search with a stack goes through the walk of its top**, one entry for each visit, and ends.
What it lists are the selected entries of the walk; the search for one node ends with the first of
them. -/
theorem search_goes_through_walk (s : Selector) (t : TreeView ν) (top : t.Ground) :
    (∀ ns, t.Visits [top.node] ns ↔ ns = t.walk top) ∧
      s.selectAll t top = (t.walk top).filter (fun n => s.selects t n) ∧
      (∀ found, t.Finds (fun n => s.selects t n) [top.node] found ↔
        found = s.selectFirst t top) ∧
      s.selectFirst t top = ((t.walk top).filter fun n => s.selects t n).head? := by
  have hvisits : t.Visits [top.node] (t.walk top) := (visits_singleton_iff top).2 rfl
  have hall := s.selectAll_eq_filter_walk top
  have hfirst : s.selectFirst t top = ((t.walk top).filter fun n => s.selects t n).head? :=
    hall ▸ s.selectFirst_eq_head? top
  have hfinds : t.Finds (fun n => s.selects t n) [top.node] (s.selectFirst t top) := by
    rw [hfirst, List.head?_filter]
    exact hvisits.finds
  refine ⟨fun ns => visits_singleton_iff top, hall, fun found => ⟨fun h => ?_, fun h => ?_⟩, hfirst⟩
  · exact h.unique hfinds
  · exact h ▸ hfinds

end Selector

end TreeSelectors
