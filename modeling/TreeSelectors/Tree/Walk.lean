import TreeSelectors.Tree.View

/-!
# Tree/Walk — a tree in document order

From a *grounded* node, taking children over and over comes to an end, though the same node may be
met more than once on the way. `walk` lists a grounded node and then the walks of its children, one
after the other. `preOrder` visits the nodes in the same order with one list of nodes that are still
to be visited; it ends because each visit takes one entry off the walks that are left.
-/

namespace TreeSelectors.TreeView

universe u

variable {ν : Type u} (t : TreeView ν)

/-! ## Grounded nodes -/

/-- Taking children from `n` on comes to an end. -/
def Grounded (n : ν) : Prop :=
  Acc (fun c p => c ∈ t.children p) n

/-- A node from which taking children comes to an end. -/
structure Ground where
  node : ν
  grounded : t.Grounded node

/-- The children of a grounded node, which are grounded. -/
def below (n : t.Ground) : List t.Ground :=
  (t.children n.node).attach.map fun c => ⟨c.1, n.grounded.inv c.2⟩

@[simp] theorem map_below (n : t.Ground) : (t.below n).map Ground.node = t.children n.node := by
  simp [below]

theorem mem_children_of_mem_below {n c : t.Ground} (h : c ∈ t.below n) :
    c.node ∈ t.children n.node := by
  rw [← map_below]; exact List.mem_map_of_mem h

/-- Children lie below their parent. -/
instance : WellFoundedRelation t.Ground where
  rel c p := c.node ∈ t.children p.node
  wf := ⟨fun n => InvImage.accessible Ground.node n.grounded⟩

/-- Whether every path of children from `n` ends within `limit` steps. -/
def endsWithin : (limit : Nat) → ν → Bool
  | 0, _ => false
  | limit + 1, n => (t.children n).all (endsWithin limit)

/-- Where all paths end within a limit, the node is grounded. -/
theorem grounded_of_endsWithin {limit : Nat} {n : ν} (h : t.endsWithin limit n = true) :
    t.Grounded n := by
  induction limit generalizing n with
  | zero => simp [endsWithin] at h
  | succ limit ih =>
    rw [endsWithin, List.all_eq_true] at h
    exact ⟨n, fun c hc => ih (h c hc)⟩

/-- `n` as a grounded node, if every path from it ends within `limit` steps. -/
def ground? (limit : Nat) (n : ν) : Option t.Ground :=
  if h : t.endsWithin limit n then some ⟨n, t.grounded_of_endsWithin h⟩ else none

/-! ## Walks -/

/-- A node, then what the walks of its children meet: one entry for each visit. -/
def walk (n : t.Ground) : List ν :=
  n.node :: (t.below n).attach.flatMap fun c => walk c.1
termination_by n
decreasing_by exact t.mem_children_of_mem_below c.2

/-- A walk is a node and the walks of its children. -/
theorem walk_eq (n : t.Ground) : t.walk n = n.node :: (t.below n).flatMap t.walk := by
  rw [walk, List.flatMap_subtype fun _ _ => rfl, List.unattach_attach]

/-- The nodes in the order of their visits, `pending` being the ones to be visited next. -/
def preOrder : (pending : List t.Ground) → List ν
  | [] => []
  | n :: pending => n.node :: preOrder (t.below n ++ pending)
termination_by pending => (pending.flatMap t.walk).length
decreasing_by
  rw [List.flatMap_append, List.flatMap_cons, t.walk_eq n]
  simp

end TreeSelectors.TreeView
