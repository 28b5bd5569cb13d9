import Mathlib
import TreeSelectors.Document.Outline
import TreeSelectors.Proofs.Document.Attributes
import TreeSelectors.Proofs.Document.Renaming

/-!
# Proofs/Document/Lines — the outline has one line for each node that a search looks at

The outline goes down the tree with the depth in hand, and a search goes through a list of pending
nodes that knows no depth.  Both meet the live nodes in the same order, and the depth is the length
of a chain that can be read off the links, the `ancestors` of the node.  So the outline is the lines
of the nodes of a walk one after the other, and each `line` depends on its node alone.
-/

namespace TreeSelectors

/-! ## What a line shows -/

namespace Text

/-- The characters that an outline spells out inside a text or a value, and how. -/
def spelledOut : List (Char × String) :=
  [('\\', "\\\\"), ('"', "\\\""), ('\n', "\\n"), ('\r', "\\r"), ('\t', "\\t")]

/-- The text with those characters spelled out. -/
def spelled (s : String) : String :=
  String.join (s.toList.map fun c => (spelledOut.lookup c).getD (String.singleton c))

/-- The five characters are the ones that an outline escapes. -/
theorem toList_spelled (s : String) : (spelled s).toList = outlineText s := by
  rw [spelled, String.toList_join, List.flatMap_map, outlineText]
  refine List.flatMap_congr fun c _ => ?_
  unfold outlineChar
  split
  iterate 5 rfl
  next hbackslash hquote hnewline hreturn htab =>
    have hnone : spelledOut.lookup c = none := by
      rw [List.lookup_eq_none_iff]
      simp only [spelledOut, List.forall_mem_cons, bne_iff_ne]
      exact ⟨hbackslash, hquote, hnewline, hreturn, htab, nofun⟩
    rw [hnone, Option.getD_none, String.toList_singleton]

end Text

open Text

namespace Content

/-- What a node shows: texts and values spelled out, and of an element every attribute behind the
tag, in their order. -/
def shown : Content → String
  | document => "#document"
  | element tag attributes =>
    "<" ++ tag ++
      String.join (attributes.map fun a => " " ++ a.name ++ "=\"" ++ spelled a.value ++ "\"") ++ ">"
  | text s => "\"" ++ spelled s ++ "\""
  | comment s => "<!--" ++ spelled s ++ "-->"

/-- **A node shows what its line in the outline says.** -/
theorem toList_shown (c : Content) : c.shown.toList = c.outline := by
  cases c with
  | document => rfl
  | element tag attributes =>
    have hattribute (a : Attribute) :
        (" " ++ a.name ++ "=\"" ++ spelled a.value ++ "\"").toList = a.outline := by
      simp [Attribute.outline, toList_spelled]
    rw [outline_element]
    simp [shown, List.flatMap_map, hattribute]
  | text s => simp [shown, toList_spelled, outline_text]
  | comment s => simp [shown, toList_spelled, outline_comment]

end Content

namespace Document

open TreeView

variable {d : Document} {n p : Nat}

/-! ## Ancestors -/

/-- The parent of a node, the parent's parent and so on, up to the document node. -/
def ancestors (d : Document) (n : Nat) : List Nat :=
  match h : d.view.parent? n with
  | none => []
  | some p =>
    have : p < n := lt_of_parent? h
    p :: d.ancestors p

theorem ancestors_of_parent? (h : d.view.parent? n = some p) :
    d.ancestors n = p :: d.ancestors p := by
  rw [ancestors]
  split
  · next hnone => cases hnone.symm.trans h
  · next q hq =>
    cases hq.symm.trans h
    rfl

theorem ancestors_zero : d.ancestors 0 = [] := by
  rw [ancestors]
  split
  · rfl
  · next q hq => cases hq.symm.trans d.parent?_zero

/-- A chain of parents that ends at the document node is the chain of ancestors. -/
theorem ancestors_eq_of_isChain {ns : List Nat}
    (h : (n :: ns).IsChain fun c p => d.view.parent? c = some p)
    (hlast : (n :: ns).getLast? = some 0) : d.ancestors n = ns := by
  induction ns generalizing n with
  | nil =>
    obtain rfl : n = 0 := Option.some.inj hlast
    exact ancestors_zero
  | cons p ns ih =>
    rw [List.isChain_cons_cons] at h
    rw [List.getLast?_cons_cons] at hlast
    rw [ancestors_of_parent? h.1, ih h.2 hlast]

/-- The ancestors of a live node are one chain of parents, without repetitions. -/
theorem isChain_ancestors (h : d.isLive n) : (n :: d.ancestors n).Nodup ∧
    (n :: d.ancestors n).IsChain (fun c p => d.view.parent? c = some p) ∧
      (n :: d.ancestors n).getLast? = some 0 := by
  obtain ⟨ns, hnodup, hchain, hlast⟩ := exists_chain h
  rw [ancestors_eq_of_isChain hchain hlast]
  exact ⟨hnodup, hchain, hlast⟩

/-! ## Lines -/

/-- The line of the node `n`: two blanks for each of its ancestors, and what it shows. -/
def line (d : Document) (n : Nat) : String :=
  String.join (List.replicate (d.ancestors n).length "  ") ++
    ((d.content? n).map Content.shown).getD "" ++ "\n"

theorem toList_indentation (k : Nat) :
    (String.join (List.replicate k "  ")).toList = indent k := by
  rw [String.toList_join, indent]
  induction k with
  | zero => rfl
  | succ k ih =>
    rw [List.replicate_succ, List.flatMap_cons, ih, Nat.mul_succ, Nat.add_comm, List.replicate_add]
    rfl

theorem toList_line {c : Content} (h : d.content? n = some c) : (d.line n).toList =
    indent (d.ancestors n).length ++ c.outline ++ ['\n'] := by
  rw [line, String.toList_append, String.toList_append, toList_indentation, h, Option.map_some,
    Option.getD_some, Content.toList_shown]
  rfl

/-- **A part of the document is outlined line by line**, at the depth of its top.  The induction is
on the part; below a node the depth is one more because the chain of ancestors is. -/
theorem outline_eq_flatMap_line {f : Forest} {k : Nat} (hf : f.PartOf d.tree)
    (hk : ∀ n ∈ f.tops, (d.ancestors n).length = k) :
    f.outline k = f.labels.flatMap fun n => (d.line n).toList := by
  induction f generalizing k with
  | nil => rfl
  | cons l c below right ihb ihr =>
    rw [Forest.tops, List.forall_mem_cons] at hk
    have hfind : d.tree.find? l = some (c, below) := hf.find?_top
    have hbelow : ∀ n ∈ below.tops, (d.ancestors n).length = k + 1 := fun n hn => by
      have hchild : n ∈ d.view.children l := by
        rw [children_view, Forest.children, hfind]
        exact hn
      rw [ancestors_of_parent? (d.linked.mem_children_iff.1 hchild), List.length_cons, hk.1]
    have hcontent : d.content? l = some c := by rw [content?, hfind, Option.map_some]
    rw [Forest.outline, Forest.labels, List.flatMap_cons, List.flatMap_append,
      toList_line hcontent, hk.1, ihb hf.down hbelow, ihr hf.aside hk.2]
    simp only [List.append_assoc, List.singleton_append]

variable (d) in
/-- A search goes through the labels in their order. -/
theorem labels_eq_preOrder : d.tree.labels = d.view.preOrder [d.ground 0] := by
  rw [preOrder_eq, List.flatMap_singleton, d.labels_eq_walk]

variable (d) in
/-- **The outline is the lines of the nodes**, one after the other. -/
theorem outline_eq_join_line : d.outline = String.join (d.tree.labels.map d.line) := by
  have hpart : d.tree.PartOf d.tree := ⟨d.nodup, fun _ _ => rfl⟩
  have hdepth : ∀ n ∈ d.tree.tops, (d.ancestors n).length = 0 := by
    rw [d.tops_tree, List.forall_mem_singleton, ancestors_zero, List.length_nil]
  rw [← String.toList_inj, outline, String.toList_ofList, outline_eq_flatMap_line hpart hdepth,
    String.toList_join, List.flatMap_map]

/-- **The outline shows what a search looks at**, after every run: for each node of the walk from
the document node its line, and these nodes are the live ones, each of them once.  The line is
indented by the chain of parents that leads from its node to the document node, and the attributes
on it are those that the edits gave to the node, in the order of the edits. -/
theorem outline_lists_walk (es : List Edit) :
    let d := new.attemptAll es
    let walk := d.view.preOrder [d.ground 0]
    d.outline = String.join (walk.map d.line) ∧ walk.Nodup ∧ (∀ n, n ∈ walk ↔ d.isLive n) ∧
      ∀ n ∈ walk, ((n :: d.ancestors n).Nodup ∧
        (n :: d.ancestors n).IsChain (fun c p => d.view.parent? c = some p) ∧
        (n :: d.ancestors n).getLast? = some 0) ∧
        d.view.attributes n = (made es).filterMap (Edit.given? n) := by
  intro d walk
  have hwalk : walk = d.tree.labels := d.labels_eq_preOrder.symm
  rw [hwalk]
  refine ⟨d.outline_eq_join_line, d.nodup, fun n => d.isLive_iff.symm, fun n hn => ?_⟩
  have hlive : d.isLive n := d.isLive_iff.2 hn
  exact ⟨isChain_ancestors hlive, attributes_attemptAll (isLive_attemptAll.1 hlive).2⟩

/-- …as in a list with an element below a text, a `class` set twice and an item that is gone. -/
theorem outline_lists_walk_list :
    let es : List Edit := [.appendElement 0 "ul", .setAttribute 1 "Class" "a \"b\"",
      .appendElement 1 "li", .setAttribute 2 "id" "x", .appendText 1 "one\ntwo",
      .setAttribute 3 "class" "c", .appendElement 3 "b", .remove 2, .setAttribute 1 "class" "c"]
    let d := new.attemptAll es
    let walk := d.view.preOrder [d.ground 0]
    (4 ∈ walk ∧ d.ancestors 4 = [3, 1, 0]) ∧ (1 ∈ walk ∧
      d.view.attributes 1 = [⟨"class", "a \"b\""⟩, ⟨"class", "c"⟩]) ∧
      d.outline = String.join (walk.map d.line) ∧ d.outline =
        "#document\n  <ul class=\"a \\\"b\\\"\" class=\"c\">\n    \"one\\ntwo\"\n      <b>\n" := by
  intro es d walk
  obtain ⟨hlines, -, hmem, hnodes⟩ := outline_lists_walk es
  have hfour : 4 ∈ walk := (hmem 4).2 (by decide +kernel)
  have hone : 1 ∈ walk := (hmem 1).2 (by decide +kernel)
  have hgiven : (made es).filterMap (Edit.given? 1) =
      [⟨"class", "a \"b\""⟩, ⟨"class", "c"⟩] := by decide +kernel
  refine ⟨⟨hfour, ?_⟩, ⟨hone, (hnodes 1 hone).2.trans hgiven⟩, hlines, by decide +kernel⟩
  exact ancestors_eq_of_isChain (by decide +kernel) rfl

end Document

end TreeSelectors
