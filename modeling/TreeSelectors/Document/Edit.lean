import TreeSelectors.Document.Basic
import TreeSelectors.Text.Quoted

/-!
# Document/Edit — appending, attributes and removal

An edit makes a new document or fails with a cause, and then the document stays as it was. Appending
needs a live parent of any kind and takes the next label; only elements take attributes; every live
node but the document node can be removed, with all that is below it.
-/

namespace TreeSelectors

/-- Why a document cannot be edited as asked. -/
inductive EditError
  | appendToMissing (parent : Nat)
  | attributeOnMissing (name : String) (node : Nat)
  | attributeOnNonElement (name : String) (node : Nat)
  | removeDocumentNode
  | removeMissing (node : Nat)
  deriving DecidableEq, Repr

namespace EditError

/-- A node in words. -/
def nodeText (n : Nat) : String :=
  "node #" ++ String.ofList (Nat.toDigits 10 n)

/-- The error in words; the name of an attribute is quoted as it was given. -/
def message : EditError → String
  | appendToMissing parent => "cannot append to missing " ++ nodeText parent
  | attributeOnMissing name node =>
    "cannot set attribute " ++ Text.quoted name ++ " on missing " ++ nodeText node
  | attributeOnNonElement name node =>
    "cannot set attribute " ++ Text.quoted name ++ " on non-element #" ++
      String.ofList (Nat.toDigits 10 node)
  | removeDocumentNode => "cannot remove the document node"
  | removeMissing node => "cannot remove missing " ++ nodeText node

end EditError

namespace Document

variable (d : Document)

/-- The document with a node of the given content as the last child of `parent`. -/
def append (parent : Nat) (content : Content) : Except EditError Document :=
  if h : d.isLive parent then
    .ok {
      tree := d.tree.appendUnder parent d.next content
      next := d.next + 1
      rooted := by
        obtain ⟨below, hb⟩ := d.rooted
        rw [hb]
        exact ⟨_, rfl⟩
      nodup := by
        rw [(Forest.labels_appendUnder_perm d.nodup (d.isLive_iff.1 h)).nodup_iff]
        exact List.nodup_cons.2 ⟨fun hm => Nat.lt_irrefl _ (d.handedOut _ hm), d.nodup⟩
      handedOut := fun n hn =>
        match Forest.mem_labels_appendUnder hn with
        | .inl e => e ▸ Nat.lt_succ_self _
        | .inr hm => Nat.lt_succ_of_lt (d.handedOut n hm)
      rising := d.rising.appendUnder d.handedOut }
  else .error (.appendToMissing parent)

/-- Appends an element without attributes; its tag is folded. -/
def appendElement (parent : Nat) (tag : String) : Except EditError Document :=
  d.append parent (.element (Text.fold tag) [])

/-- Appends a text. -/
def appendText (parent : Nat) (s : String) : Except EditError Document :=
  d.append parent (.text s)

/-- Appends a comment. -/
def appendComment (parent : Nat) (s : String) : Except EditError Document :=
  d.append parent (.comment s)

/-- The document with an attribute more on `node`, if that is an element. -/
def addAttribute (node : Nat) (a : Attribute) : Document where
  tree := d.tree.modify node (Content.addAttribute a)
  next := d.next
  rooted := by
    obtain ⟨below, hb⟩ := d.rooted
    refine ⟨below.modify node (Content.addAttribute a), ?_⟩
    rw [hb, Forest.modify]
    split <;> rfl
  nodup := by rw [Forest.labels_modify]; exact d.nodup
  handedOut := by rw [Forest.labels_modify]; exact d.handedOut
  rising := d.rising.modify

/-- Adds an attribute behind those that the element `node` has; its name is folded. -/
def setAttribute (node : Nat) (name value : String) : Except EditError Document :=
  match d.content? node with
  | none => .error (.attributeOnMissing name node)
  | some c =>
    if c.isElement then .ok (d.addAttribute node ⟨Text.fold name, value⟩)
    else .error (.attributeOnNonElement name node)

/-- Removes `node` and all that is below it. -/
def remove (node : Nat) : Except EditError Document :=
  if h : node = 0 then .error .removeDocumentNode
  else if d.isLive node then
    .ok {
      tree := d.tree.prune node
      next := d.next
      rooted := by
        obtain ⟨below, hb⟩ := d.rooted
        refine ⟨below.prune node, ?_⟩
        rw [hb, Forest.prune, if_neg (Ne.symm h), Forest.prune]
      nodup := (Forest.labels_prune_sublist _ _).nodup d.nodup
      handedOut := fun n hn => d.handedOut n ((Forest.labels_prune_sublist _ _).subset hn)
      rising := d.rising.prune }
  else .error (.removeMissing node)

end Document

/-- One edit of a document. -/
inductive Edit
  | appendElement (parent : Nat) (tag : String)
  | appendText (parent : Nat) (s : String)
  | appendComment (parent : Nat) (s : String)
  | setAttribute (node : Nat) (name value : String)
  | remove (node : Nat)
  deriving DecidableEq, Repr

/-- The place where an edit is made. -/
def Edit.target : Edit → Nat
  | appendElement n _ | appendText n _ | appendComment n _ | setAttribute n _ _ | remove n => n

namespace Document

/-- The document after an edit. -/
def apply (d : Document) : Edit → Except EditError Document
  | .appendElement parent tag => d.appendElement parent tag
  | .appendText parent s => d.appendText parent s
  | .appendComment parent s => d.appendComment parent s
  | .setAttribute node name value => d.setAttribute node name value
  | .remove node => d.remove node

/-- The document after an edit that may fail, in which case it stays as it is. -/
def attempt (d : Document) (e : Edit) : Document :=
  match d.apply e with
  | .ok d' => d'
  | .error _ => d

/-- The document after a list of edits, each of which may fail. -/
def attemptAll (d : Document) (es : List Edit) : Document :=
  es.foldl attempt d

end Document

end TreeSelectors
