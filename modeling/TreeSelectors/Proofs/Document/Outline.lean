import Mathlib
import TreeSelectors.Document.Edit
import TreeSelectors.Document.Outline
import TreeSelectors.Proofs.Document.Renaming
import TreeSelectors.Proofs.Reading.Lexeme

/-!
# Proofs/Document/Outline — the outline determines the document up to labels

An outline can be taken apart from its front: what stands there ends in a way that the rest cannot
undo.  Each lemma is of one form, `a ++ x = b ++ y → a = b ∧ x = y`, for an escaped character, an
escaped text up to its quote, a name, an attribute, a line and last a forest, which goes on as long
as the lines are indented deeply enough.

Tags and names are written as they are, so they must be *plain*: the tag `a b="c"` is written like
the tag `a` with an attribute.
-/

namespace TreeSelectors

namespace Text

/-! ## Runs -/

theorem forall_head?_cons {p : Char → Bool} {a : Char} (ha : p a = false) (x : List Char) :
    ∀ c ∈ (a :: x).head?, p c = false := by
  rintro _ ⟨⟩
  exact ha

/-- Of two runs of characters with a property, each followed by one without it, neither goes on
where the other ends. -/
theorem run_append_inj {p : Char → Bool} {us vs x y : List Char} (hu : ∀ c ∈ us, p c)
    (hv : ∀ c ∈ vs, p c) (hx : ∀ c ∈ x.head?, p c = false) (hy : ∀ c ∈ y.head?, p c = false)
    (h : us ++ x = vs ++ y) : us = vs ∧ x = y := by
  have hrun := congrArg (List.takeWhile p) h
  rw [Grammar.takeWhile_run hu hx, Grammar.takeWhile_run hv hy] at hrun
  rw [hrun] at h
  exact ⟨hrun, List.append_cancel_left h⟩

/-! ## Escaped texts -/

/-- Reads one character of an escaped text; a quote ends the text. -/
def readOutlined? : List Char → Option (Char × List Char)
  | '\\' :: 'n' :: cs => some ('\n', cs)
  | '\\' :: 'r' :: cs => some ('\r', cs)
  | '\\' :: 't' :: cs => some ('\t', cs)
  | '\\' :: c :: cs => some (c, cs)
  | '"' :: _ => none
  | c :: cs => some (c, cs)
  | [] => none

/-- A character is read back from its text, whatever follows. -/
theorem readOutlined?_outlineChar (c : Char) (cs : List Char) :
    readOutlined? (outlineChar c ++ cs) = some (c, cs) := by
  unfold outlineChar
  split
  iterate 5 rfl
  rw [List.singleton_append, readOutlined?.eq_def]
  split <;> simp_all

/-- An escaped text ends at the first quote that is not escaped. -/
theorem outlineText_append_inj {s t : String} {x y : List Char}
    (h : outlineText s ++ '"' :: x = outlineText t ++ '"' :: y) : s = t ∧ x = y := by
  have hlists : ∀ us vs : List Char,
      us.flatMap outlineChar ++ '"' :: x = vs.flatMap outlineChar ++ '"' :: y →
        us = vs ∧ x = y := by
    intro us
    induction us with
    | nil =>
      rintro (_ | ⟨v, vs⟩) h
      · exact ⟨rfl, (List.cons.inj h).2⟩
      · have hread := congrArg readOutlined? h
        rw [List.flatMap_cons, List.append_assoc, readOutlined?_outlineChar] at hread
        cases hread
    | cons u us ih =>
      intro vs h
      have hread := congrArg readOutlined? h
      rw [List.flatMap_cons, List.append_assoc, readOutlined?_outlineChar] at hread
      cases vs with
      | nil => cases hread
      | cons v vs =>
        rw [List.flatMap_cons, List.append_assoc, readOutlined?_outlineChar, Option.some_inj,
          Prod.mk.injEq] at hread
        obtain ⟨rfl, hrest⟩ := hread
        obtain ⟨rfl, hxy⟩ := ih vs hrest
        exact ⟨rfl, hxy⟩
  exact (hlists _ _ h).imp_left String.toList_inj.1

/-- **Texts that are outlined alike are the same.** -/
theorem outlineText_inj {s t : String} (h : outlineText s = outlineText t) : s = t :=
  (outlineText_append_inj (congrArg (· ++ ['"']) h)).1

theorem newline_notMem_outlineText (s : String) : '\n' ∉ outlineText s := by
  rw [outlineText, List.mem_flatMap]
  rintro ⟨c, -, hc⟩
  unfold outlineChar at hc
  split at hc
  iterate 5 simp at hc
  next hnewline _ _ => exact hnewline (List.mem_singleton.1 hc).symm

/-! ## Plain names -/

/-- ASCII letters, digits, `-` and `_`. -/
def isPlainChar (c : Char) : Bool :=
  c.isAlphanum || c == '-' || c == '_'

/-- Whether `s` can stand in an outline as it is. -/
def isPlainName (s : String) : Bool :=
  !s.toList.isEmpty && s.toList.all isPlainChar

theorem isPlainChar_of_mem {s : String} (hs : isPlainName s) : ∀ c ∈ s.toList, isPlainChar c := by
  rw [isPlainName, Bool.and_eq_true, List.all_eq_true] at hs
  exact hs.2

theorem exists_toList_eq_cons {s : String} (hs : isPlainName s) :
    ∃ c cs, s.toList = c :: cs ∧ isPlainChar c := by
  cases h : s.toList with
  | nil => simp [isPlainName, h] at hs
  | cons c cs => exact ⟨c, cs, rfl, isPlainChar_of_mem hs c (h ▸ List.mem_cons_self)⟩

theorem newline_notMem_of_isPlainName {s : String} (hs : isPlainName s) : '\n' ∉ s.toList :=
  fun h => absurd (isPlainChar_of_mem hs _ h) (by decide)

/-- A plain name ends where no plain character follows. -/
theorem plainName_append_inj {s t : String} {x y : List Char} (hs : isPlainName s)
    (ht : isPlainName t) (hx : ∀ c ∈ x.head?, isPlainChar c = false)
    (hy : ∀ c ∈ y.head?, isPlainChar c = false) (h : s.toList ++ x = t.toList ++ y) :
    s = t ∧ x = y :=
  (run_append_inj (isPlainChar_of_mem hs) (isPlainChar_of_mem ht) hx hy h).imp_left
    String.toList_inj.1

end Text

open Text

/-! ## Contents -/

namespace Attribute

variable {a b : Attribute} {x y : List Char}

theorem newline_notMem_outline (ha : isPlainName a.name) : '\n' ∉ a.outline := by
  simp [outline, newline_notMem_of_isPlainName ha, newline_notMem_outlineText]

/-- **An attribute is told by its text**, whatever follows: its name is plain and its value ends at
a quote. -/
theorem outline_append_inj (ha : isPlainName a.name) (hb : isPlainName b.name)
    (h : a.outline ++ x = b.outline ++ y) : a = b ∧ x = y := by
  simp only [outline, List.cons_append, List.append_assoc, List.cons.injEq, true_and,
    List.nil_append] at h
  obtain ⟨hname, hrest⟩ :=
    plainName_append_inj ha hb (forall_head?_cons rfl _) (forall_head?_cons rfl _) h
  obtain ⟨hvalue, hxy⟩ := outlineText_append_inj (List.cons.inj (List.cons.inj hrest).2).2
  cases a
  cases b
  cases hname
  cases hvalue
  exact ⟨rfl, hxy⟩

/-- The attributes of an element end at the bracket. -/
theorem outlines_inj {as bs : List Attribute} (ha : ∀ a ∈ as, isPlainName a.name)
    (hb : ∀ b ∈ bs, isPlainName b.name)
    (h : as.flatMap outline ++ ['>'] = bs.flatMap outline ++ ['>']) : as = bs := by
  induction as generalizing bs with
  | nil =>
    cases bs with
    | nil => rfl
    | cons b bs => simp [outline] at h
  | cons a as ih =>
    cases bs with
    | nil => simp [outline] at h
    | cons b bs =>
      rw [List.forall_mem_cons] at ha hb
      rw [List.flatMap_cons, List.flatMap_cons, List.append_assoc, List.append_assoc] at h
      obtain ⟨rfl, hrest⟩ := outline_append_inj ha.1 hb.1 h
      rw [ih ha.2 hb.2 hrest]

end Attribute

namespace Content

variable {c d : Content} {x y : List Char}

/-- Whether the tag and the names of the attributes are plain. -/
def hasPlainNames : Content → Bool
  | element tag attributes => isPlainName tag && attributes.all fun a => isPlainName a.name
  | _ => true

theorem hasPlainNames_element {tag : String} {attributes : List Attribute} :
    (element tag attributes).hasPlainNames ↔
      isPlainName tag ∧ ∀ a ∈ attributes, isPlainName a.name := by
  rw [hasPlainNames, Bool.and_eq_true, List.all_eq_true]

/-- A line has its end at its end alone. -/
theorem newline_notMem_outline (hc : c.hasPlainNames) : '\n' ∉ c.outline := by
  cases c with
  | document => simp [outline_document]
  | element tag attributes =>
    obtain ⟨htag, hattributes⟩ := hasPlainNames_element.1 hc
    have hall : '\n' ∉ attributes.flatMap Attribute.outline := fun h => by
      obtain ⟨a, ha, hmem⟩ := List.mem_flatMap.1 h
      exact Attribute.newline_notMem_outline (hattributes a ha) hmem
    simp [outline_element, newline_notMem_of_isPlainName htag, hall]
  | text s => simp [outline_text, newline_notMem_outlineText]
  | comment s => simp [outline_comment, newline_notMem_outlineText]

/-- No line begins with a blank behind its indentation. -/
theorem exists_outline_eq_cons (c : Content) : ∃ a as, c.outline = a :: as ∧ a ≠ ' ' := by
  cases c with
  | document => exact ⟨_, _, outline_document, by decide⟩
  | element tag attributes => exact ⟨_, _, outline_element tag attributes, by decide⟩
  | text s => exact ⟨_, _, outline_text s, by decide⟩
  | comment s => exact ⟨_, _, outline_comment s, by decide⟩

/-- Elements are told by their text, attributes in their order. -/
theorem element_inj_of_outline_eq {tag tag' : String} {as bs : List Attribute}
    (ha : (element tag as).hasPlainNames) (hb : (element tag' bs).hasPlainNames)
    (h : (element tag as).outline = (element tag' bs).outline) :
    element tag as = element tag' bs := by
  obtain ⟨htag, has⟩ := hasPlainNames_element.1 ha
  obtain ⟨htag', hbs⟩ := hasPlainNames_element.1 hb
  have hends : ∀ cs : List Attribute, ∀ c ∈ (cs.flatMap Attribute.outline ++ ['>']).head?,
      isPlainChar c = false := by
    rintro (_ | ⟨c, cs⟩) _ ⟨⟩ <;> rfl
  rw [outline_element, outline_element, List.cons.injEq] at h
  obtain ⟨rfl, hrest⟩ := plainName_append_inj htag htag' (hends as) (hends bs) h.2
  rw [Attribute.outlines_inj has hbs hrest]

/-- A plain tag does not begin like a comment. -/
theorem element_outline_ne_comment {tag s : String} {as : List Attribute}
    (ha : (element tag as).hasPlainNames) : (element tag as).outline ≠ (comment s).outline := by
  obtain ⟨c, cs, htag, hc⟩ := exists_toList_eq_cons (hasPlainNames_element.1 ha).1
  rw [outline_element, outline_comment, htag]
  intro h
  obtain rfl : c = '!' := (List.cons.inj (List.cons.inj h).2).1
  cases hc

/-- **A node is told by what is shown of it**: the first characters tell the kinds apart. -/
theorem eq_of_outline_eq (hc : c.hasPlainNames) (hd : d.hasPlainNames)
    (h : c.outline = d.outline) : c = d := by
  cases c with
  | document =>
    cases d with
    | document => rfl
    | element | text | comment => simp [outline_document, outline_element, outline_text,
        outline_comment] at h
  | element tag as =>
    cases d with
    | element => exact element_inj_of_outline_eq hc hd h
    | comment => exact absurd h (element_outline_ne_comment hc)
    | document | text => simp [outline_document, outline_element, outline_text] at h
  | text s =>
    cases d with
    | text t =>
      rw [outline_text, outline_text, List.cons.injEq] at h
      rw [outlineText_inj (List.append_cancel_right h.2)]
    | document | element | comment => simp [outline_document, outline_element, outline_text,
        outline_comment] at h
  | comment s =>
    cases d with
    | comment t =>
      simp only [outline_comment, List.cons.injEq, true_and] at h
      rw [outlineText_inj (List.append_cancel_right h)]
    | element => exact absurd h.symm (element_outline_ne_comment hd)
    | document | text => simp [outline_document, outline_text, outline_comment] at h

/-- A line ends at its line feed. -/
theorem outline_append_inj (hc : c.hasPlainNames) (hd : d.hasPlainNames)
    (h : c.outline ++ '\n' :: x = d.outline ++ '\n' :: y) : c = d ∧ x = y := by
  have hline {e : Content} (he : e.hasPlainNames) : ∀ a ∈ e.outline, (a != '\n') = true :=
    fun a ha => bne_iff_ne.2 fun hnewline => newline_notMem_outline he (hnewline ▸ ha)
  obtain ⟨hcontent, hxy⟩ := run_append_inj (hline hc) (hline hd) (forall_head?_cons rfl x)
    (forall_head?_cons rfl y) h
  exact ⟨eq_of_outline_eq hc hd hcontent, (List.cons.inj hxy).2⟩

end Content

/-! ## Indentation -/

/-- The blanks in front of a line count its depth. -/
theorem depth_eq_of_line_eq {j k : Nat} {c d : Content} {x y : List Char}
    (h : indent j ++ (c.outline ++ x) = indent k ++ (d.outline ++ y)) : j = k := by
  obtain ⟨a, as, hc, ha⟩ := c.exists_outline_eq_cons
  obtain ⟨b, bs, hd, hb⟩ := d.exists_outline_eq_cons
  have hblank (n : Nat) : ∀ a ∈ indent n, (a == ' ') = true := fun a ha =>
    beq_iff_eq.2 (List.eq_of_mem_replicate ha)
  rw [hc, hd, List.cons_append, List.cons_append] at h
  have hindent := (run_append_inj (hblank j) (hblank k)
    (forall_head?_cons (by simpa using ha) _) (forall_head?_cons (by simpa using hb) _) h).1
  have hlength := congrArg List.length hindent
  simp only [indent, List.length_replicate] at hlength
  omega

namespace Forest

/-- Whether all tags and names of attributes are plain. -/
def hasPlainNames : Forest → Bool
  | nil => true
  | cons _ c below right => c.hasPlainNames && below.hasPlainNames && right.hasPlainNames

/-- No line of depth `k` or more stands at the front of `x`. -/
def EndsAbove (k : Nat) (x : List Char) : Prop :=
  ∀ j, k ≤ j → ∀ (c : Content) (y : List Char), x ≠ indent j ++ (c.outline ++ y)

theorem endsAbove_nil (k : Nat) : EndsAbove k [] := by
  intro j _ c y h
  obtain ⟨a, as, hc, -⟩ := c.exists_outline_eq_cons
  simp [hc] at h

/-- Behind a tree of depth `k` comes a tree of that depth or the end of the forest. -/
theorem EndsAbove.outline_append {k : Nat} {x : List Char} (hx : EndsAbove k x) (f : Forest) :
    EndsAbove (k + 1) (f.outline k ++ x) := by
  intro j hj d y h
  cases f with
  | nil => exact hx j (by omega) d y h
  | cons l c below right =>
    rw [outline, List.append_assoc, List.append_assoc] at h
    have := depth_eq_of_line_eq h
    omega

/-- **A forest ends where its lines are no longer deep enough.**  The induction is on the forest;
the trees below end above their depth because the trees beside, or else what follows, do. -/
theorem alike_of_outline_append_eq {f g : Forest} {k : Nat} {x y : List Char}
    (hf : f.hasPlainNames) (hg : g.hasPlainNames) (hx : EndsAbove k x) (hy : EndsAbove k y)
    (h : f.outline k ++ x = g.outline k ++ y) : f.Alike g ∧ x = y := by
  induction f generalizing g k x y with
  | nil =>
    cases g with
    | nil => exact ⟨.nil, h⟩
    | cons l c below right =>
      rw [outline, outline, List.append_assoc, List.append_assoc] at h
      exact absurd h (hx k le_rfl c _)
  | cons l c below right ihb ihr =>
    cases g with
    | nil =>
      rw [outline, outline, List.append_assoc, List.append_assoc] at h
      exact absurd h.symm (hy k le_rfl c _)
    | cons l' c' below' right' =>
      simp only [hasPlainNames, Bool.and_eq_true] at hf hg
      obtain ⟨⟨hc, hb⟩, hr⟩ := hf
      obtain ⟨⟨hc', hb'⟩, hr'⟩ := hg
      simp only [outline, List.append_assoc, List.cons_append, List.append_cancel_left_eq] at h
      obtain ⟨rfl, hrest⟩ := Content.outline_append_inj hc hc' h
      obtain ⟨hbelow, hrest⟩ :=
        ihb hb hb' (hx.outline_append right) (hy.outline_append right') hrest
      obtain ⟨hright, rfl⟩ := ihr hr hr' hx hy hrest
      exact ⟨.cons hbelow hright, rfl⟩

/-- Labels are not shown. -/
theorem outline_relabel (σ : Nat → Nat) (f : Forest) (k : Nat) :
    (f.relabel σ).outline k = f.outline k := by
  induction f generalizing k with
  | nil => rfl
  | cons l c below right ihb ihr => rw [relabel, outline, outline, ihb, ihr]

end Forest

/-! ## Documents -/

namespace Document

variable {d e : Document}

/-- **The outline determines the document up to labels**: two documents with plain names have the
same outline exactly if one is the other with its nodes renamed. -/
theorem outline_eq_iff_renamed (hd : d.tree.hasPlainNames) (he : e.tree.hasPlainNames) :
    d.outline = e.outline ↔ ∃ σ, Renamed σ d e := by
  constructor
  · intro h
    have htext : d.tree.outline 0 ++ [] = e.tree.outline 0 ++ [] := by
      simpa [outline, String.ofList_inj] using h
    have halike := (Forest.alike_of_outline_append_eq hd he (Forest.endsAbove_nil 0)
      (Forest.endsAbove_nil 0) htext).1
    obtain ⟨σ, hσ⟩ := halike.exists_relabel d.nodup
    exact ⟨σ, renamed_iff.2 hσ⟩
  · rintro ⟨σ, hσ⟩
    rw [outline, outline, ← renamed_iff.1 hσ, Forest.outline_relabel]

/-- …as where a node was removed first and all labels are others. -/
theorem outline_eq_iff_renamed_removed :
    let d := new.attemptAll [.appendElement 0 "Ul", .setAttribute 1 "id" "a\"> b=\"\\",
      .appendComment 1 "--><br>", .appendText 2 "line\nbreak", .appendText 1 "<b>"]
    let e := new.attemptAll [.appendText 0 "gone", .appendElement 0 "uL", .remove 1,
      .appendComment 2 "--><br>", .appendText 2 "<b>", .setAttribute 2 "ID" "a\"> b=\"\\",
      .appendText 3 "line\nbreak"]
    d.tree.hasPlainNames ∧ e.tree.hasPlainNames ∧ d.outline = e.outline ∧ ∃ σ, Renamed σ d e := by
  intro d e
  have hd : d.tree.hasPlainNames := by decide +kernel
  have he : e.tree.hasPlainNames := by decide +kernel
  have hde : d.outline = e.outline := by decide +kernel
  exact ⟨hd, he, hde, (outline_eq_iff_renamed hd he).1 hde⟩

/-- A tag that is not plain is written like a tag with an attribute. -/
example :
    let d := new.attemptAll [.appendElement 0 "a b=\"c\""]
    let e := new.attemptAll [.appendElement 0 "a", .setAttribute 1 "b" "c"]
    d.outline = e.outline ∧ d.content? 1 ≠ e.content? 1 := by
  decide +kernel

end Document

end TreeSelectors
