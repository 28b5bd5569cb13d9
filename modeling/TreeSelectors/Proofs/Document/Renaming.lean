import Mathlib
import TreeSelectors.Document.Basic
import TreeSelectors.Proofs.Document.Forest

/-!
# Proofs/Document/Renaming — documents that are equal up to labels

`Alike` compares two forests with no regard to labels; where labels are distinct, the one is then
the other under a renaming of labels (`Forest.relabel`).  `Renamed` says the same of documents in
terms of what can be asked of a node, its content and its children, and determines the renamed tree.
-/

namespace TreeSelectors

namespace Forest

variable {f g below right : Forest} {l n : Nat} {c : Content} {σ τ : Nat → Nat}

/-! ## Renaming labels -/

/-- The forest with every label renamed by `σ`. -/
def relabel (σ : Nat → Nat) : Forest → Forest
  | nil => nil
  | cons l c below right => cons (σ l) c (below.relabel σ) (right.relabel σ)

@[simp] theorem labels_relabel (σ : Nat → Nat) (f : Forest) :
    (f.relabel σ).labels = f.labels.map σ := by
  induction f with
  | nil => rfl
  | cons l c below right ihb ihr => simp [relabel, labels, ihb, ihr]

@[simp] theorem tops_relabel (σ : Nat → Nat) (f : Forest) :
    (f.relabel σ).tops = f.tops.map σ := by
  induction f with
  | nil => rfl
  | cons l c below right _ ih => simp [relabel, tops, ih]

/-- Only what happens to the labels of a forest matters. -/
theorem relabel_congr (h : ∀ n ∈ f.labels, σ n = τ n) : f.relabel σ = f.relabel τ := by
  induction f with
  | nil => rfl
  | cons l c below right ihb ihr =>
    simp only [labels, List.mem_cons, List.mem_append] at h
    rw [relabel, relabel, h l (.inl rfl), ihb fun n hn => h n (.inr (.inl hn)),
      ihr fun n hn => h n (.inr (.inr hn))]

/-- A node that takes its new name from no other is found under it as it was. -/
theorem find?_relabel (h : ∀ m ∈ f.labels, σ m = σ n → m = n) :
    (f.relabel σ).find? (σ n) = (f.find? n).map fun x => (x.1, x.2.relabel σ) := by
  induction f with
  | nil => rfl
  | cons l c below right ihb ihr =>
    simp only [labels, List.mem_cons, List.mem_append] at h
    rw [relabel, find?, find?]
    by_cases hl : l = n
    · rw [if_pos hl, if_pos (congrArg σ hl), Option.map_some]
    · rw [if_neg hl, if_neg fun e => hl (h l (.inl rfl) e), Option.map_or,
        ihb fun m hm => h m (.inr (.inl hm)), ihr fun m hm => h m (.inr (.inr hm))]

/-! ## Forests that are alike -/

/-- The forests have the same shape, and the same contents in the same places. -/
inductive Alike : Forest → Forest → Prop
  | nil : Alike nil nil
  | cons {l l' : Nat} {c : Content} {below below' right right' : Forest} :
    Alike below below' → Alike right right' → Alike (cons l c below right) (cons l' c below' right')

/-- Labels that are distinct can be renamed into those of any forest that is alike. -/
theorem Alike.exists_relabel (h : Alike f g) (hf : f.labels.Nodup) : ∃ σ, f.relabel σ = g := by
  induction h with
  | nil => exact ⟨id, rfl⟩
  | @cons l l' c below _ right _ _ _ ihb ihr =>
    obtain ⟨⟨hlb, hlr⟩, hb, hr, hd⟩ := nodup_cons.1 hf
    obtain ⟨σ, rfl⟩ := ihb hb
    obtain ⟨τ, rfl⟩ := ihr hr
    let ρ := fun n => if n = l then l' else if n ∈ below.labels then σ n else τ n
    have hbelow : below.relabel ρ = below.relabel σ := relabel_congr fun n hn => by
      have hnl : n ≠ l := fun e => hlb (e ▸ hn)
      simp only [ρ, if_neg hnl, if_pos hn]
    have hright : right.relabel ρ = right.relabel τ := relabel_congr fun n hn => by
      have hnl : n ≠ l := fun e => hlr (e ▸ hn)
      have hnb : n ∉ below.labels := fun h => hd n h hn
      simp only [ρ, if_neg hnl, if_neg hnb]
    refine ⟨ρ, ?_⟩
    rw [relabel, hbelow, hright]
    simp only [ρ, if_true]

/-! ## Parts of a forest -/

/-- Distinct labels of `f` are looked up in `whole` as they are in `f`. -/
structure PartOf (f whole : Forest) : Prop where
  nodup : f.labels.Nodup
  find?_eq : ∀ n ∈ f.labels, whole.find? n = f.find? n

namespace PartOf

variable {whole whole' : Forest}

theorem find?_top (h : (cons l c below right).PartOf whole) :
    whole.find? l = some (c, below) := by
  rw [h.find?_eq l List.mem_cons_self, find?, if_pos rfl]

theorem down (h : (cons l c below right).PartOf whole) : below.PartOf whole where
  nodup := (nodup_cons.1 h.nodup).2.1
  find?_eq n hn := by
    rw [h.find?_eq n (List.mem_cons_of_mem _ (List.mem_append_left _ hn)),
      find?_cons_of_mem_below h.nodup hn]

theorem aside (h : (cons l c below right).PartOf whole) : right.PartOf whole where
  nodup := (nodup_cons.1 h.nodup).2.2.1
  find?_eq n hn := by
    rw [h.find?_eq n (List.mem_cons_of_mem _ (List.mem_append_right _ hn)),
      find?_cons_of_mem_right h.nodup hn]

/-- What is found at each label determines the renamed forest, given the labels at its top. -/
theorem relabel_eq (hf : f.PartOf whole) (hg : g.PartOf whole')
    (h : ∀ n c below, whole.find? n = some (c, below) →
      ∃ below', whole'.find? (σ n) = some (c, below') ∧ below'.tops = below.tops.map σ)
    (htops : g.tops = f.tops.map σ) : f.relabel σ = g := by
  induction f generalizing g with
  | nil =>
    cases g with
    | nil => rfl
    | cons => cases htops
  | cons l c below right ihb ihr =>
    cases g with
    | nil => cases htops
    | cons l' c' below' right' =>
      obtain ⟨rfl, hright⟩ := List.cons.inj htops
      obtain ⟨_, hfound, hbelow⟩ := h l c below hf.find?_top
      rw [hg.find?_top] at hfound
      cases hfound
      rw [relabel, ihb hf.down hg.down hbelow, ihr hf.aside hg.aside hright]

end PartOf

end Forest

/-! ## Documents that are equal up to labels -/

namespace Document

variable {d e : Document} {σ : Nat → Nat}

/-- `e` is `d` with its nodes renamed by `σ`: the nodes of the two correspond one to one, each holds
what the other holds, and its children are the other's children in their order. -/
structure Renamed (σ : Nat → Nat) (d e : Document) : Prop where
  root : σ 0 = 0
  bijOn : Set.BijOn σ {n | d.isLive n} {n | e.isLive n}
  content?_eq : ∀ n, d.isLive n → e.content? (σ n) = d.content? n
  children_eq : ∀ n, d.isLive n → e.view.children (σ n) = (d.view.children n).map σ

/-- **Relabelling a tree renames a document.** -/
theorem renamed_of_relabel_eq (h : d.tree.relabel σ = e.tree) : Renamed σ d e := by
  have hlabels : e.tree.labels = d.tree.labels.map σ := by rw [← h, Forest.labels_relabel]
  have hinj : ∀ n ∈ d.tree.labels, ∀ m ∈ d.tree.labels, σ m = σ n → m = n := fun n hn m hm =>
    List.inj_on_of_nodup_map (hlabels ▸ e.nodup) hm hn
  have hfind? : ∀ n, d.isLive n →
      e.tree.find? (σ n) = (d.tree.find? n).map fun x => (x.1, x.2.relabel σ) := fun n hn => by
    rw [← h, Forest.find?_relabel (hinj n (d.isLive_iff.1 hn))]
  constructor
  · obtain ⟨_, hd⟩ := d.rooted
    obtain ⟨_, he⟩ := e.rooted
    rw [hd, he] at h
    exact (Forest.cons.inj h).1
  · refine ⟨fun n hn => ?_, fun m hm n hn => ?_, fun m hm => ?_⟩
    · exact e.isLive_iff.2 (hlabels ▸ List.mem_map_of_mem (d.isLive_iff.1 hn))
    · exact hinj n (d.isLive_iff.1 hn) m (d.isLive_iff.1 hm)
    · obtain ⟨n, hn, rfl⟩ := List.mem_map.1 (hlabels ▸ e.isLive_iff.1 hm)
      exact ⟨n, d.isLive_iff.2 hn, rfl⟩
  · intro n hn
    rw [content?, content?, hfind? n hn, Option.map_map]
    rfl
  · intro n hn
    simp only [view, hfind? n hn]
    cases d.tree.find? n with
    | none => rfl
    | some x => exact Forest.tops_relabel σ x.2

/-- **A renaming of documents relabels the tree**: children are listed in order, so nothing else is
left to choose. -/
theorem Renamed.relabel_eq (h : Renamed σ d e) : d.tree.relabel σ = e.tree := by
  have hd : d.tree.PartOf d.tree := ⟨d.nodup, fun _ _ => rfl⟩
  have he : e.tree.PartOf e.tree := ⟨e.nodup, fun _ _ => rfl⟩
  refine hd.relabel_eq he (fun n c below hn => ?_) ?_
  · have hlive : d.isLive n := by rw [isLive, hn]; rfl
    have hcontent := h.content?_eq n hlive
    have hchildren := h.children_eq n hlive
    simp only [content?, view, hn, Option.map_some, Option.getD_some] at hcontent hchildren
    obtain ⟨⟨c', below'⟩, hfound, rfl⟩ := Option.map_eq_some_iff.1 hcontent
    rw [hfound] at hchildren
    exact ⟨below', hfound, hchildren⟩
  · obtain ⟨_, hdt⟩ := d.rooted
    obtain ⟨_, het⟩ := e.rooted
    rw [hdt, het]
    exact congrArg (fun l => [l]) h.root.symm

/-- **A document is another with its nodes renamed** exactly if its tree is the other's tree with
the labels renamed. -/
theorem renamed_iff : Renamed σ d e ↔ d.tree.relabel σ = e.tree :=
  ⟨Renamed.relabel_eq, renamed_of_relabel_eq⟩

end Document

end TreeSelectors
