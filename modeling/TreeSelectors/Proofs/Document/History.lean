import Mathlib
import TreeSelectors.Proofs.Document.Effect

/-!
# Proofs/Document/History — which labels are live after a run of edits

A run tries its edits one after the other, and those that fail change nothing.  A label is live at
the end exactly if it was handed out on the way and nothing at or above it was removed; a label that
is gone therefore stays gone.
-/

namespace TreeSelectors.Document

variable {d : Document} {e : Edit} {es fs : List Edit} {n : Nat}

/-! ## One edit -/

/-- The edit can be made. -/
def Succeeds (d : Document) (e : Edit) : Prop :=
  ∃ d', d.apply e = .ok d'

/-- The edit appends a node and gives it the label `n`. -/
def HandsOut (d : Document) (e : Edit) (n : Nat) : Prop :=
  d.Succeeds e ∧ e.appended?.isSome ∧ n = d.next

/-- The edit removes `n`, or a node above it. -/
def TakesAway (d : Document) (e : Edit) (n : Nat) : Prop :=
  d.Succeeds e ∧ ∃ m, e = .remove m ∧ d.view.Under m n

/-- **What one edit does to the live labels.** -/
theorem isLive_attempt :
    (d.attempt e).isLive n ↔ (d.isLive n ∨ d.HandsOut e n) ∧ ¬d.TakesAway e n := by
  rw [attempt]
  cases hd : d.apply e with
  | error cause =>
    have hfails : ¬d.Succeeds e := fun ⟨d', h⟩ => by rw [hd] at h; cases h
    simp [HandsOut, TakesAway, hfails]
  | ok d' =>
    have hs : d.Succeeds e := ⟨d', hd⟩
    cases effect_of_apply hd with
    | @appended _ p c _ he h =>
      have hremove (m : Nat) : e ≠ .remove m := by rintro rfl; cases he
      simp [HandsOut, TakesAway, hs, he, hremove, h.isLive_iff, or_comm]
    | attributed h => simp [HandsOut, TakesAway, Edit.appended?, h.isLive_iff]
    | removed h => simp [HandsOut, TakesAway, Edit.appended?, hs, h.isLive]

/-- Labels are handed out in rising order, and none comes back. -/
theorem next_le_attempt (d : Document) (e : Edit) : d.next ≤ (d.attempt e).next := by
  rw [attempt]
  cases hd : d.apply e with
  | error cause => exact Nat.le_refl _
  | ok d' => exact (effect_of_apply hd).next_le

/-- Only a live label is taken away, for only live nodes are removed. -/
theorem TakesAway.isLive (h : d.TakesAway e n) : d.isLive n := by
  obtain ⟨⟨d', hd⟩, m, rfl, hu⟩ := h
  exact isLive_of_under hu (removed_of_remove hd).live

/-! ## Runs -/

theorem attemptAll_append (d : Document) (es fs : List Edit) :
    d.attemptAll (es ++ fs) = (d.attemptAll es).attemptAll fs :=
  List.foldl_append

/-- The edits of a run, each with the document that it was tried on. -/
def history (d : Document) : List Edit → List (Document × Edit)
  | [] => []
  | e :: es => (d, e) :: (d.attempt e).history es

/-- The history of a run goes on where the first part has ended. -/
theorem history_append (d : Document) (es fs : List Edit) :
    d.history (es ++ fs) = d.history es ++ (d.attemptAll es).history fs := by
  induction es generalizing d with
  | nil => rfl
  | cons e es ih =>
    rw [List.cons_append, history, ih, history, List.cons_append]
    rfl

/-- Some edit of the run that begins with a new document handed out `n`. -/
def HandedOut (es : List Edit) (n : Nat) : Prop :=
  ∃ x ∈ new.history es, x.1.HandsOut x.2 n

/-- Some edit of the run that begins with a new document removed `n`, or a node above it. -/
def TakenAway (es : List Edit) (n : Nat) : Prop :=
  ∃ x ∈ new.history es, x.1.TakesAway x.2 n

theorem handedOut_append : HandedOut (es ++ fs) n ↔
    HandedOut es n ∨ ∃ x ∈ (new.attemptAll es).history fs, x.1.HandsOut x.2 n := by
  simp only [HandedOut, history_append, List.mem_append, or_and_right, exists_or]

theorem takenAway_append : TakenAway (es ++ fs) n ↔
    TakenAway es n ∨ ∃ x ∈ (new.attemptAll es).history fs, x.1.TakesAway x.2 n := by
  simp only [TakenAway, history_append, List.mem_append, or_and_right, exists_or]

/-- What has been taken away is an old label. -/
theorem TakenAway.lt_next (h : TakenAway es n) : n < (new.attemptAll es).next := by
  induction es using List.reverseRecOn with
  | nil => obtain ⟨_, hx, _⟩ := h; cases hx
  | append_singleton es e ih =>
    rw [attemptAll_append]
    refine Nat.lt_of_lt_of_le ?_ (next_le_attempt _ e)
    obtain h | ⟨x, hx, h⟩ := takenAway_append.1 h
    · exact ih h
    · obtain rfl := List.mem_singleton.1 hx
      exact Document.lt_next h.isLive

/-- **The live labels after a run.**  The induction is on the run from its end; a label cannot be
handed out after it was taken away, since it is an old one then. -/
theorem isLive_attemptAll : (new.attemptAll es).isLive n ↔
    (n = 0 ∨ HandedOut es n) ∧ ¬TakenAway es n := by
  induction es using List.reverseRecOn with
  | nil =>
    have hnew : (new.attemptAll []).isLive n ↔ n = 0 := by
      rw [isLive_iff]
      exact List.mem_singleton
    simp [hnew, HandedOut, TakenAway, history]
  | append_singleton es e ih =>
    have hold : (new.attemptAll es).HandsOut e n → ¬TakenAway es n :=
      fun hn ht => Nat.ne_of_lt ht.lt_next hn.2.2
    have hrun : new.attemptAll (es ++ [e]) = (new.attemptAll es).attempt e :=
      attemptAll_append new es [e]
    rw [hrun, isLive_attempt, ih, handedOut_append, takenAway_append]
    simp only [history, List.mem_singleton, exists_eq_left]
    tauto

/-- **A document is one tree after every run**, the live labels are those that were handed out and
not taken away, and a label that is gone never becomes live again. -/
theorem attemptAll_sound (es : List Edit) : (new.attemptAll es).Sound ∧
    (∀ n, (new.attemptAll es).isLive n ↔ (n = 0 ∨ HandedOut es n) ∧ ¬TakenAway es n) ∧
    ∀ fs n, HandedOut es n → ¬(new.attemptAll es).isLive n →
      ¬(new.attemptAll (es ++ fs)).isLive n := by
  refine ⟨(new.attemptAll es).sound, fun n => isLive_attemptAll, fun fs n hn hgone hlive => ?_⟩
  have htaken : TakenAway es n := by
    by_contra ht
    exact hgone (isLive_attemptAll.2 ⟨.inr hn, ht⟩)
  exact (isLive_attemptAll.1 hlive).2 (takenAway_append.2 (.inl htaken))

end TreeSelectors.Document
