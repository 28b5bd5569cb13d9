import Mathlib
import TreeSelectors.Selector.Query
import TreeSelectors.Selector.Tally
import TreeSelectors.Tree.Table

/-!
# Proofs/Tree/Position — which positions are picked, and how they are counted

The remainder and the quotient of a distance tell whether it is a natural number of steps
(`Nth.picks_iff`).  A tally on words goes through the siblings once and finds the place that
`place?` gives, mirrored if it counts from the end, as long as there are fewer than 2⁶² of them; the
test on that place then stays within words too.
-/

namespace TreeSelectors

universe u

/-! ## Positions -/

/-- **Remainder zero and no negative quotient**: `f` picks the positions `step * k + offset`, for
natural `k`. -/
theorem Nth.picks_iff (f : Nth) (i : Nat) :
    f.picks i ↔ ∃ k : Nat, f.step.toInt * k + f.offset.toInt = i := by
  have hstep : f.step = 0 ↔ f.step.toInt = 0 := Int32.toInt_inj.symm
  have hdistance (x : Int) : x + f.offset.toInt = i ↔ f.distance i = x := by
    rw [distance]
    omega
  simp only [hdistance]
  rw [picks]
  split
  · next h => simp [hstep.1 h]
  · next h =>
    rw [hstep] at h
    rw [Bool.and_eq_true, beq_iff_eq, decide_eq_true_eq, ← Int.dvd_iff_tmod_eq_zero]
    constructor
    · rintro ⟨⟨q, hq⟩, hnonneg⟩
      rw [hq, Int.mul_tdiv_cancel_left q h] at hnonneg
      exact ⟨q.toNat, by rw [hq, Int.toNat_of_nonneg hnonneg]⟩
    · rintro ⟨k, hk⟩
      rw [hk, Int.mul_tdiv_cancel_left _ h]
      exact ⟨⟨k, rfl⟩, Int.natCast_nonneg k⟩

/-! ## Words -/

section Words

variable {a b : Int64} {x : Int}

/-- What lies within the range has a word. -/
theorem exists_word? (hlo : -2 ^ 63 ≤ x) (hhi : x < 2 ^ 63) :
    ∃ c, word? x = some c ∧ c.toInt = x := by
  have hrange : Int64.minValue.toInt ≤ x ∧ x ≤ Int64.maxValue.toInt := by
    rw [Int64.toInt_minValue, Int64.toInt_maxValue]
    exact ⟨hlo, Int.le_sub_one_of_lt hhi⟩
  exact ⟨.ofInt x, if_pos hrange, Int64.toInt_ofInt_of_le hlo hhi⟩

theorem toInt_eq_zero_iff : a.toInt = 0 ↔ a = 0 :=
  Int64.toInt_zero ▸ Int64.toInt_inj

theorem toInt_nonneg_iff : 0 ≤ a.toInt ↔ 0 ≤ a := by
  rw [Int64.le_iff_toInt_le, Int64.toInt_zero]

/-- A quotient fits unless it negates the least word. -/
theorem exists_quotient? (ha : -2 ^ 63 < a.toInt) (hb : b ≠ 0) :
    ∃ q, quotient? a b = some q ∧ q.toInt = a.toInt.tdiv b.toInt := by
  have hq := Int.natAbs_tdiv_le_natAbs a.toInt b.toInt
  have ha' := a.toInt_lt
  rw [quotient?, if_neg hb]
  exact exists_word? (by omega) (by omega)

/-- A remainder fits where the quotient does. -/
theorem exists_remainder? (ha : -2 ^ 63 < a.toInt) (hb : b ≠ 0) :
    ∃ r, remainder? a b = some r ∧ r.toInt = a.toInt.tmod b.toInt := by
  obtain ⟨q, hq, -⟩ := exists_quotient? ha hb
  have hr : (a.toInt.tmod b.toInt).natAbs ≤ a.toInt.natAbs := by
    rw [Int.natAbs_tmod]
    exact Nat.mod_le _ _
  have ha' := a.toInt_lt
  rw [remainder?, hq, Option.bind_some]
  exact exists_word? (by omega) (by omega)

end Words

/-- **The test on words answers**, and as `picks` does. -/
theorem Nth.tests?_eq {i : Int64} {p : Nat} (f : Nth) (hi : i.toInt = p) (hp : p ≤ 2 ^ 62) :
    f.tests? i = some (f.picks p) := by
  have hlo := f.offset.le_toInt
  have hhi := f.offset.toInt_lt
  obtain ⟨d, hd, hdistance⟩ : ∃ d, difference? i f.offset.toInt64 = some d ∧
      d.toInt = f.distance p := by
    rw [difference?, Int32.toInt_toInt64, hi]
    exact exists_word? (by omega) (by omega)
  have hbound : -2 ^ 63 < d.toInt := by
    rw [hdistance, distance]
    omega
  have hstep : f.step.toInt64 = 0 ↔ f.step = 0 := by
    rw [← toInt_eq_zero_iff, Int32.toInt_toInt64, ← Int32.toInt_inj, Int32.toInt_zero]
  rw [tests?, hd, Option.bind_some, picks]
  by_cases hs : f.step = 0
  · rw [if_pos (hstep.2 hs), if_pos hs, Option.some_inj, Bool.eq_iff_iff, beq_iff_eq, beq_iff_eq,
      ← toInt_eq_zero_iff, hdistance]
  · have hs' : f.step.toInt64 ≠ 0 := mt hstep.1 hs
    obtain ⟨q, hq, hquotient⟩ := exists_quotient? hbound hs'
    obtain ⟨r, hr, hremainder⟩ := exists_remainder? hbound hs'
    rw [hdistance, Int32.toInt_toInt64] at hquotient hremainder
    rw [if_neg hs', if_neg hs, hr, Option.bind_some, hq, Option.map_some, ← hremainder, ← hquotient]
    by_cases hr0 : r = 0
    · rw [if_pos hr0, toInt_eq_zero_iff.2 hr0, beq_self_eq_true, Bool.true_and]
      simp only [toInt_nonneg_iff]
    · rw [if_neg hr0, beq_eq_false_iff_ne.2 (mt toInt_eq_zero_iff.1 hr0), Bool.false_and]

/-! ## Tallies -/

section Tallies

variable {ν : Type u} [DecidableEq ν] {n : ν} {l : List ν} {y : Tally}

/-- What a list has its place in, and the place. -/
theorem place?_eq (fromEnd : Bool) (n : ν) (l : List ν) : place? fromEnd n l =
    if n ∈ l then some ((if fromEnd then l.reverse else l).idxOf n + 1) else none := by
  have hmem : n ∈ l ↔ n ∈ if fromEnd then l.reverse else l := by
    split
    · exact List.mem_reverse.symm
    · exact Iff.rfl
  rw [place?, if_congr hmem rfl rfl]
  cases hj : (if fromEnd then l.reverse else l).idxOf? n with
  | none => rw [if_neg (List.idxOf?_eq_none_iff.1 hj), Option.map_none]
  | some j =>
    rw [if_pos (List.isSome_idxOf?.1 (by rw [hj]; rfl)), List.idxOf_eq_getD_idxOf?, hj]
    rfl

theorem place?_le {fromEnd : Bool} {i : Nat} (h : place? fromEnd n l = some i) : i ≤ l.length := by
  rw [place?, Option.map_eq_some_iff] at h
  obtain ⟨j, hj, rfl⟩ := h
  obtain ⟨hlt, -⟩ := List.idxOf?_eq_some_iff.1 hj
  split at hlt
  · rwa [List.length_reverse] at hlt
  · exact hlt

/-- One more sibling is counted. -/
theorem exists_sum?_one {a : Int64} (h0 : 0 ≤ a.toInt) (h : a.toInt ≤ 2 ^ 62) :
    ∃ b, sum? a 1 = some b ∧ b.toInt = a.toInt + 1 := by
  have h1 : (1 : Int64).toInt = 1 := rfl
  rw [sum?, h1]
  exact exists_word? (by omega) (by omega)

/-- **A count from the start** finds the first `n`. -/
theorem Tally.exists_over?_start (h0 : 0 ≤ y.count.toInt) (h : y.count.toInt + l.length ≤ 2 ^ 62) :
    ∃ z, y.over? false n l = some z ∧ z.place?.map Int64.toInt =
      ((l.idxOf? n).map fun j : Nat => y.count.toInt + j + 1).or (y.place?.map Int64.toInt) := by
  induction l generalizing y with
  | nil => exact ⟨y, rfl, rfl⟩
  | cons c l ih =>
    obtain ⟨count, hsum, hcount⟩ := exists_sum?_one h0 (by omega)
    rw [over?, hsum, Option.bind_some, List.idxOf?_cons]
    by_cases hc : c = n
    · rw [if_pos hc, if_pos (beq_iff_eq.2 hc)]
      exact ⟨⟨count, some count⟩, rfl, by simp [hcount]⟩
    · rw [if_neg hc, if_neg (mt beq_iff_eq.1 hc)]
      rw [List.length_cons] at h
      obtain ⟨z, hz, hplace⟩ := @ih ⟨count, y.place?⟩ (by simp only; omega) (by simp only; omega)
      refine ⟨z, hz, hplace.trans ?_⟩
      rw [Option.map_map]
      congr 2
      funext j
      simp only [Function.comp_apply, hcount]
      omega

/-- **A count from the end** finds the last `n` and the number of all siblings. -/
theorem Tally.exists_over?_end (h0 : 0 ≤ y.count.toInt) (h : y.count.toInt + l.length ≤ 2 ^ 62) :
    ∃ z, y.over? true n l = some z ∧ z.count.toInt = y.count.toInt + l.length ∧
      z.place?.map Int64.toInt = ((l.reverse.idxOf? n).map fun j : Nat =>
        y.count.toInt + l.length - j).or (y.place?.map Int64.toInt) := by
  induction l generalizing y with
  | nil => exact ⟨y, rfl, by simp, rfl⟩
  | cons c l ih =>
    obtain ⟨count, hsum, hcount⟩ := exists_sum?_one h0 (by omega)
    rw [List.length_cons] at h
    have hlast : (l.reverse ++ [c]).idxOf? n =
        (l.reverse.idxOf? n).or (if c = n then some l.length else none) := by
      rw [List.idxOf?, List.findIdx?_append, List.length_reverse]
      by_cases hc : c = n <;> simp [hc]
    obtain ⟨z, hz, hall, hplace⟩ := @ih ⟨count, if c = n then some count else y.place?⟩
      (by simp only; omega) (by simp only; omega)
    refine ⟨z, ?_, by rw [hall, hcount, List.length_cons]; omega, ?_⟩
    · rw [over?, hsum, Option.bind_some, ← hz]
      split <;> rfl
    · rw [hplace, List.reverse_cons, hlast, List.length_cons]
      cases l.reverse.idxOf? n with
      | some j =>
        simp only [Option.map_some, Option.some_or, Option.some_inj, hcount]
        omega
      | none =>
        by_cases hc : c = n
        · simp only [hc, if_true, Option.map_none, Option.none_or, Option.map_some, Option.some_or,
            Option.some_inj, hcount]
          omega
        · simp [hc]

/-- **The place counted on words is the place**, if there are fewer than 2⁶² siblings. -/
theorem exists_countedPlace? (fromEnd : Bool) (n : ν) (h : l.length < 2 ^ 62) :
    ∃ w, countedPlace? fromEnd n l = some w ∧
      w.map Int64.toInt = (place? fromEnd n l).map Nat.cast := by
  have h0 : (0 : Int64).toInt = 0 := rfl
  have hlength : (0 : Int64).toInt + l.length ≤ 2 ^ 62 := by omega
  cases fromEnd with
  | false =>
    obtain ⟨z, hz, hplace⟩ := Tally.exists_over?_start (y := ⟨0, none⟩) (n := n) h0.ge hlength
    refine ⟨z.place?, ?_, ?_⟩
    · rw [countedPlace?, hz, Option.bind_some, Tally.result?]
      cases z.place? <;> rfl
    · rw [hplace, place?, Option.map_map, Option.map_none, Option.or_none]
      simp [Function.comp_def]
  | true =>
    obtain ⟨z, hz, hall, hplace⟩ := Tally.exists_over?_end (y := ⟨0, none⟩) (n := n) h0.ge hlength
    rw [countedPlace?, hz, Option.bind_some, Tally.result?, place?, if_pos rfl]
    cases hj : l.reverse.idxOf? n with
    | none =>
      rw [hj, Option.map_none, Option.map_none, Option.none_or, Option.map_eq_none_iff] at hplace
      rw [hplace]
      exact ⟨none, rfl, rfl⟩
    | some j =>
      rw [hj, Option.map_some, Option.some_or, Option.map_eq_some_iff] at hplace
      obtain ⟨i, hi, hplace⟩ := hplace
      have hplaced : place? true n l = some (j + 1) := by
        rw [place?, if_pos rfl, hj]
        rfl
      have hlt := place?_le hplaced
      have hmiddle : z.count.toInt - i.toInt = j := by
        rw [hall, hplace]
        omega
      obtain ⟨e, he, hrest⟩ := exists_word? (x := (j : Int)) (by omega) (by omega)
      rw [← hmiddle, ← difference?] at he
      obtain ⟨w, hw, hmirror⟩ := exists_sum?_one (a := e) (by omega) (by omega)
      refine ⟨some w, ?_, ?_⟩
      · rw [hi]
        simp only [if_true, he, Option.bind_some, hw, Option.map_some]
      · simp [hmirror, hrest]

end Tallies

/-! ## The selector -/

/-- Siblings are the element children of the parent, or those of them with just the same tag. -/
theorem TreeView.counted_eq_filter {ν : Type u} (t : TreeView ν) (sameTag : Bool) (n p : ν) :
    t.counted sameTag n p = (t.children p).filter fun c =>
      t.isElement c ∧ (sameTag → t.tagName c = t.tagName n) := by
  refine List.filter_congr fun c _ => Bool.eq_iff_iff.2 ?_
  cases sameTag <;> simp

namespace Selector

variable {ν : Type u} [DecidableEq ν]

/-- **The positions that a selector of positions picks.**  It selects the elements with a parent
that have a place in the row of the parent's element children, or of those with exactly their tag,
if this place, the first one from the chosen end, is `step * k + offset` for some natural `k`; and
counting and testing on words comes to the same answer, without wrapping and without dividing by
zero. -/
theorem nthChild_selects_iff (t : TreeView ν) (n : ν) (f : Nth) (fromEnd sameTag : Bool)
    (h : ∀ p, t.parent? n = some p → (t.children p).length < 2 ^ 62) :
    ((nthChild f fromEnd sameTag).selects t n ↔
      t.isElement n ∧ ∃ p row, t.parent? n = some p ∧
        row = (t.children p).filter
          (fun c => t.isElement c ∧ (sameTag → t.tagName c = t.tagName n)) ∧
        n ∈ row ∧ ∃ k : Nat, f.step.toInt * k + f.offset.toInt =
          (if fromEnd then row.reverse else row).idxOf n + 1) ∧
      t.nthChild? n f fromEnd sameTag = some ((nthChild f fromEnd sameTag).selects t n) := by
  rw [TreeView.nthChild?, selects, TreeView.siblings?]
  by_cases he : t.isElement n
  swap
  · simp [he]
  cases hp : t.parent? n with
  | none => simp [he]
  | some p =>
    rw [if_pos he, Option.map_some, Option.any_some]
    constructor
    · simp only [← TreeView.counted_eq_filter]
      rw [place?_eq]
      split
      · next hmem => simp [he, hmem, Nth.picks_iff]
      · next hmem => simp [hmem]
    · have hlength : (t.counted sameTag n p).length < 2 ^ 62 :=
        Nat.lt_of_le_of_lt (List.length_filter_le _ _) (h p hp)
      obtain ⟨w, hw, hplace⟩ := exists_countedPlace? fromEnd n hlength
      simp only [hw, Option.bind_some]
      cases hi : place? fromEnd n (t.counted sameTag n p) with
      | none =>
        rw [hi, Option.map_none, Option.map_eq_none_iff] at hplace
        rw [hplace, Option.any_none]
      | some i =>
        rw [hi, Option.map_some, Option.map_eq_some_iff] at hplace
        obtain ⟨c, rfl, hc⟩ := hplace
        exact f.tests?_eq hc ((place?_le hi).trans hlength.le)

/-- …as among children that name the second node twice, after a text, with the same tag in capitals
and another one in between: the last of them is the third of its tag, the fifth element and the
sixth child. -/
theorem nthChild_selects_iff_repeated :
    let t := TreeView.ofRows #[⟨some "ul", none, [], none, some [4, 1, 2, 1, 5, 3]⟩,
      ⟨some "li", none, [], some 0, none⟩, ⟨some "LI", none, [], some 0, none⟩,
      ⟨some "li", none, [], some 0, none⟩, ⟨none, some "x", [], some 0, none⟩,
      ⟨some "p", none, [], some 0, none⟩]
    (∀ n ∈ [1, 3], ∀ p, t.parent? n = some p → (t.children p).length < 2 ^ 62) ∧
      ((nthChild ⟨-3, 5⟩ true true).selects t 1 ∧ t.nthChild? 1 ⟨-3, 5⟩ true true = some true) ∧
      (nthChild ⟨0, 3⟩ false true).selects t 3 ∧ (nthChild ⟨0, 5⟩ false false).selects t 3 ∧
        ¬(nthChild ⟨0, 6⟩ false false).selects t 3 := by
  intro t
  have h : ∀ n ∈ [1, 3], ∀ p, t.parent? n = some p → (t.children p).length < 2 ^ 62 := by
    intro n hn p hp
    have hparent : t.parent? n = some 0 := by fin_cases hn <;> rfl
    obtain rfl := Option.some.inj (hparent.symm.trans hp)
    change 6 < 2 ^ 62
    norm_num
  have hone := h 1 (by decide)
  have hthree := h 3 (by decide)
  obtain ⟨hselects, hwords⟩ := nthChild_selects_iff t 1 ⟨-3, 5⟩ true true hone
  have hs : (nthChild ⟨-3, 5⟩ true true).selects t 1 :=
    hselects.2 ⟨rfl, 0, [1, 1, 3], rfl, by decide, by decide, 1, by decide⟩
  refine ⟨h, ⟨hs, hs ▸ hwords⟩, ?_, ?_, fun hsix => ?_⟩
  · exact (nthChild_selects_iff t 3 ⟨0, 3⟩ false true hthree).1.2
      ⟨rfl, 0, [1, 1, 3], rfl, by decide, by decide, 0, by decide⟩
  · exact (nthChild_selects_iff t 3 ⟨0, 5⟩ false false hthree).1.2
      ⟨rfl, 0, [1, 2, 1, 5, 3], rfl, by decide, by decide, 0, by decide⟩
  · obtain ⟨-, p, row, hp, hrow, -, k, hk⟩ :=
      (nthChild_selects_iff t 3 ⟨0, 6⟩ false false hthree).1.1 hsix
    obtain rfl : 0 = p := Option.some.inj hp
    obtain rfl : row = [1, 2, 1, 5, 3] := hrow.trans (by decide)
    change (0 : ℤ) * k + 6 = 4 + 1 at hk
    omega

end Selector

end TreeSelectors
