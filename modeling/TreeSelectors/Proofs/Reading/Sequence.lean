import Mathlib
import TreeSelectors.Proofs.Reading.Attribute
import TreeSelectors.Proofs.Reading.Formula

/-!
# Proofs/Reading/Sequence — a text is read exactly if the grammar derives it

The reader keeps a stack of open negations; a derivation nests.  Soundness extends a derivation of
what has been read by what is read next, up to where a sequence ends; completeness runs through a
derivation and leaves the stack alone.
-/

namespace TreeSelectors.Grammar

open Text

/-! ## Pseudo-classes

The tables of the grammar are the cases of the reader. -/

theorem pseudoClass?_plain {name : String} {s : Selector} :
    Reader.pseudoClass? name = some (.plain s) ↔ (name, s) ∈ plainClasses := by
  constructor
  · intro h
    rw [Reader.pseudoClass?.eq_def] at h
    split at h <;> cases h <;> decide
  · intro h
    fin_cases h <;> rfl

theorem pseudoClass?_counting {name : String} {fromEnd sameTag : Bool} :
    Reader.pseudoClass? name = some (.counting fromEnd sameTag) ↔
      (name, fromEnd, sameTag) ∈ countingClasses := by
  constructor
  · intro h
    rw [Reader.pseudoClass?.eq_def] at h
    split at h <;> cases h <;> decide
  · intro h
    fin_cases h <;> rfl

theorem pseudoClass?_negation {name : String} :
    Reader.pseudoClass? name = some .negation ↔ name = "not" := by
  constructor
  · intro h
    rw [Reader.pseudoClass?.eq_def] at h
    split at h <;> cases h
    rfl
  · rintro rfl
    rfl

/-- **An argument that is read has a derivation**, blanks standing on either side of its formula. -/
theorem argument_sound {cs rest : List Char} {f : Nth}
    (h : Reader.argument cs = .ok (f, rest)) : ∃ ds es fs, cs = '(' :: ds ∧ Blanks ds es ∧
      Formula es f fs ∧ Blanks fs (')' :: rest) := by
  obtain ⟨ds, hd, h⟩ := bind_eq_ok.1 h
  obtain ⟨⟨g, es⟩, hf, h⟩ := bind_eq_ok.1 h
  obtain ⟨fs, he, h⟩ := bind_eq_ok.1 h
  cases h
  obtain ⟨mid, hm, hb⟩ := formula_sound hf
  exact ⟨ds, _, mid, expect_eq_ok.1 hd, blanks_sound ds, hm,
    hb.trans (expect_eq_ok.1 he ▸ blanks_sound es)⟩

/-! ## What has been read of a sequence -/

/-- What the reader holds of a row of conjuncts: nothing yet, or their conjunction. -/
def joined : List Selector → Option Selector
  | [] => none
  | s :: ss => some (.conjunction (s :: ss))

theorem joined_of_ne_nil {ss : List Selector} (h : ss ≠ []) :
    joined ss = some (.conjunction ss) := by
  obtain ⟨s, ss, rfl⟩ := List.exists_cons_of_ne_nil h
  rfl

/-- Reading a conjunct more joins it to those before. -/
theorem joined_snoc (ss : List Selector) (s : Selector) :
    joined (ss ++ [s]) = some (Reader.join (joined ss) s) := by
  cases ss with
  | nil => rfl
  | cons r rs =>
    rw [joined_of_ne_nil (by simp), Selector.conjunction_snoc (List.cons_ne_nil r rs)]
    rfl

theorem joined_getD (ss : List Selector) : (joined ss).getD .universal = .conjunction ss := by
  cases ss <;> rfl

theorem front_sound {cs rest : List Char} {f : Option Selector}
    (h : Reader.front cs = .ok (f, rest)) : ∃ ss, Front cs ss rest ∧ joined ss = f := by
  rw [Reader.front.eq_def] at h
  split at h
  · cases h
    exact ⟨[.universal], .universal, rfl⟩
  · split at h
    · obtain ⟨s, hs, rfl⟩ := Reader.mapRead_eq_ok.1 h
      obtain ⟨name, hn, rfl⟩ := identifier_sound hs
      exact ⟨[.tag (lowered name)], .tag hn, by rw [ofTag_eq]; rfl⟩
    · cases h
      exact ⟨[], .none, rfl⟩

/-! ## Pieces -/

/-- The opening of a negation, up to the front of its sequence. -/
def Opening (cs : List Char) (ss : List Selector) (rest : List Char) : Prop :=
  ∃ name ds es, Identifier cs name ('(' :: ds) ∧ lowered name = "not" ∧
    Blanks ds es ∧ Front es ss rest

/-- **What is read behind a colon is a simple selector**, or opens a negation. -/
theorem pseudo_sound {cs rest : List Char} {p : Reader.Piece}
    (h : Reader.pseudo cs = .ok (p, rest)) :
    (∃ s, p = .simple s ∧ Simple (':' :: cs) s rest) ∨
      ∃ ss, p = .opening (joined ss) ∧ Opening cs ss rest := by
  obtain ⟨⟨v, ds⟩, hv, h⟩ := bind_eq_ok.1 h
  obtain ⟨name, hn, rfl⟩ := identifier_sound hv
  dsimp only at h
  rw [fold_eq_lowered] at h
  split at h
  · cases h
  · next s hc =>
    cases h
    exact .inl ⟨s, rfl, .plain hn (pseudoClass?_plain.1 hc)⟩
  · next hc =>
    obtain ⟨⟨f, es⟩, hf, h⟩ := bind_eq_ok.1 h
    cases h
    obtain ⟨fs, gs, hs, rfl, hb, hform, hb'⟩ := argument_sound hf
    exact .inl ⟨_, rfl, .counting hn (pseudoClass?_counting.1 hc) hb hform hb'⟩
  · next hc =>
    obtain ⟨es, he, h⟩ := bind_eq_ok.1 h
    obtain ⟨⟨f, fs⟩, hf, h⟩ := bind_eq_ok.1 h
    cases h
    obtain ⟨ss, hs, rfl⟩ := front_sound hf
    rw [expect_eq_ok.1 he] at hn
    exact .inr ⟨ss, rfl, name, es, _, hn, pseudoClass?_negation.1 hc, blanks_sound es, hs⟩

/-- **A piece that is read is a simple selector, or opens a negation.** -/
theorem next?_sound {cs rest : List Char} {p : Reader.Piece}
    (h : Reader.next? cs = some (.ok (p, rest))) :
    (∃ s, p = .simple s ∧ Simple cs s rest) ∨
      ∃ ss ds, cs = ':' :: ds ∧ p = .opening (joined ss) ∧ Opening ds ss rest := by
  cases cs with
  | nil => cases h
  | cons c cs =>
    rw [Reader.next?, Reader.piece?.eq_def] at h
    split at h
    · obtain ⟨v, hv, rfl⟩ := Reader.mapRead_eq_ok.1 (Option.some.inj h)
      obtain ⟨value, hn, rfl⟩ := name_sound hv
      exact .inl ⟨_, rfl, .id hn⟩
    · obtain ⟨v, hv, rfl⟩ := Reader.mapRead_eq_ok.1 (Option.some.inj h)
      obtain ⟨name, hn, rfl⟩ := identifier_sound hv
      exact .inl ⟨_, rfl, .className hn⟩
    · obtain ⟨s, hs, rfl⟩ := Reader.mapRead_eq_ok.1 (Option.some.inj h)
      exact .inl ⟨s, rfl, .attr (attributeSelector_sound hs)⟩
    · obtain hs | ⟨ss, hp, ho⟩ := pseudo_sound (Option.some.inj h)
      · exact .inl hs
      · exact .inr ⟨ss, cs, rfl, hp, ho⟩
    · cases h

/-- A negation that is closed holds a sequence that is not empty. -/
theorem closing_sound {ss : List Selector} {s : Selector} {cs rest : List Char}
    (h : Reader.closing (joined ss) cs = .ok (s, rest)) :
    ss ≠ [] ∧ s = .negation (.conjunction ss) ∧ Blanks cs (')' :: rest) := by
  cases ss with
  | nil => cases h
  | cons r rs =>
    obtain ⟨ds, hd, h⟩ := map_eq_ok.1 h
    cases h
    exact ⟨List.cons_ne_nil r rs, rfl, expect_eq_ok.1 hd ▸ blanks_sound cs⟩

/-! ## Soundness -/

/-- **Reading on extends the derivation** up to where no piece begins; from there the reader still
goes the same way.  The induction is on the length of the text left, and a negation calls on it
twice: for the inside and for what follows the parenthesis. -/
theorem sequence_sound {outer : List (Option Selector)} {start cs : List Char}
    {ss : List Selector} {s : Selector} (hs : Sequence start ss cs)
    (h : Reader.sequence outer (joined ss) cs = .ok s) :
    ∃ ts ds, Sequence start ts ds ∧ Reader.next? ds = none ∧ ds.length ≤ cs.length ∧
      Reader.sequence outer (joined ts) ds = .ok s := by
  generalize hlen : cs.length = n
  induction n using Nat.strong_induction_on generalizing outer start cs ss with
  | h n ih =>
    subst hlen
    have hstep := h
    rw [Reader.sequence_eq] at hstep
    split at hstep
    · cases hstep
    · next t rest hp =>
      obtain ⟨_, hpiece, hsim⟩ | ⟨_, _, _, hpiece, _⟩ := next?_sound hp
      · obtain rfl := Reader.Piece.simple.inj hpiece
        have hrest := Reader.length_next? hp
        rw [← joined_snoc] at hstep
        obtain ⟨ts, ds, hts, hnone, hle, hgo⟩ := ih _ hrest (hs.snoc hsim) hstep rfl
        exact ⟨ts, ds, hts, hnone, hle.trans hrest.le, hgo⟩
      · cases hpiece
    · next f rest hp =>
      obtain ⟨_, hpiece, _⟩ | ⟨fs, cs', rfl, hpiece, name, ds, es, hid, hnot, hb, hfront⟩ :=
        next?_sound hp
      · cases hpiece
      · obtain rfl := Reader.Piece.opening.inj hpiece
        have hrest := Reader.length_next? hp
        obtain ⟨ts, gs, hts, hnone, hle, hgo⟩ := ih _ hrest (.front hfront) hstep rfl
        rw [Reader.sequence_eq, hnone] at hgo
        dsimp only at hgo
        split at hgo
        · cases hgo
        · next t after hclose =>
          obtain ⟨hne, rfl, hb'⟩ := closing_sound hclose
          have hafter := (Reader.length_closing hclose).trans_le (hle.trans hrest.le)
          rw [← joined_snoc] at hgo
          obtain ⟨us, is, hus, hnone', hle', hgo'⟩ :=
            ih _ hafter (hs.snoc (.negation hid hnot hb hts hne hb')) hgo rfl
          exact ⟨us, is, hus, hnone', hle'.trans hafter.le, hgo'⟩
    · next hnone => exact ⟨ss, cs, hs, hnone, le_rfl, h⟩

/-- What is read of a whole text is derived. -/
theorem selector_sound {cs : List Char} {s : Selector} (h : Reader.selector cs = .ok s) :
    Derives cs s := by
  obtain ⟨⟨f, rest⟩, hf, h⟩ := bind_eq_ok.1 h
  obtain ⟨ss, hss, rfl⟩ := front_sound hf
  obtain ⟨ts, ds, hts, hnone, -, hgo⟩ := sequence_sound (.front hss) h
  rw [Reader.sequence_eq, hnone] at hgo
  dsimp only at hgo
  split at hgo
  · next hd =>
    subst hd
    exact ⟨ts, hts, joined_getD ts ▸ Except.ok.inj hgo⟩
  · cases hgo

/-! ## Completeness

A simple selector and a front are read as they are derived wherever a sequence goes on or ends. -/

/-- Where a sequence goes on or ends: no name, no escape and no `*` begins at `cs`. -/
def EndsFront (cs : List Char) : Prop :=
  EndsName cs ∧ cs.head? ≠ some '*'

theorem head?_of_closing {cs tail : List Char} (h : Blanks cs (')' :: tail)) :
    ∀ c ∈ cs.head?, c = ')' ∨ isBlank c := by
  obtain ⟨ws, rfl, hw⟩ := h
  intro c hc
  cases ws with
  | nil => exact .inl (Option.some.inj hc).symm
  | cons w ws => exact .inr ((Option.some.inj hc : w = c) ▸ hw w List.mem_cons_self)

theorem endsFront_of_closing {cs tail : List Char} (h : Blanks cs (')' :: tail)) :
    EndsFront cs := by
  refine ⟨endsName_of_closing h, fun hc => ?_⟩
  obtain h | h := head?_of_closing h '*' hc <;> exact absurd h (by decide)

/-- A mark that a simple selector begins with stands at the beginning of `cs`. -/
def Marked (cs : List Char) : Prop :=
  ∃ c ds, cs = c :: ds ∧ (c = '#' ∨ c = '.' ∨ c = '[' ∨ c = ':')

/-- Simple selectors begin with marks, none of which goes on with what is before. -/
theorem Marked.endsFront {cs : List Char} (h : Marked cs) : EndsFront cs := by
  obtain ⟨c, ds, rfl, hc⟩ := h
  refine ⟨.cons ?_ ?_, fun he => ?_⟩
  · obtain rfl | rfl | rfl | rfl := hc <;> rfl
  · obtain rfl | rfl | rfl | rfl := hc <;> decide
  · obtain rfl : c = '*' := Option.some.inj he
    exact absurd hc (by decide)

theorem Simple.head {cs rest : List Char} {s : Selector} (h : Simple cs s rest) : Marked cs := by
  cases h <;> exact ⟨_, _, rfl, by simp⟩

theorem Simple.endsFront {cs rest : List Char} {s : Selector} (h : Simple cs s rest) :
    EndsFront cs :=
  h.head.endsFront

/-- No identifier begins where a front ends. -/
theorem EndsFront.startsIdentifier {cs : List Char} (h : EndsFront cs) :
    Reader.startsIdentifier cs = false := by
  cases cs with
  | nil => rfl
  | cons c cs =>
    obtain ⟨hc, hb⟩ := h.1 c rfl
    have hs : isNameStart c = false :=
      Bool.eq_false_iff.2 (mt isNameChar_of_isNameStart (Bool.eq_false_iff.1 hc))
    rw [Reader.startsIdentifier.eq_def]
    split
    · next he =>
      obtain ⟨rfl, -⟩ := List.cons.inj he
      cases hc
    · rw [Reader.startsName, if_neg hb, hs]

/-- **A derived front is read**, if what follows does not go on with it. -/
theorem Front.complete {cs rest : List Char} {ss : List Selector} (h : Front cs ss rest)
    (hr : EndsFront rest) : Reader.front cs = .ok (joined ss, rest) := by
  cases h with
  | none =>
    rw [Reader.front.eq_def]
    split
    · exact absurd rfl hr.2
    · rw [hr.startsIdentifier]; rfl
  | universal => rfl
  | tag h =>
    have hs := h.startsIdentifier
    rw [Reader.front.eq_def]
    split
    · cases hs
    · rw [if_pos hs, h.complete hr.1, Reader.mapRead_ok, ofTag_eq]; rfl

theorem sequence_simple {cs rest : List Char} {s : Selector}
    (h : Reader.next? cs = some (.ok (.simple s, rest))) (outer : List (Option Selector))
    (read : Option Selector) : Reader.sequence outer read cs =
      Reader.sequence outer (some (Reader.join read s)) rest := by
  rw [Reader.sequence_eq, h]

/-- A negation is opened, its sequence read and the parenthesis closed. -/
theorem sequence_negation {cs mid fs rest : List Char} {f : Option Selector}
    {ss : List Selector} (hopen : Reader.next? cs = some (.ok (.opening f, mid)))
    (hgo : ∀ outer, Reader.sequence outer f mid = Reader.sequence outer (joined ss) fs)
    (hne : ss ≠ []) (hb : Blanks fs (')' :: rest)) (outer : List (Option Selector))
    (read : Option Selector) : Reader.sequence outer read cs =
      Reader.sequence outer (some (Reader.join read (.negation (.conjunction ss)))) rest := by
  have hnone : Reader.next? fs = none := by
    cases fs with
    | nil => rfl
    | cons c fs =>
      rw [Reader.next?, Reader.piece?.eq_def]
      have hc := head?_of_closing hb c rfl
      split <;> first | rfl | exact absurd hc (by decide)
  have hclose : Reader.closing (joined ss) fs = .ok (.negation (.conjunction ss), rest) := by
    rw [joined_of_ne_nil hne]
    exact map_eq_ok.2 ⟨rest, expect_eq_ok.2 (blanks_of_closing hb), rfl⟩
  rw [Reader.sequence_eq, hopen]
  dsimp only
  rw [hgo, Reader.sequence_eq, hnone]
  dsimp only
  rw [hclose]

/-- A row that is not empty begins with no blank. -/
theorem Sequence.not_blank {cs rest : List Char} {ss : List Selector} (h : Sequence cs ss rest) :
    (ss = [] ∧ cs = rest) ∨ ∀ c ∈ cs.head?, isBlank c = false := by
  induction h using @Sequence.rec (fun _ _ _ _ => True) with
  | front h =>
    cases h with
    | none => exact .inl ⟨rfl, rfl⟩
    | universal => exact .inr (by rintro _ ⟨⟩; rfl)
    | tag h => exact .inr h.not_blank
  | snoc h t ihs =>
    obtain ⟨-, rfl⟩ | hb := ihs
    · obtain ⟨c, ds, rfl, hc⟩ := t.head
      refine .inr ?_
      rintro _ ⟨⟩
      obtain rfl | rfl | rfl | rfl := hc <;> rfl
    · exact .inr hb
  | _ => trivial

/-- A formula that is read begins with no blank. -/
theorem formula_not_blank {cs : List Char} {r : Nth × List Char}
    (h : Reader.formula cs = .ok r) : ∀ c ∈ cs.head?, isBlank c = false := by
  intro c hc
  obtain ⟨ds, rfl⟩ := List.head?_eq_some_iff.1 hc
  refine Bool.eq_false_iff.2 fun hb => ?_
  obtain rfl | rfl | hn := isBlank_iff.1 hb
  · cases h
  · cases h
  · obtain rfl | rfl | rfl := isNewline_iff.1 hn <;> cases h

/-- **A derived argument is read**, whatever follows its parenthesis. -/
theorem argument_complete {ds es fs rest : List Char} {f : Nth} (hb : Blanks ds es)
    (hf : Formula es f fs) (hb' : Blanks fs (')' :: rest)) :
    Reader.argument ('(' :: ds) = .ok (f, rest) := by
  obtain ⟨mid, hform, hmid⟩ := hf.complete hb'
  have hes : Reader.blanks ds = es := blanks_complete hb (formula_not_blank hform)
  exact bind_eq_ok.2 ⟨ds, expect_eq_ok.2 rfl, bind_eq_ok.2 ⟨(f, mid), hes ▸ hform,
    bind_eq_ok.2 ⟨rest, expect_eq_ok.2 hmid, rfl⟩⟩⟩

/-- What it means that a simple selector is read. -/
def ReadsSimple (cs : List Char) (s : Selector) (rest : List Char) : Prop :=
  EndsName rest → ∀ outer read, Reader.sequence outer read cs =
    Reader.sequence outer (some (Reader.join read s)) rest

/-- …and that a sequence is: its front first, and then all that follows it. -/
def ReadsSequence (cs : List Char) (ss : List Selector) (rest : List Char) : Prop :=
  EndsFront rest → ∃ f mid, Reader.front cs = .ok (f, mid) ∧
    ∀ outer, Reader.sequence outer f mid = Reader.sequence outer (joined ss) rest

/-- **A derived sequence is read.**  The induction is on the derivation; inside a negation the stack
is one higher, which the statement leaves open. -/
theorem Sequence.complete {cs rest : List Char} {ss : List Selector} (h : Sequence cs ss rest) :
    ReadsSequence cs ss rest := by
  induction h using @Sequence.rec (fun cs s rest _ => ReadsSimple cs s rest) with
  | id h =>
    intro hr
    refine sequence_simple ?_
    simp only [Reader.next?, Reader.piece?, h.complete hr, Reader.mapRead_ok]
  | className h =>
    intro hr
    refine sequence_simple ?_
    simp only [Reader.next?, Reader.piece?, h.complete hr, Reader.mapRead_ok]
  | attr h =>
    intro hr
    refine sequence_simple ?_
    simp only [Reader.next?, Reader.piece?, h.complete, Reader.mapRead_ok]
  | plain h hs =>
    intro hr
    refine sequence_simple (congrArg some (bind_eq_ok.2 ⟨_, h.complete hr, ?_⟩))
    simp only [fold_eq_lowered, pseudoClass?_plain.2 hs]
    rfl
  | @counting cs name ds es fs rest _ _ f h hc hb hf hb' =>
    have hname := h.complete (.cons rfl (by decide))
    intro hr
    refine sequence_simple (congrArg some (bind_eq_ok.2 ⟨_, hname, ?_⟩))
    simp only [fold_eq_lowered, pseudoClass?_counting.2 hc]
    exact bind_eq_ok.2 ⟨_, argument_complete hb hf hb', rfl⟩
  | @negation cs name ds es fs rest ss h hn hb hs hne hb' ih =>
    have hname := h.complete (.cons rfl (by decide))
    have hes : Reader.blanks ds = es :=
      blanks_complete hb (hs.not_blank.resolve_left fun he => hne he.1)
    obtain ⟨f, mid, hf, hgo⟩ := ih (endsFront_of_closing hb')
    have hopen : Reader.pseudo cs = .ok (.opening f, mid) := by
      refine bind_eq_ok.2 ⟨_, hname, ?_⟩
      simp only [fold_eq_lowered, pseudoClass?_negation.2 hn]
      exact bind_eq_ok.2 ⟨ds, expect_eq_ok.2 rfl, bind_eq_ok.2 ⟨_, hes ▸ hf, rfl⟩⟩
    exact fun _ => sequence_negation (congrArg some hopen) hgo hne hb'
  | front h => exact fun hr => ⟨joined _, _, h.complete hr, fun _ => rfl⟩
  | snoc h t ihs iht =>
    intro hr
    obtain ⟨f, mid, hf, hgo⟩ := ihs t.endsFront
    refine ⟨f, mid, hf, fun outer => ?_⟩
    rw [hgo, iht hr.1, joined_snoc]

/-- What is derived of a whole text is read. -/
theorem selector_complete {cs : List Char} {s : Selector} (h : Derives cs s) :
    Reader.selector cs = .ok s := by
  obtain ⟨ss, hs, rfl⟩ := h
  obtain ⟨f, mid, hf, hgo⟩ := hs.complete ⟨.nil, by simp⟩
  refine bind_eq_ok.2 ⟨_, hf, (hgo []).trans ?_⟩
  rw [Reader.sequence_eq]
  exact congrArg _ (joined_getD ss)

end TreeSelectors.Grammar

namespace TreeSelectors.Selector

/-- Compiling reads the characters, and puts faults in terms of bytes. -/
theorem compile_eq_ok_iff_selector {text : String} {s : Selector} :
    compile text = .ok s ↔ Reader.selector text.toList = .ok s := by
  rw [compile]
  cases Reader.selector text.toList with
  | ok r => exact ⟨fun h => congrArg _ (Except.ok.inj h), fun h => congrArg _ (Except.ok.inj h)⟩
  | error fault => exact ⟨nofun, nofun⟩

/-- What compiles is derived… -/
theorem derives_of_compile {text : String} {s : Selector} (h : compile text = .ok s) :
    Grammar.Derives text.toList s :=
  Grammar.selector_sound (compile_eq_ok_iff_selector.1 h)

/-- …and what is derived compiles. -/
theorem compile_of_derives {text : String} {s : Selector} (h : Grammar.Derives text.toList s) :
    compile text = .ok s :=
  compile_eq_ok_iff_selector.2 (Grammar.selector_complete h)

/-- **A text compiles exactly if the grammar derives it**, and to the selector that it derives: the
grammar is unambiguous, and everything else is rejected. -/
theorem compile_eq_ok_iff_derives {text : String} {s : Selector} :
    compile text = .ok s ↔ Grammar.Derives text.toList s :=
  ⟨derives_of_compile, compile_of_derives⟩

/-- …as where capitals stand in a tag, a key and two pseudo-classes, escapes of either length give
a letter and a digit that no class begins with, and a string goes on with the next line; but not at
a surrogate. -/
theorem compile_eq_ok_iff_derives_escaped :
    let text := "DIV\\41 .\\31\r\n_é-9[ DATA-x ^=\"\\00006Fo\\\n O\"\t]" ++
      ":Nth-Last-CHILD( -2N + 10\n):NOT(*)"
    let s := inter (inter (inter (inter (tag "diva") (className "1_é-9"))
      (attr "data-x" (.compare .startsWith "oo O"))) (nthChild ⟨-2, 10⟩ true false))
      (negation universal)
    compile text = .ok s ∧ (∀ r, Grammar.Derives text.toList r ↔ r = s) ∧
      ∀ r, ¬Grammar.Derives "DIV\\D800".toList r := by
  intro text s
  have h : compile text = .ok s := by decide +kernel
  have hbad : compile "DIV\\D800" = .error ⟨"DIV\\D800", 3, .invalidEscape⟩ := by decide +kernel
  refine ⟨h, fun r => ?_, fun r hr => ?_⟩
  · rw [← compile_eq_ok_iff_derives, h]
    exact ⟨fun e => (Except.ok.inj e).symm, fun e => e ▸ rfl⟩
  · cases hbad.symm.trans (compile_eq_ok_iff_derives.2 hr)

end TreeSelectors.Selector
