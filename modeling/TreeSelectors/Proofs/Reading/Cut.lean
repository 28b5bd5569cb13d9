import Mathlib
import TreeSelectors.Proofs.Reading.Place

/-!
# Proofs/Reading/Cut — no reader looks beyond where the text is cut

What is taken off the front of a text is taken as well where the text behind it is cut short
(`TakesAlike`).  A cut may remove what a decision looked at, but never turns it: where a longer text
does not go on, neither does a shorter one.  So every production, and with it every reader that
succeeds, allows a cut anywhere in what it leaves, and right in front of it too (`Local`).
-/

namespace TreeSelectors.Grammar

open Text

variable {cs ds rest rest' : List Char}

/-! ## What is taken off the front -/

/-- `P` takes the same off `cs` where less of `rest` follows. -/
def TakesAlike (P : List Char → List Char → Prop) (cs rest : List Char) : Prop :=
  ∃ w, cs = w ++ rest ∧ ∀ rest', rest' <+: rest → P (w ++ rest') rest'

namespace TakesAlike

variable {P Q : List Char → List Char → Prop}

theorem nothing (h : ∀ rest', rest' <+: rest → P rest' rest') : TakesAlike P rest rest :=
  ⟨[], rfl, h⟩

/-- A text of its own is taken whatever follows. -/
theorem of_append {w : List Char} (h : ∀ rest, P (w ++ rest) rest) :
    TakesAlike P (w ++ rest) rest :=
  ⟨w, rfl, fun rest' _ => h rest'⟩

/-- What one rule takes another takes that follows from it. -/
theorem mono (h : TakesAlike P cs rest) (hPQ : ∀ cs rest, P cs rest → Q cs rest) :
    TakesAlike Q cs rest := by
  obtain ⟨w, hw, hcut⟩ := h
  exact ⟨w, hw, fun rest' hr => hPQ _ _ (hcut rest' hr)⟩

/-- One after the other. -/
theorem comp (h : TakesAlike P cs ds) (h' : TakesAlike Q ds rest) :
    TakesAlike (fun cs rest => ∃ ds, P cs ds ∧ Q ds rest) cs rest := by
  obtain ⟨v, rfl, hv⟩ := h
  obtain ⟨w, rfl, hw⟩ := h'
  refine ⟨v ++ w, (List.append_assoc v w rest).symm, fun rest' hr => ⟨w ++ rest', ?_, hw _ hr⟩⟩
  rw [List.append_assoc]
  exact hv _ ((List.prefix_append_right_inj w).2 hr)

theorem cons {c : Char} (h : TakesAlike P cs rest)
    (hPQ : ∀ cs rest, P cs rest → Q (c :: cs) rest) : TakesAlike Q (c :: cs) rest := by
  obtain ⟨w, rfl, hcut⟩ := h
  exact ⟨c :: w, rfl, fun rest' hr => hPQ _ _ (hcut rest' hr)⟩

/-- What holds of every shorter text holds where the text is cut. -/
theorem and_of_shorter {A : List Char → Prop} (hA : ∀ cs', cs' <+: cs → A cs')
    (h : TakesAlike P cs rest) : TakesAlike (fun cs rest => A cs ∧ P cs rest) cs rest := by
  obtain ⟨w, rfl, hcut⟩ := h
  exact ⟨w, rfl, fun rest' hr => ⟨hA _ ((List.prefix_append_right_inj w).2 hr), hcut _ hr⟩⟩

end TakesAlike

/-- What a shorter text begins with, the longer one does. -/
theorem mem_head?_of_shorter (h : rest' <+: rest) {c : Char} (hc : c ∈ rest'.head?) :
    c ∈ rest.head? := by
  obtain ⟨t, rfl⟩ := h
  obtain ⟨ds, rfl⟩ := List.head?_eq_some_iff.1 hc
  rfl

/-! ## Lexemes -/

/-- Blanks end anywhere, so they do not look at what follows. -/
theorem Blanks.takesAlike (h : Blanks cs rest) : TakesAlike Blanks cs rest := by
  obtain ⟨ws, rfl, hw⟩ := h
  exact .of_append fun _ => ⟨ws, rfl, hw⟩

/-- Blanks up to a character that is taken along. -/
theorem Blanks.takesAlike_cons {c : Char} (h : Blanks cs (c :: rest)) :
    TakesAlike (fun cs rest => Blanks cs (c :: rest)) cs rest := by
  obtain ⟨ws, rfl, hw⟩ := h
  rw [List.append_cons]
  exact .of_append fun rest => ⟨ws, by simp, hw⟩

/-- A carriage return that took no line feed along finds none in a shorter text either. -/
theorem LineEnd.takesAlike (h : LineEnd cs rest) : TakesAlike LineEnd cs rest := by
  cases h with
  | pair => exact .of_append (w := ['\r', '\n']) fun _ => .pair
  | @single c _ hc hp =>
    exact ⟨[c], rfl, fun _ hr => .single hc fun hn => hp ⟨hn.1, mem_head?_of_shorter hr hn.2⟩⟩

/-- Where no blank ended the digits, none does in a shorter text. -/
theorem Separator.takesAlike (h : Separator cs rest) : TakesAlike Separator cs rest := by
  cases h with
  | lineEnd h => exact h.takesAlike.mono fun _ _ => .lineEnd
  | space => exact .of_append (w := [' ']) fun _ => .space
  | tab => exact .of_append (w := ['\t']) fun _ => .tab
  | none h => exact .nothing fun _ hr => .none fun c hc => h c (mem_head?_of_shorter hr hc)

/-- **The longest run of digits stays the longest** where less follows. -/
theorem Escape.takesAlike {c : Char} (h : Escape cs c rest) :
    TakesAlike (Escape · c) cs rest := by
  cases h with
  | @code ds tail _ _ hne hlen hex longest value hc hs =>
    obtain ⟨w, rfl, hcut⟩ := hs.takesAlike
    refine ⟨'\\' :: ds ++ w, (List.append_assoc _ _ _).symm, fun rest' hr => ?_⟩
    rw [List.append_assoc]
    refine .code hne hlen hex ?_ value hc (hcut rest' hr)
    have hpre : w ++ rest' <+: w ++ rest := (List.prefix_append_right_inj w).2 hr
    exact longest.imp_right fun h d hd => h d (mem_head?_of_shorter hpre hd)
  | literal hex hn => exact .of_append (w := ['\\', c]) fun _ => .literal hex hn

/-- A name that begins does so however short the text behind it is. -/
theorem NameStart.takesAlike {c : Char} (h : NameStart cs c rest) :
    TakesAlike (NameStart · c) cs rest := by
  cases h with
  | char hc => exact .of_append (w := [c]) fun _ => .char hc
  | escape h => exact h.takesAlike.mono fun _ _ => .escape

theorem NameItem.takesAlike {c : Char} (h : NameItem cs c rest) :
    TakesAlike (NameItem · c) cs rest := by
  cases h with
  | char hc => exact .of_append (w := [c]) fun _ => .char hc
  | escape h => exact h.takesAlike.mono fun _ _ => .escape

/-- **A run of name characters is a run where less follows**, item by item. -/
theorem NameItems.takesAlike {name : List Char} (h : NameItems cs name rest) :
    TakesAlike (NameItems · name) cs rest := by
  induction h with
  | nil => exact .nothing fun _ _ => .nil
  | cons h _ ih => exact (h.takesAlike.comp ih).mono fun _ _ ⟨_, h, t⟩ => .cons h t

theorem Identifier.takesAlike {name : List Char} (h : Identifier cs name rest) :
    TakesAlike (Identifier · name) cs rest := by
  cases h with
  | plain h t => exact (h.takesAlike.comp t.takesAlike).mono fun _ _ ⟨_, h, t⟩ => .plain h t
  | dash h t => exact (h.takesAlike.comp t.takesAlike).cons fun _ _ ⟨_, h, t⟩ => .dash h t

/-- A string carries its end. -/
theorem StringBody.takesAlike {q : Char} {value : List Char} (h : StringBody q cs value rest) :
    TakesAlike (StringBody q · value) cs rest := by
  induction h with
  | close => exact .of_append (w := [q]) fun _ => .close
  | char hq hb hn _ ih => exact ih.cons fun _ _ => .char hq hb hn
  | continuation h _ ih =>
    exact (h.takesAlike.comp ih).cons fun _ _ ⟨_, h, t⟩ => .continuation h t
  | escape h _ ih => exact (h.takesAlike.comp ih).mono fun _ _ ⟨_, h, t⟩ => .escape h t

/-! ## Attributes -/

theorem Value.takesAlike {value : List Char} (h : Value cs value rest) :
    TakesAlike (Value · value) cs rest := by
  cases h with
  | string hq h => exact h.takesAlike.cons fun _ _ => .string hq
  | identifier h => exact h.takesAlike.mono fun _ _ => .identifier

theorem Test.takesAlike {test : AttributeTest} (h : Test cs test rest) :
    TakesAlike (Test · test) cs rest := by
  cases h with
  | present => exact .of_append (w := [']']) fun _ => .present
  | @compare how ds _ _ _ _ hb hv hc =>
    have hsign : TakesAlike (fun cs ds => cs = how.text ++ ds) (how.text ++ ds) ds :=
      .of_append fun _ => rfl
    refine (hsign.comp (hb.takesAlike.comp (hv.takesAlike.comp hc.takesAlike_cons))).mono ?_
    rintro _ _ ⟨_, rfl, _, hb, _, hv, hc⟩
    exact .compare hb hv hc

/-- **An attribute selector is one where less follows.** -/
theorem AttributeSelector.takesAlike {s : Selector} (h : AttributeSelector cs s rest) :
    TakesAlike (AttributeSelector · s) cs rest := by
  cases h with
  | mk hb hk hb' ht =>
    refine (hb.takesAlike.comp (hk.takesAlike.comp (hb'.takesAlike.comp ht.takesAlike))).mono ?_
    rintro _ _ ⟨_, hb, _, hk, _, hb', ht⟩
    exact .mk hb hk hb' ht

/-! ## Formulas -/

theorem Sign.takesAlike {negative : Bool} (h : Sign cs negative rest) :
    TakesAlike (Sign · negative) cs rest := by
  cases h with
  | plus => exact .of_append (w := ['+']) fun _ => .plus
  | minus => exact .of_append (w := ['-']) fun _ => .minus

theorem OptionalSign.takesAlike {negative : Bool} (h : OptionalSign cs negative rest) :
    TakesAlike (OptionalSign · negative) cs rest := by
  cases h with
  | none => exact .nothing fun _ _ => .none
  | some h => exact h.takesAlike.mono fun _ _ => .some

/-- The rule does not ask for the longest run of digits, so a cut does not matter to it. -/
theorem Integer.takesAlike {negative : Bool} {i : Int32} (h : Integer negative cs i rest) :
    TakesAlike (Integer negative · i) cs rest := by
  obtain ⟨hne, hd, value⟩ := h
  exact .of_append fun _ => .mk hne hd value

theorem Counter.takesAlike (h : Counter cs rest) : TakesAlike Counter cs rest := by
  cases h with
  | lower => exact .of_append (w := ['n']) fun _ => .lower
  | upper => exact .of_append (w := ['N']) fun _ => .upper

theorem Step.takesAlike {negative : Bool} {a : Int32} (h : Step negative cs a rest) :
    TakesAlike (Step negative · a) cs rest := by
  cases h with
  | bare h => exact h.takesAlike.mono fun _ _ => .bare
  | coefficient hi h =>
    exact (hi.takesAlike.comp h.takesAlike).mono fun _ _ ⟨_, hi, h⟩ => .coefficient hi h

/-- A second integer may be missing; the rule does not look for one. -/
theorem Offset.takesAlike {b : Int32} (h : Offset cs b rest) :
    TakesAlike (Offset · b) cs rest := by
  cases h with
  | none => exact .nothing fun _ _ => .none
  | some hb hs hb' hi =>
    refine (hb.takesAlike.comp (hs.takesAlike.comp (hb'.takesAlike.comp hi.takesAlike))).mono ?_
    rintro _ _ ⟨_, hb, _, hs, _, hb', hi⟩
    exact .some hb hs hb' hi

/-- **A formula is one where less follows**, a word of its own included. -/
theorem Formula.takesAlike {f : Nth} (h : Formula cs f rest) :
    TakesAlike (Formula · f) cs rest := by
  cases h with
  | odd h hw => exact h.takesAlike.cons fun _ _ h => .odd h hw
  | even h hw => exact h.takesAlike.cons fun _ _ h => .even h hw
  | constant hs hi =>
    exact (hs.takesAlike.comp hi.takesAlike).mono fun _ _ ⟨_, hs, hi⟩ => .constant hs hi
  | counting hs ha hb =>
    refine (hs.takesAlike.comp (ha.takesAlike.comp hb.takesAlike)).mono ?_
    rintro _ _ ⟨_, hs, _, ha, hb⟩
    exact .counting hs ha hb

/-! ## Where a name stops

A reader of names stops at more than `EndsName` allows for: a backslash may follow that begins no
escape.  What stops a name does so as well where less follows. -/

/-- An escape that begins in a shorter text begins in the longer one. -/
theorem escapes_of_shorter (h : rest' <+: rest) (he : Reader.escapes rest') :
    Reader.escapes rest := by
  obtain ⟨t, rfl⟩ := h
  cases rest' with
  | nil => cases he
  | cons => exact he

/-- …and so does a name. -/
theorem startsName_of_shorter (h : rest' <+: rest) (hs : Reader.startsName rest') :
    Reader.startsName rest := by
  obtain ⟨t, rfl⟩ := h
  cases rest' with
  | nil => cases hs
  | cons c ds =>
    rw [List.cons_append, Reader.startsName]
    rw [Reader.startsName] at hs
    split
    · next hc =>
      rw [if_pos hc] at hs
      exact escapes_of_shorter (List.prefix_append ds t) hs
    · next hc => rwa [if_neg hc] at hs

/-- Without a dash in front an identifier begins as a name does. -/
theorem startsIdentifier_of_ne_dash {c : Char} (hc : c ≠ '-') (cs : List Char) :
    Reader.startsIdentifier (c :: cs) = Reader.startsName (c :: cs) := by
  rw [Reader.startsIdentifier.eq_def]
  split
  · next h => exact absurd (List.cons.inj h).1 hc
  · rfl

/-- **Where no identifier begins, none does in a shorter text.** -/
theorem startsIdentifier_of_shorter (h : rest' <+: rest) (hs : Reader.startsIdentifier rest') :
    Reader.startsIdentifier rest := by
  obtain ⟨t, rfl⟩ := h
  cases rest' with
  | nil => cases hs
  | cons c ds =>
    rw [List.cons_append]
    obtain rfl | hc := eq_or_ne c '-'
    · exact startsName_of_shorter (List.prefix_append ds t) hs
    · rw [startsIdentifier_of_ne_dash hc] at hs ⊢
      exact startsName_of_shorter (List.prefix_append (c :: ds) t) hs

/-- **Where a name stops it stops if the text is cut**: the cut may take the character away that it
stopped at, and the end of the text stops it too. -/
theorem StopsName.of_shorter (h : StopsName rest) (hp : rest' <+: rest) : StopsName rest' := by
  obtain ⟨t, rfl⟩ := hp
  cases rest' with
  | nil => exact EndsName.nil.stopsName
  | cons c ds =>
    rw [StopsName, List.cons_append, Reader.nameRun_cons] at h
    rw [StopsName, Reader.nameRun_cons]
    have hpush {x : Char} {r : Except Fault (List Char × List Char)} :
        Reader.push x r ≠ .ok ([], c :: (ds ++ t)) := fun h => by
      obtain ⟨_, -, he⟩ := push_eq_ok.1 h
      cases he
    split at h
    · exact absurd h hpush
    · next hc =>
      split at h
      · obtain ⟨_, -, h⟩ := bind_eq_ok.1 h
        exact absurd h hpush
      · next hb =>
        have hesc := escapes_of_shorter (List.prefix_append ds t)
        rw [if_neg hc, if_neg fun he => hb ⟨he.1, hesc he.2⟩]

/-- **A run is read to where the name stops.** -/
theorem nameRun_stops {name : List Char} (h : Reader.nameRun cs = .ok (name, rest)) :
    StopsName rest := by
  fun_induction Reader.nameRun cs generalizing name with
  | case1 => cases h; exact EndsName.nil.stopsName
  | case2 _ _ _ ih | case3 _ _ _ _ _ _ _ ih =>
    obtain ⟨_, hm, -⟩ := push_eq_ok.1 h
    exact ih hm
  | case4 => cases h
  | case5 c cs hc hb =>
    cases h
    rw [StopsName, Reader.nameRun_cons, if_neg hc, if_neg hb]

/-- An identifier is read to its end. -/
theorem identifier_stops {s : String} (h : Reader.identifier cs = .ok (s, rest)) :
    StopsName rest := by
  rw [Reader.identifier] at h
  split at h
  · obtain ⟨_, hr, -⟩ := Reader.mapRead_eq_ok.1 h
    exact nameRun_stops hr
  · cases h

end TreeSelectors.Grammar

namespace TreeSelectors.Reader

open Grammar Text

/-! ## Readers -/

/-- `r` reads the same where what it leaves is cut short. -/
def Local {α : Type} (r : List Char → Except Fault (α × List Char)) : Prop :=
  ∀ {cs a rest}, r cs = .ok (a, rest) → TakesAlike (fun cs rest => r cs = .ok (a, rest)) cs rest

/-- What is made of something read changes nothing of what is left. -/
theorem Local.mapRead {α β : Type} {r : List Char → Except Fault (α × List Char)} (hr : Local r)
    (f : α → β) : Local fun cs => mapRead f (r cs) := by
  intro cs b rest h
  obtain ⟨a, ha, rfl⟩ := mapRead_eq_ok.1 h
  exact (hr ha).mono fun _ _ h => mapRead_eq_ok.2 ⟨a, h, rfl⟩

/-- A run that is read stops where it stopped. -/
theorem nameRun_local : Local nameRun := by
  intro cs name rest h
  obtain ⟨w, rfl, hcut⟩ := (nameRun_sound h).takesAlike
  exact ⟨w, rfl, fun _ hr => (hcut _ hr).complete ((nameRun_stops h).of_shorter hr)⟩

/-- A name is a run that is not empty, and that run is the same. -/
theorem name_local : Local name := by
  intro cs s rest h
  rw [name] at h
  split at h
  · cases h
  · next hne hr =>
    cases h
    obtain ⟨c, more, rfl⟩ := List.exists_cons_of_ne_nil hne
    refine (nameRun_local hr).mono fun _ _ h => ?_
    rw [name, h]
  · cases h

theorem identifier_local : Local identifier := by
  intro cs s rest h
  obtain ⟨name, hn, rfl⟩ := identifier_sound h
  obtain ⟨w, rfl, hcut⟩ := hn.takesAlike
  exact ⟨w, rfl, fun _ hr => (hcut _ hr).read ((identifier_stops h).of_shorter hr)⟩

theorem attributeSelector_local : Local attributeSelector := fun h =>
  (attributeSelector_sound h).takesAlike.mono fun _ _ => AttributeSelector.complete

theorem argument_local : Local argument := by
  intro cs f rest h
  obtain ⟨ds, es, fs, rfl, hb, hf, hb'⟩ := argument_sound h
  refine (hb.takesAlike.comp (hf.takesAlike.comp hb'.takesAlike_cons)).cons ?_
  rintro _ _ ⟨_, hb, _, hf, hb'⟩
  exact argument_complete hb hf hb'

/-- A text that begins with no blank does not when it is cut. -/
theorem blanks_takesAlike (cs : List Char) :
    TakesAlike (fun cs ds => blanks cs = ds) cs (blanks cs) := by
  refine ⟨cs.takeWhile isBlank, List.takeWhile_append_dropWhile.symm, fun ds hd => ?_⟩
  exact dropWhile_run (fun _ => List.mem_takeWhile_imp) fun c hc =>
    forall_head?_dropWhile isBlank cs c (mem_head?_of_shorter hd hc)

/-- Where an identifier is read, it is the front. -/
theorem front_of_identifier {cs rest : List Char} {s : String}
    (h : identifier cs = .ok (s, rest)) : front cs = .ok (some (.ofTag s), rest) := by
  have hs : startsIdentifier cs := by
    obtain ⟨_, hn, -⟩ := identifier_sound h
    exact hn.startsIdentifier
  rw [front.eq_def]
  split
  · cases hs
  · rw [if_pos hs, h, mapRead_ok]

/-- Where no front begins, none does in a shorter text. -/
theorem front_local : Local front := by
  intro cs f rest h
  rw [front.eq_def] at h
  split at h
  · cases h
    exact .of_append (w := ['*']) fun _ => rfl
  · next hstar =>
    split at h
    · obtain ⟨s, hs, rfl⟩ := mapRead_eq_ok.1 h
      exact (identifier_local hs).mono fun _ _ => front_of_identifier
    · next hs =>
      cases h
      refine .nothing fun rest' hr => ?_
      rw [front.eq_def]
      split
      · next ds =>
        obtain ⟨t, rfl⟩ := hr
        exact absurd rfl (hstar (ds ++ t))
      · rw [if_neg fun he => hs (startsIdentifier_of_shorter hr he)]

/-- A pseudo-class of a name that there is. -/
theorem pseudo_local : Local pseudo := by
  intro cs p rest h
  obtain ⟨⟨name, ds⟩, hi, h⟩ := bind_eq_ok.1 h
  have hi := identifier_local hi
  dsimp only at h
  split at h
  · cases h
  · next hc =>
    cases h
    exact hi.mono fun _ _ hi => bind_eq_ok.2 ⟨_, hi, by simp only [hc]; rfl⟩
  · next hc =>
    obtain ⟨⟨f, es⟩, ha, h⟩ := bind_eq_ok.1 h
    cases h
    refine (hi.comp (argument_local ha)).mono fun _ _ ⟨_, hi, ha⟩ => bind_eq_ok.2 ⟨_, hi, ?_⟩
    simp only [hc]
    exact bind_eq_ok.2 ⟨_, ha, rfl⟩
  · next hc =>
    obtain ⟨es, he, h⟩ := bind_eq_ok.1 h
    obtain ⟨⟨f, fs⟩, hf, h⟩ := bind_eq_ok.1 h
    cases h
    obtain rfl := expect_eq_ok.1 he
    have harg := ((blanks_takesAlike es).comp (front_local hf)).cons
      (Q := fun cs rest => ∃ es, cs = '(' :: es ∧ front (blanks es) = .ok (f, rest))
      fun _ _ ⟨_, hb, hf⟩ => ⟨_, rfl, hb ▸ hf⟩
    refine (hi.comp harg).mono fun _ _ ⟨_, hi, es, he, hf⟩ => bind_eq_ok.2 ⟨_, hi, ?_⟩
    simp only [hc]
    exact bind_eq_ok.2 ⟨es, expect_eq_ok.2 he, bind_eq_ok.2 ⟨_, hf, rfl⟩⟩

/-- **A piece is read as it was where the text behind it is cut.** -/
theorem next?_local {cs rest : List Char} {p : Piece} (h : next? cs = some (.ok (p, rest))) :
    TakesAlike (fun cs rest => next? cs = some (.ok (p, rest))) cs rest := by
  cases cs with
  | nil => cases h
  | cons c cs =>
    rw [next?, piece?.eq_def] at h
    split at h
    · exact ((name_local.mapRead _) (Option.some.inj h)).cons fun _ _ => congrArg some
    · exact ((identifier_local.mapRead _) (Option.some.inj h)).cons fun _ _ => congrArg some
    · exact ((attributeSelector_local.mapRead _) (Option.some.inj h)).cons fun _ _ => congrArg some
    · exact (pseudo_local (Option.some.inj h)).cons fun _ _ => congrArg some
    · cases h

end TreeSelectors.Reader
