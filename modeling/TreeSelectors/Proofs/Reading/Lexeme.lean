import Mathlib
import TreeSelectors.Proofs.Grammar
import TreeSelectors.Reader.Lexeme

/-!
# Proofs/Reading/Lexeme — escapes, names and strings are read as the grammar derives them

For each lexeme the reader is *sound*, that is, what it reads has a derivation, and *complete*: what
has a derivation is read, as far as nothing behind it goes on with the lexeme (`EndsName`).  Strings
and escapes need no such condition, since they carry their own end.
-/

namespace TreeSelectors.Grammar

open Text

/-! ## Runs

A run of characters with a property ends where the next character lacks it; `head?` has no member at
the end of the text. -/

theorem takeWhile_run {p : Char → Bool} {ds tail : List Char} (hd : ∀ d ∈ ds, p d)
    (ht : ∀ c ∈ tail.head?, p c = false) : (ds ++ tail).takeWhile p = ds := by
  rw [List.takeWhile_append_of_pos hd]
  cases tail with
  | nil => simp
  | cons c tail => simp [ht c rfl]

theorem dropWhile_run {p : Char → Bool} {ds tail : List Char} (hd : ∀ d ∈ ds, p d)
    (ht : ∀ c ∈ tail.head?, p c = false) : (ds ++ tail).dropWhile p = tail := by
  have h := List.takeWhile_append_dropWhile (p := p) (l := ds ++ tail)
  rw [takeWhile_run hd ht] at h
  exact List.append_cancel_left h

/-! ## Blanks -/

theorem blanks_sound (cs : List Char) : Blanks cs (Reader.blanks cs) :=
  ⟨cs.takeWhile isBlank, List.takeWhile_append_dropWhile.symm, fun _ => List.mem_takeWhile_imp⟩

theorem blanks_complete {cs ds : List Char} (h : Blanks cs ds)
    (hd : ∀ c ∈ ds.head?, isBlank c = false) : Reader.blanks cs = ds := by
  obtain ⟨ws, rfl, hw⟩ := h
  exact dropWhile_run hw hd

/-! ## Escapes -/

/-- The reader takes one blank off, a carriage return with its line feed, or nothing. -/
theorem dropSeparator_sound (cs : List Char) : Separator cs (Reader.dropSeparator cs) := by
  rw [Reader.dropSeparator.eq_def]
  split
  · exact .lineEnd .pair
  · exact .none (by simp)
  · next c cs hp =>
    split
    · next hc =>
      obtain rfl | rfl | hn := isBlank_iff.1 hc
      · exact .space
      · exact .tab
      · refine .lineEnd (.single hn ?_)
        rintro ⟨rfl, hr⟩
        obtain ⟨ds, rfl⟩ := List.head?_eq_some_iff.1 hr
        exact hp ds rfl rfl
    · next hc => exact .none (by simpa using hc)

theorem LineEnd.dropSeparator_eq {cs rest : List Char} (h : LineEnd cs rest) :
    Reader.dropSeparator cs = rest := by
  cases h with
  | pair => rfl
  | single hc hp =>
    rw [Reader.dropSeparator.eq_def]
    split
    · next he => exact absurd ⟨(List.cons.inj he).1, by rw [(List.cons.inj he).2]; rfl⟩ hp
    · next he => exact absurd he (List.cons_ne_nil _ _)
    · next he =>
      obtain ⟨rfl, rfl⟩ := List.cons.inj he
      exact if_pos (isBlank_iff.2 (.inr (.inr hc)))

/-- **What ends an escape is determined by the text**: the reader takes it off as it is derived. -/
theorem Separator.dropSeparator_eq {cs rest : List Char} (h : Separator cs rest) :
    Reader.dropSeparator cs = rest := by
  cases h with
  | lineEnd h => exact h.dropSeparator_eq
  | space => rfl
  | tab => rfl
  | none h =>
    rw [Reader.dropSeparator.eq_def]
    split
    · exact Bool.noConfusion (h _ rfl)
    · rfl
    · exact if_neg (by simpa using h _ rfl)

theorem moreDigits_append_drop (cs : List Char) :
    Reader.moreDigits cs ++ cs.drop (Reader.moreDigits cs).length = cs :=
  List.prefix_iff_eq_append.1 ((List.takeWhile_prefix _).trans (List.take_prefix 5 cs))

theorem length_moreDigits_le (cs : List Char) : (Reader.moreDigits cs).length ≤ 5 :=
  (List.takeWhile_sublist _).length_le.trans (List.length_take_le 5 cs)

/-- The digits are the only ones that a run of at most five can be. -/
theorem moreDigits_append {ds tail : List Char} (hd : ∀ d ∈ ds, isHexDigit d)
    (hlen : ds.length ≤ 5)
    (longest : ds.length = 5 ∨ ∀ d ∈ tail.head?, isHexDigit d = false) :
    Reader.moreDigits (ds ++ tail) = ds := by
  rw [Reader.moreDigits, List.take_append, List.take_of_length_le hlen]
  refine takeWhile_run hd fun c hc => ?_
  rw [List.head?_take] at hc
  split at hc
  · exact absurd hc (by simp)
  · next hl => exact longest.elim (fun h => absurd h (by omega)) fun h => h c hc

/-- A run in the first `k` characters is `k` long, or ends where the class does. -/
theorem longest_takeWhile_take (p : Char → Bool) (k : ℕ) (cs : List Char) :
    ((cs.take k).takeWhile p).length = k ∨
      ∀ d ∈ (cs.drop ((cs.take k).takeWhile p).length).head?, p d = false := by
  induction cs generalizing k with
  | nil => exact .inr (by simp)
  | cons c cs ih =>
    cases k with
    | zero => exact .inl (by simp)
    | succ k =>
      by_cases hc : p c
      · simpa [hc] using ih k
      · exact .inr (by simp [hc])

/-- The digits behind the first are five, or as many as there are. -/
theorem longest_moreDigits (cs : List Char) : (Reader.moreDigits cs).length = 5 ∨
    ∀ d ∈ (cs.drop (Reader.moreDigits cs).length).head?, isHexDigit d = false :=
  longest_takeWhile_take isHexDigit 5 cs

/-- A code point names a character unless it is U+0000, a surrogate or past the last one. -/
theorem scalar?_eq_some_iff {n : ℕ} {c : Char} :
    Reader.scalar? n = some c ↔ c.toNat = n ∧ c ≠ '\x00' := by
  have hz : c ≠ '\x00' ↔ c.toNat ≠ 0 := Char.toNat_inj.symm.not
  rw [Reader.scalar?, hz]
  constructor
  · intro h
    split at h
    · next hn =>
      obtain rfl := Option.some.inj h
      have hv : (Char.ofNat n).toNat = n := by rw [Char.ofNat, dif_pos hn.2]; rfl
      rw [hv]
      exact ⟨rfl, hn.1⟩
    · exact absurd h (by simp)
  · rintro ⟨rfl, hne⟩
    rw [if_pos ⟨hne, c.valid⟩, Char.ofNat_toNat]

/-- The character that an escape stands for is derived from it, with the text that is left. -/
theorem escaped_sound {d : Char} {ds : List Char} {c : Char} (hn : isNewline d = false)
    (h : Reader.escaped? d ds = some c) : Escape ('\\' :: d :: ds) c (Reader.escapeRest d ds) := by
  rw [Reader.escaped?] at h
  rw [Reader.escapeRest]
  split at h
  · next hd =>
    obtain ⟨hv, hc⟩ := scalar?_eq_some_iff.1 h
    have hlen := length_moreDigits_le ds
    have hcs : '\\' :: (d :: Reader.moreDigits ds) ++ ds.drop (Reader.moreDigits ds).length
        = '\\' :: d :: ds := by
      rw [List.cons_append, List.cons_append, moreDigits_append_drop]
    have hex : ∀ e ∈ d :: Reader.moreDigits ds, isHexDigit e :=
      List.forall_mem_cons.2 ⟨hd, fun _ => List.mem_takeWhile_imp⟩
    rw [if_pos hd, ← hcs]
    refine .code (List.cons_ne_nil _ _) (Nat.succ_le_succ hlen) hex ?_
      (hv.trans (hexValue_eq_number hex)) hc (dropSeparator_sound _)
    · exact (longest_moreDigits ds).imp_left fun hl => by rw [List.length_cons, hl]
  · next hd =>
    obtain rfl := Option.some.inj h
    rw [if_neg hd]
    exact .literal (by simpa using hd) hn

/-- Where no line ends, an escape is what its character is. -/
theorem escape_cons {d : Char} (hn : isNewline d = false) (ds : List Char) :
    Reader.escape ('\\' :: d :: ds) =
      match Reader.escaped? d ds with
      | some c => .ok (c, Reader.escapeRest d ds)
      | none => .error ⟨.invalidEscape, '\\' :: d :: ds⟩ :=
  if_neg (by simp [hn])

/-- **An escape that is read has a derivation.** -/
theorem escape_sound {cs rest : List Char} {c : Char}
    (h : Reader.escape ('\\' :: cs) = .ok (c, rest)) : Escape ('\\' :: cs) c rest := by
  cases cs with
  | nil => cases h
  | cons d ds =>
    cases hn : isNewline d with
    | true =>
      rw [Reader.escape, List.tail_cons] at h
      simp [hn] at h
    | false =>
      rw [escape_cons hn] at h
      split at h <;> cases h
      next he => exact escaped_sound hn he

/-- **A derived escape is read**, and it does not stand at a line end. -/
theorem Escape.complete {cs rest : List Char} {c : Char} (h : Escape cs c rest) :
    ∃ d ds, cs = '\\' :: d :: ds ∧ isNewline d = false ∧
      Reader.escape cs = .ok (c, rest) := by
  cases h with
  | @code ds tail _ _ hne hlen hex longest value hc hs =>
    obtain ⟨d, ds, rfl⟩ := List.exists_cons_of_ne_nil hne
    have hd : isHexDigit d := hex d List.mem_cons_self
    have hm : Reader.moreDigits (ds ++ tail) = ds := by
      refine moreDigits_append (fun e he => hex e (List.mem_cons_of_mem _ he)) ?_ ?_
      · exact Nat.le_of_succ_le_succ hlen
      · exact longest.imp_left fun hl => by simpa using hl
    have hn := isNewline_of_isHexDigit hd
    have hvalue : Reader.escaped? d (ds ++ tail) = some c := by
      rw [Reader.escaped?, if_pos hd, hm]
      exact scalar?_eq_some_iff.2 ⟨value.trans (hexValue_eq_number hex).symm, hc⟩
    have hrest : Reader.escapeRest d (ds ++ tail) = rest := by
      rw [Reader.escapeRest, if_pos hd, hm, List.drop_left]
      exact hs.dropSeparator_eq
    refine ⟨d, ds ++ tail, rfl, hn, ?_⟩
    rw [List.cons_append, List.cons_append, escape_cons hn, hvalue, hrest]
  | literal hex hn =>
    have hd : ¬isHexDigit c := by simpa using hex
    refine ⟨c, rest, rfl, hn, ?_⟩
    rw [escape_cons hn, Reader.escaped?, if_neg hd, Reader.escapeRest, if_neg hd]

/-! ## Names

`NameItems` may stop anywhere, the reader only where no name goes on; the two agree where the text
that is left cannot go on with a name. -/

/-- No name goes on at `cs`. -/
def EndsName (cs : List Char) : Prop :=
  ∀ c ∈ cs.head?, isNameChar c = false ∧ c ≠ '\\'

theorem EndsName.nil : EndsName [] := fun _ h => absurd h (by simp)

theorem EndsName.cons {c : Char} {cs : List Char} (hc : isNameChar c = false) (hb : c ≠ '\\') :
    EndsName (c :: cs) := by
  rintro _ ⟨⟩
  exact ⟨hc, hb⟩

/-- Blanks end a name, and so does what follows them if it does so itself. -/
theorem Blanks.endsName {cs ds : List Char} (h : Blanks cs ds) (hd : EndsName ds) :
    EndsName cs := by
  obtain ⟨ws, rfl, hw⟩ := h
  cases ws with
  | nil => exact hd
  | cons w ws =>
    have hblank : isBlank w := hw w List.mem_cons_self
    have hn : ¬isNameChar w := fun hn => by
      rw [isBlank_of_isNameChar hn] at hblank
      cases hblank
    exact .cons (Bool.eq_false_iff.2 hn) (ne_of_class hblank rfl)

theorem push_eq_ok {c : Char} {r : Except Fault (List Char × List Char)}
    {name rest : List Char} :
    Reader.push c r = .ok (name, rest) ↔ ∃ more, r = .ok (more, rest) ∧ c :: more = name :=
  Reader.mapRead_eq_ok

theorem nameRun_char {c : Char} {cs : List Char} (hc : isNameChar c) :
    Reader.nameRun (c :: cs) = Reader.push c (Reader.nameRun cs) := by
  rw [Reader.nameRun_cons]
  exact if_pos hc

theorem nameRun_escape {cs ds : List Char} {c : Char} (h : Escape cs c ds) :
    Reader.nameRun cs = Reader.push c (Reader.nameRun ds) := by
  obtain ⟨d, es, rfl, hn, he⟩ := h.complete
  have hb : ¬isNameChar '\\' := by decide
  have hesc : Reader.escapes (d :: es) := by simp [Reader.escapes, hn]
  rw [Reader.nameRun_cons, if_neg hb, if_pos ⟨rfl, hesc⟩, he]
  rfl

/-- Each item of a name gives one character. -/
theorem nameRun_item {cs ds : List Char} {c : Char} (h : NameItem cs c ds) :
    Reader.nameRun cs = Reader.push c (Reader.nameRun ds) := by
  cases h with
  | char hc => exact nameRun_char hc
  | escape h => exact nameRun_escape h

/-- No name goes on at `cs`, as its reader sees it: a backslash that begins no escape stops a name
too. -/
def StopsName (cs : List Char) : Prop :=
  Reader.nameRun cs = .ok ([], cs)

/-- Where no name goes on by its first character, the reader stops too. -/
theorem EndsName.stopsName {cs : List Char} (h : EndsName cs) : StopsName cs := by
  rw [StopsName]
  cases cs with
  | nil => rw [Reader.nameRun]
  | cons c cs =>
    obtain ⟨hc, hb⟩ := h c rfl
    rw [Reader.nameRun_cons]
    simp only [hc, hb, Bool.false_eq_true, false_and, if_false]

/-- **A run of name characters has a derivation.** -/
theorem nameRun_sound {cs name rest : List Char} (h : Reader.nameRun cs = .ok (name, rest)) :
    NameItems cs name rest := by
  fun_induction Reader.nameRun cs generalizing name with
  | case1 => cases h; exact .nil
  | case2 c cs hc ih =>
    obtain ⟨more, hm, rfl⟩ := push_eq_ok.1 h
    exact .cons (.char hc) (ih hm)
  | case3 c cs _ hb x ds hx ih =>
    obtain ⟨rfl, -⟩ := hb
    obtain ⟨more, hm, rfl⟩ := push_eq_ok.1 h
    exact .cons (.escape (escape_sound hx)) (ih hm)
  | case4 => cases h
  | case5 => cases h; exact .nil

/-- **A derived run is read to its end**, if no name goes on there. -/
theorem NameItems.complete {cs name rest : List Char} (h : NameItems cs name rest)
    (hr : StopsName rest) : Reader.nameRun cs = .ok (name, rest) := by
  induction h with
  | nil => exact hr
  | cons h _ ih => rw [nameRun_item h, ih hr]; rfl

theorem name_sound {cs rest : List Char} {s : String} (h : Reader.name cs = .ok (s, rest)) :
    ∃ name, Name cs name rest ∧ s = String.ofList name := by
  rw [Reader.name] at h
  split at h
  · cases h
  · next name _ hne hr =>
    cases h
    exact ⟨name, ⟨nameRun_sound hr, hne⟩, rfl⟩
  · cases h

/-- A name that begins with a character as it is. -/
theorem name_char_sound {c : Char} {cs rest : List Char} {s : String} (hc : isNameChar c)
    (h : Reader.name (c :: cs) = .ok (s, rest)) :
    ∃ word, NameItems cs word rest ∧ s = String.ofList (c :: word) := by
  rw [Reader.name, nameRun_char hc] at h
  split at h
  · cases h
  · next hr =>
    obtain ⟨word, hw, rfl⟩ := push_eq_ok.1 hr
    cases h
    exact ⟨word, nameRun_sound hw, rfl⟩
  · cases h

theorem Name.complete {cs name rest : List Char} (h : Name cs name rest) (hr : EndsName rest) :
    Reader.name cs = .ok (String.ofList name, rest) := by
  obtain ⟨c, more, hm⟩ := List.exists_cons_of_ne_nil h.2
  rw [Reader.name, h.1.complete hr.stopsName, hm]

/-! ## Identifiers -/

theorem NameStart.item {cs rest : List Char} {c : Char} (h : NameStart cs c rest) :
    NameItem cs c rest := by
  cases h with
  | char hc => exact .char (by simp [isNameChar, hc])
  | escape h => exact .escape h

/-- An identifier is one run of name characters, its dash included. -/
theorem Identifier.items {cs name rest : List Char} (h : Identifier cs name rest) :
    NameItems cs name rest := by
  cases h with
  | plain h t => exact .cons h.item t
  | dash h t => exact .cons (.char rfl) (.cons h.item t)

/-- What a name begins with: a name character that can lead, or a backslash with more behind it. -/
theorem NameStart.startsName {cs rest : List Char} {c : Char} (h : NameStart cs c rest) :
    Reader.startsName cs := by
  cases h with
  | char hc =>
    have hb : c ≠ '\\' := ne_of_class hc rfl
    rw [Reader.startsName, if_neg hb, hc]
  | escape h =>
    obtain ⟨d, ds, rfl, hn, -⟩ := h.complete
    rw [Reader.startsName, if_pos rfl, Reader.escapes, hn]
    rfl

/-- …which is no dash, so the dash of an identifier is not mistaken for its first character. -/
theorem NameStart.ne_dash {cs rest : List Char} {c : Char} (h : NameStart cs c rest)
    (ds : List Char) : cs ≠ '-' :: ds := by
  rintro rfl
  exact absurd h.startsName (by simp [Reader.startsName, isNameStart])

/-- An identifier is seen where it begins, behind a dash or not. -/
theorem Identifier.startsIdentifier {cs name rest : List Char} (h : Identifier cs name rest) :
    Reader.startsIdentifier cs := by
  cases h with
  | plain h _ =>
    rw [Reader.startsIdentifier.eq_def]
    split
    · exact absurd rfl (h.ne_dash _)
    · exact h.startsName
  | dash h _ => exact h.startsName

/-- A derived identifier is read to where its name stops. -/
theorem Identifier.read {cs name rest : List Char} (h : Identifier cs name rest)
    (hr : StopsName rest) : Reader.identifier cs = .ok (String.ofList name, rest) := by
  rw [Reader.identifier, if_pos h.startsIdentifier, h.items.complete hr]
  rfl

/-- **A derived identifier is read**, if no name goes on behind it. -/
theorem Identifier.complete {cs name rest : List Char} (h : Identifier cs name rest)
    (hr : EndsName rest) : Reader.identifier cs = .ok (String.ofList name, rest) :=
  h.read hr.stopsName

/-- **Where a name begins, the run begins with it.** -/
theorem nameRun_starts_sound {cs name rest : List Char} (hs : Reader.startsName cs)
    (h : Reader.nameRun cs = .ok (name, rest)) : ∃ c more ds, NameStart cs c ds ∧
      NameItems ds more rest ∧ name = c :: more := by
  cases cs with
  | nil => exact absurd hs (by simp [Reader.startsName])
  | cons c cs =>
    rw [Reader.startsName] at hs
    split at hs
    · next hb =>
      subst hb
      have hb : ¬isNameChar '\\' := by decide
      rw [Reader.nameRun_cons, if_neg hb, if_pos ⟨rfl, hs⟩] at h
      cases hx : Reader.escape ('\\' :: cs) with
      | error =>
        rw [hx] at h
        cases h
      | ok p =>
        rw [hx] at h
        obtain ⟨more, hm, rfl⟩ := push_eq_ok.1 h
        exact ⟨p.1, more, p.2, .escape (escape_sound hx), nameRun_sound hm, rfl⟩
    · have hc : isNameChar c := by simp [isNameChar, hs]
      rw [nameRun_char hc] at h
      obtain ⟨more, hm, rfl⟩ := push_eq_ok.1 h
      exact ⟨c, more, cs, .char hs, nameRun_sound hm, rfl⟩

/-- **An identifier that is read has a derivation.** -/
theorem identifier_sound {cs rest : List Char} {s : String}
    (h : Reader.identifier cs = .ok (s, rest)) :
    ∃ name, Identifier cs name rest ∧ s = String.ofList name := by
  rw [Reader.identifier] at h
  split at h
  · next hs =>
    obtain ⟨name, hr, rfl⟩ := Reader.mapRead_eq_ok.1 h
    refine ⟨name, ?_, rfl⟩
    rw [Reader.startsIdentifier.eq_def] at hs
    split at hs
    · rw [nameRun_char rfl] at hr
      obtain ⟨more, hm, rfl⟩ := push_eq_ok.1 hr
      obtain ⟨c, more, ds, hc, ht, rfl⟩ := nameRun_starts_sound hs hm
      exact .dash hc ht
    · obtain ⟨c, more, ds, hc, ht, rfl⟩ := nameRun_starts_sound hs hr
      exact .plain hc ht
  · cases h

/-! ## Strings and values -/

/-- A quote can open a string; it is neither a backslash nor a line end. -/
theorem isQuote_iff {q : Char} : Reader.isQuote q ↔ q = '"' ∨ q = '\x27' := by
  simp [Reader.isQuote]

/-- A backslash at a line end takes that line end along and gives no character. -/
theorem stringBody_continuation {q : Char} {start cs ds : List Char} (hq : Reader.isQuote q)
    (h : LineEnd cs ds) :
    Reader.stringBody q start ('\\' :: cs) = Reader.stringBody q start ds := by
  have hb : '\\' ≠ q := (ne_of_class hq rfl).symm
  rw [Reader.stringBody.eq_def]
  simp only [hb, if_false, if_true]
  cases h with
  | pair => rfl
  | single hc hp =>
    split
    · next he => exact absurd he (List.cons_ne_nil _ _)
    · next he => exact absurd ⟨(List.cons.inj he).1, by rw [(List.cons.inj he).2]; rfl⟩ hp
    · next he =>
      obtain ⟨rfl, rfl⟩ := List.cons.inj he
      exact if_pos hc

/-- An escape in a string gives the character that it stands for. -/
theorem stringBody_escape {q c : Char} {start cs ds : List Char} (hq : Reader.isQuote q)
    (h : Escape cs c ds) :
    Reader.stringBody q start cs = Reader.push c (Reader.stringBody q start ds) := by
  obtain ⟨d, es, rfl, hn, he⟩ := h.complete
  have hb : '\\' ≠ q := (ne_of_class hq rfl).symm
  rw [Reader.stringBody.eq_def]
  simp only [hb, if_false, if_true]
  split
  · next hd => exact absurd hd (List.cons_ne_nil _ _)
  · next hd =>
    obtain ⟨rfl, rfl⟩ := List.cons.inj hd
    cases hn
  · next hd =>
    obtain ⟨rfl, rfl⟩ := List.cons.inj hd
    rw [if_neg (by simp [hn])]
    split
    · next h' =>
      rw [he] at h'
      cases h'
      rfl
    · next h' =>
      rw [he] at h'
      cases h'

/-- **A derived string is read to its quote.** -/
theorem StringBody.complete {q : Char} {cs value rest : List Char} (start : List Char)
    (h : StringBody q cs value rest) (hq : Reader.isQuote q) :
    Reader.stringBody q start cs = .ok (value, rest) := by
  induction h with
  | close => rw [Reader.stringBody.eq_def]; exact if_pos rfl
  | char hc hb hn _ ih =>
    rw [Reader.stringBody.eq_def]
    simp only [hc, hb, hn, Bool.false_eq_true, if_false]
    rw [ih]
    rfl
  | continuation h _ ih => rw [stringBody_continuation hq h, ih]
  | escape h _ ih => rw [stringBody_escape hq h, ih]; rfl

/-- **A string that is read has a derivation.** -/
theorem stringBody_sound {q : Char} {start cs value rest : List Char}
    (h : Reader.stringBody q start cs = .ok (value, rest)) : StringBody q cs value rest := by
  fun_induction Reader.stringBody q start cs generalizing value with
  | case1 => cases h
  | case2 => cases h; exact .close
  | case3 => cases h
  | case4 _ ds ih => exact .continuation .pair (ih h)
  | case5 d ds hp hn _ ih =>
    refine .continuation (.single hn ?_) (ih h)
    rintro ⟨rfl, hr⟩
    obtain ⟨es, rfl⟩ := List.head?_eq_some_iff.1 hr
    exact hp es rfl rfl
  | case6 _ d ds _ _ x es hx ih =>
    obtain ⟨more, hm, rfl⟩ := push_eq_ok.1 h
    exact .escape (escape_sound hx) (ih hm)
  | case7 => cases h
  | case8 => cases h
  | case9 c ds hq hb hn ih =>
    obtain ⟨more, hm, rfl⟩ := push_eq_ok.1 h
    exact .char hq hb (by simpa using hn) (ih hm)

/-- A value that is read is a string or an identifier, by the character that it begins with. -/
theorem attributeValue_sound {cs rest : List Char} {s : String}
    (h : Reader.attributeValue cs = .ok (s, rest)) :
    ∃ value, Value cs value rest ∧ s = String.ofList value := by
  rw [Reader.attributeValue.eq_def] at h
  split at h
  · cases h
  · split at h
    · next hq =>
      obtain ⟨value, hv, rfl⟩ := Reader.mapRead_eq_ok.1 h
      exact ⟨value, .string (isQuote_iff.1 hq) (stringBody_sound hv), rfl⟩
    · split at h
      · obtain ⟨name, hn, rfl⟩ := identifier_sound h
        exact ⟨name, .identifier hn, rfl⟩
      · cases h

/-- What begins an identifier opens no string. -/
theorem isQuote_of_startsIdentifier {c : Char} {cs : List Char}
    (h : Reader.startsIdentifier (c :: cs)) : Reader.isQuote c = false := by
  refine Bool.eq_false_iff.2 fun hq => ?_
  obtain rfl | rfl := isQuote_iff.1 hq <;> cases h

theorem Value.complete {cs value rest : List Char} (h : Value cs value rest)
    (hr : EndsName rest) : Reader.attributeValue cs = .ok (String.ofList value, rest) := by
  cases h with
  | string hq h =>
    rw [Reader.attributeValue, if_pos (isQuote_iff.2 hq), Reader.string,
      h.complete _ (isQuote_iff.2 hq)]
    rfl
  | identifier h =>
    have hs := h.startsIdentifier
    cases cs with
    | nil => cases hs
    | cons c cs =>
      have hc := isQuote_of_startsIdentifier hs
      rw [Reader.attributeValue, hc, if_neg Bool.false_ne_true, if_pos hs]
      exact h.complete hr

end TreeSelectors.Grammar
