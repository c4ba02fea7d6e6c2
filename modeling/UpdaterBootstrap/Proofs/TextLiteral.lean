import UpdaterBootstrap.Proofs.TextPiece

/-!
# Which quoted texts are accepted

A text is made of pieces in one way only (`Fit.unique`). So the tokenizer accepts a quoted text
exactly by the grammar of its pieces, where a character number is four hexadecimal digits or a plus
sign and three (`readText_grammar`).
-/

namespace UpdaterBootstrap

def QuoteStyle.opened (q : Char) (cs : List Char) : QuoteStyle :=
  ⟨q, cs.take 2 == [q, q]⟩

namespace TextPiece

/-! ## The pieces of a text -/

section
variable {style : QuoteStyle} (hq : isQuote style.quote = true)
include hq

theorem Fits.not_marks {p : TextPiece} {next : List Char} (h : p.Fits IsNumber style next) :
    ¬ style.marks <+: p.chars ++ next := by
  have hback (cs : List Char) : ¬ style.marks <+: '\\' :: cs := by
    rw [← QuoteStyle.closes_iff]
    simp [QuoteStyle.closes, quote_ne_backslash hq]
  cases h with
  | plain _ hclose => exact hclose
  | escape => exact hback _
  | continuation => exact hback _
  | number => exact hback _

omit hq in
theorem Fits.unique {p p' : TextPiece} {next next' : List Char} (h : p.Fits IsNumber style next)
    (h' : p'.Fits IsNumber style next') (htext : p.chars ++ next = p'.chars ++ next') : p = p' := by
  -- the first two characters tell the four kinds apart, and the rest of a piece has one reading
  cases h with
  | plain hescape =>
    cases h' with
    | plain => rw [(List.cons.inj htext).1]
    | escape | continuation | number => exact absurd (List.cons.inj htext).1 hescape
  | escape hletter =>
    obtain ⟨hn, hu⟩ := letter_of_escape hletter
    cases h' with
    | plain hescape => exact absurd (List.cons.inj htext).1.symm hescape
    | escape hletter' =>
      obtain ⟨rfl, -⟩ := List.cons.inj (List.cons.inj htext).2
      have hvalue := shortEscape?_eq_some_iff.2 hletter
      rw [shortEscape?_eq_some_iff.2 hletter'] at hvalue
      rw [Option.some.inj hvalue]
    | continuation => exact absurd (List.cons.inj (List.cons.inj htext).2).1 hn
    | number => exact absurd (List.cons.inj (List.cons.inj htext).2).1 hu
  | continuation =>
    cases h' with
    | plain hescape => exact absurd (List.cons.inj htext).1.symm hescape
    | escape hletter' =>
      exact absurd (List.cons.inj (List.cons.inj htext).2).1.symm (letter_of_escape hletter').1
    | continuation => rfl
    | number => exact absurd (List.cons.inj (List.cons.inj htext).2).1 (by decide)
  | number hnumber =>
    cases h' with
    | plain hescape => exact absurd (List.cons.inj htext).1.symm hescape
    | escape hletter' =>
      exact absurd (List.cons.inj (List.cons.inj htext).2).1.symm (letter_of_escape hletter').2
    | continuation => exact absurd (List.cons.inj (List.cons.inj htext).2).1 (by decide)
    | number hnumber' =>
      obtain ⟨hdigits, -⟩ := List.append_inj (List.cons.inj (List.cons.inj htext).2).2
        (hnumber.length_eq.trans hnumber'.length_eq.symm)
      subst hdigits
      have hvalue := codePoint?_eq_some_iff.2 hnumber
      rw [codePoint?_eq_some_iff.2 hnumber'] at hvalue
      rw [Option.some.inj hvalue]

theorem Fit.unique {ps ps' : List TextPiece} {rest rest' : List Char} (h : Fit IsNumber style rest ps)
    (h' : Fit IsNumber style rest' ps')
    (htext : ps.flatMap chars ++ (style.marks ++ rest) = ps'.flatMap chars ++ (style.marks ++ rest')) :
    ps = ps' ∧ rest = rest' := by
  induction ps generalizing ps' with
  | nil =>
    cases ps' with
    | nil => exact ⟨rfl, List.append_cancel_left htext⟩
    | cons p ps' =>
      refine absurd ⟨rest, ?_⟩ (h'.1.not_marks hq)
      simpa using htext
  | cons p ps ih =>
    cases ps' with
    | nil =>
      refine absurd ⟨rest', ?_⟩ (h.1.not_marks hq)
      simpa using htext.symm
    | cons p' ps' =>
      rw [List.flatMap_cons, List.flatMap_cons, List.append_assoc, List.append_assoc] at htext
      obtain rfl := Fits.unique h.1 h'.1 htext
      obtain ⟨rfl, rfl⟩ := ih h.2 h'.2 (List.append_cancel_left htext)
      exact ⟨rfl, rfl⟩

end

/-! ## Numbers with a plus sign -/

theorem isFourDigits_iff {digits : List Char} {c : Char} :
    IsFourDigits digits c ↔ IsNumber digits c ∧ '+' ∉ digits := by
  constructor
  · intro h
    refine ⟨.inl h, fun hplus => ?_⟩
    have hdigit : isHexDigit '+' = true := h.2.1 _ hplus
    contradiction
  · rintro ⟨h | ⟨ds, rfl, -⟩, hplus⟩
    · exact h
    · exact absurd List.mem_cons_self hplus

theorem fits_isFourDigits_iff {style : QuoteStyle} {next : List Char} {p : TextPiece} :
    p.Fits IsFourDigits style next ↔
      p.Fits IsNumber style next ∧ ∀ digits c, p = number digits c → '+' ∉ digits := by
  constructor
  · intro h
    refine ⟨h.mono fun _ _ hdigits => .inl hdigits, ?_⟩
    rintro digits c rfl
    cases h with
    | number hdigits => exact (isFourDigits_iff.1 hdigits).2
  · rintro ⟨h, hplus⟩
    cases h with
    | plain hescape hclose hline hinsertion => exact .plain hescape hclose hline hinsertion
    | escape h => exact .escape h
    | continuation => exact .continuation
    | number h => exact .number (isFourDigits_iff.2 ⟨h, hplus _ _ rfl⟩)

theorem fit_isFourDigits_iff {style : QuoteStyle} {rest : List Char} {ps : List TextPiece} :
    Fit IsFourDigits style rest ps ↔
      Fit IsNumber style rest ps ∧ ∀ digits c, number digits c ∈ ps → '+' ∉ digits := by
  induction ps with
  | nil => simp [Fit]
  | cons p ps ih =>
    rw [Fit, Fit, fits_isFourDigits_iff, ih]
    constructor
    · rintro ⟨⟨hp, hfirst⟩, hps, hplus⟩
      refine ⟨⟨hp, hps⟩, fun digits c hmem => ?_⟩
      rcases List.mem_cons.1 hmem with h | h
      · exact hfirst digits c h.symm
      · exact hplus digits c h
    · rintro ⟨⟨hp, hps⟩, hplus⟩
      refine ⟨⟨hp, fun digits c h => hplus digits c ?_⟩, hps,
        fun digits c h => hplus digits c (List.mem_cons_of_mem p h)⟩
      rw [h]
      exact List.mem_cons_self

/-! ## Quoted texts -/

/-- After the quote `q` stand the rest of the opening quotes, the pieces, the closing quotes and
`rest`. -/
structure IsLiteral (isNumber : List Char → Char → Prop) (q : Char) (cs : List Char) (ps : List TextPiece)
    (rest : List Char) : Prop where
  text : cs = (QuoteStyle.opened q cs).marks.tail ++
    (ps.flatMap chars ++ ((QuoteStyle.opened q cs).marks ++ rest))
  fit : Fit isNumber (QuoteStyle.opened q cs) rest ps

def readAs (cs : List Char) (ps : List TextPiece) (rest : List Char) : Token × Nat :=
  (.text (.ofList (ps.flatMap value)), cs.length + 1 - rest.length)

theorem exists_opened (q : Char) (cs : List Char) :
    ∃ body, cs = (QuoteStyle.opened q cs).marks.tail ++ body := by
  by_cases h : cs.take 2 = [q, q]
  · refine ⟨cs.drop 2, ?_⟩
    have hmarks : (QuoteStyle.opened q cs).marks.tail = [q, q] := by
      simp [QuoteStyle.opened, QuoteStyle.marks, h, List.replicate]
    rw [hmarks, ← h, List.take_append_drop]
  · refine ⟨cs, ?_⟩
    simp [QuoteStyle.opened, QuoteStyle.marks, h]

section
variable {q : Char} (hq : isQuote q = true)
include hq

theorem IsLiteral.unique {cs : List Char} {ps ps' : List TextPiece} {rest rest' : List Char}
    (h : IsLiteral IsNumber q cs ps rest) (h' : IsLiteral IsNumber q cs ps' rest') :
    ps = ps' ∧ rest = rest' := by
  have hquote : isQuote (QuoteStyle.opened q cs).quote = true := hq
  exact Fit.unique hquote h.fit h'.fit (List.append_cancel_left (h.text.symm.trans h'.text))

theorem readText_eq_ok_iff {line : Nat} {cs : List Char} {r : Token × Nat} :
    readText line q cs = .ok r ↔ ∃ ps rest, IsLiteral IsNumber q cs ps rest ∧ r = readAs cs ps rest := by
  obtain ⟨body, hbody⟩ := exists_opened q cs
  have hmarks : (QuoteStyle.opened q cs).marks.length =
      (if (QuoteStyle.opened q cs).tripled then 2 else 0) + 1 := by
    cases h : (QuoteStyle.opened q cs).tripled <;> simp [QuoteStyle.marks, h]
  -- the quotes are passed over first, so that the body is read from its own start
  have hread : readText line q cs = (readTextFrom (QuoteStyle.opened q cs) line line 0 body).map
      fun r => (.text (.ofList r.1), (if (QuoteStyle.opened q cs).tripled then 2 else 0) + r.2 + 1) := by
    have hskip :=
      readTextFrom_append (QuoteStyle.opened q cs) line line (QuoteStyle.opened q cs).marks.tail body
    rw [← hbody, List.length_tail, hmarks, Nat.add_sub_cancel] at hskip
    rw [← hskip]
    rfl
  have hcount (ps : List TextPiece) (rest : List Char)
      (h : body = ps.flatMap chars ++ ((QuoteStyle.opened q cs).marks ++ rest)) :
      cs.length + 1 - rest.length = (if (QuoteStyle.opened q cs).tripled then 2 else 0) +
        ((ps.flatMap chars).length + (QuoteStyle.opened q cs).marks.length) + 1 := by
    have hlength := congrArg List.length hbody
    rw [h, List.length_append, List.length_tail, List.length_append, List.length_append] at hlength
    omega
  rw [hread, map_eq_ok]
  constructor
  · rintro ⟨r', hr', rfl⟩
    obtain ⟨ps, rest, hps, htext, rfl⟩ := (readTextFrom_eq_ok_iff hq).1 hr'
    refine ⟨ps, rest, ⟨hbody.trans (congrArg _ htext), hps⟩, ?_⟩
    rw [readAs, hcount ps rest htext]
  · rintro ⟨ps, rest, hliteral, rfl⟩
    have htext := List.append_cancel_left (hbody.symm.trans hliteral.text)
    refine ⟨_, (readTextFrom_eq_ok_iff hq).2 ⟨ps, rest, hliteral.fit, htext, rfl⟩, ?_⟩
    rw [readAs, hcount ps rest htext]

/-- A quoted text is accepted exactly if it is made of pieces up to its first closing quotes, and
gives what they stand for. The grammar in which a number is four digits says the same of a text
exactly if no number in it begins with a plus sign. -/
theorem readText_grammar (line : Nat) (cs : List Char) :
    (∀ r, readText line q cs = .ok r ↔
      ∃ ps rest, IsLiteral IsNumber q cs ps rest ∧ r = readAs cs ps rest) ∧
      ((∀ r, readText line q cs = .ok r ↔ ∃ ps rest, IsLiteral IsFourDigits q cs ps rest ∧
        r = readAs cs ps rest) ↔
        ∀ ps rest, IsLiteral IsNumber q cs ps rest →
          ∀ digits c, number digits c ∈ ps → '+' ∉ digits) := by
  refine ⟨fun r => readText_eq_ok_iff hq, ?_, ?_⟩
  · intro hclaim ps rest hliteral
    have hread : readText line q cs = .ok (readAs cs ps rest) :=
      (readText_eq_ok_iff hq).2 ⟨ps, rest, hliteral, rfl⟩
    obtain ⟨ps', rest', hliteral', -⟩ := (hclaim _).1 hread
    obtain ⟨hfit, hplus⟩ := fit_isFourDigits_iff.1 hliteral'.fit
    obtain ⟨rfl, rfl⟩ := IsLiteral.unique hq hliteral ⟨hliteral'.text, hfit⟩
    exact hplus
  · intro hplus r
    rw [readText_eq_ok_iff hq]
    constructor
    · rintro ⟨ps, rest, hliteral, rfl⟩
      exact ⟨ps, rest, ⟨hliteral.text, fit_isFourDigits_iff.2 ⟨hliteral.fit, hplus ps rest hliteral⟩⟩,
        rfl⟩
    · rintro ⟨ps, rest, hliteral, rfl⟩
      exact ⟨ps, rest, ⟨hliteral.text, (fit_isFourDigits_iff.1 hliteral.fit).1⟩, rfl⟩

omit hq in
/-- Between single quotes, `a\u0041$b` stands for `aA$b`. -/
theorem readText_grammar_quoted :
    isQuote '\'' = true ∧ ∃ ps rest, IsLiteral IsNumber '\'' "a\\u0041$b'".toList ps rest ∧
      readText 1 '\'' "a\\u0041$b'".toList = .ok (readAs "a\\u0041$b'".toList ps rest) ∧
      readAs "a\\u0041$b'".toList ps rest = (.text "aA$b", 11) := by
  have hquote : isQuote '\'' = true := by decide
  have hread : readText 1 '\'' "a\\u0041$b'".toList = .ok (.text "aA$b", 11) := by rfl
  obtain ⟨ps, rest, hliteral, hpieces⟩ := ((readText_grammar hquote 1 "a\\u0041$b'".toList).1 _).1 hread
  refine ⟨hquote, ps, rest, hliteral, ?_, hpieces.symm⟩
  rw [hread, hpieces]

omit hq in
/-- Three digits after a plus sign are read as a character number. -/
theorem readText_grammar_plus :
    ¬ ∀ r, readText 1 '\'' "\\u+123'".toList = .ok r ↔
      ∃ ps rest, IsLiteral IsFourDigits '\'' "\\u+123'".toList ps rest ∧
        r = readAs "\\u+123'".toList ps rest := by
  intro hclaim
  have hread : readText 1 '\'' "\\u+123'".toList = .ok (.text "ģ", 8) := by rfl
  obtain ⟨ps, rest, hliteral, -⟩ := (hclaim _).1 hread
  obtain ⟨hfit, hplus⟩ := fit_isFourDigits_iff.1 hliteral.fit
  have hplain : IsLiteral IsNumber '\'' "\\u+123'".toList [.number "+123".toList 'ģ'] [] := by
    have hnumber : IsNumber "+123".toList 'ģ' :=
      .inr ⟨"123".toList, rfl, rfl, forall_mem_of_all (by decide), rfl⟩
    exact ⟨by decide, .number hnumber, trivial⟩
  obtain ⟨rfl, -⟩ := IsLiteral.unique (by decide) hplain ⟨hliteral.text, hfit⟩
  exact hplus _ _ List.mem_cons_self (by decide)

end

end TextPiece

end UpdaterBootstrap
