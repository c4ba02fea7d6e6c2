import UpdaterBootstrap.Proofs.Spelling

/-!
# Writing quoted texts and integers

A text is written between quotes on one line. The tokenizer reads it back, and the scan sees no code
in it.
-/

namespace UpdaterBootstrap

/-! ## Quoted texts -/

def escapeChar (quote c : Char) : List Char :=
  if c == '\\' || c == quote then ['\\', c]
  else if c == '\n' then ['\\', 'n']
  else if c == '\r' then ['\\', 'r']
  else if c == '$' && quote == '"' then ['\\', '$']
  else [c]

def QuoteStyle.write (style : QuoteStyle) (s : List Char) : List Char :=
  style.marks ++ s.flatMap (escapeChar style.quote) ++ style.marks

def EndsValue (rest : List Char) : Prop :=
  ∃ r, rest = ',' :: r ∨ rest = ')' :: r ∨ rest = ']' :: r

section
variable {style : QuoteStyle} (hq : isQuote style.quote = true)
include hq

theorem quote_cases : style.quote = '\'' ∨ style.quote = '"' := by
  simpa [isQuote] using hq

theorem exists_piece_escapeChar (c : Char) :
    ∃ p : TextPiece, p.chars = escapeChar style.quote c ∧ p.value = [c] ∧
      ∀ next, p.Fits TextPiece.IsNumber style next := by
  unfold escapeChar
  split
  · rename_i h
    simp only [Bool.or_eq_true, beq_iff_eq] at h
    have hself : (c, c) ∈ TextPiece.escapes := by
      rcases h with rfl | rfl
      · decide
      · rcases quote_cases hq with h | h <;> rw [h] <;> decide
    exact ⟨.escape c c, rfl, rfl, fun _ => .escape hself⟩
  rename_i hself
  split
  · rename_i h
    rw [beq_iff_eq.1 h]
    exact ⟨.escape 'n' '\n', rfl, rfl, fun _ => .escape (by decide)⟩
  rename_i hfeed
  split
  · rename_i h
    rw [beq_iff_eq.1 h]
    exact ⟨.escape 'r' '\r', rfl, rfl, fun _ => .escape (by decide)⟩
  split
  · rename_i h
    simp only [Bool.and_eq_true, beq_iff_eq] at h
    rw [h.1]
    exact ⟨.escape '$' '$', rfl, rfl, fun _ => .escape (by decide)⟩
  · rename_i hdollar
    simp only [Bool.or_eq_true, beq_iff_eq, not_or] at hself
    -- whatever has a meaning of its own has been escaped above
    refine ⟨.plain c, rfl, rfl, fun next => .plain hself.1 ?_ ?_ ?_⟩
    · rw [← QuoteStyle.closes_iff]
      simp [QuoteStyle.closes, hself.2]
    · intro h
      simp [h] at hfeed
    · intro h hdouble
      simp [h, hdouble] at hdollar

theorem exists_pieces (s rest : List Char) :
    ∃ ps : List TextPiece, ps.flatMap TextPiece.chars = s.flatMap (escapeChar style.quote) ∧
      ps.flatMap TextPiece.value = s ∧ TextPiece.Fit TextPiece.IsNumber style rest ps := by
  induction s with
  | nil => exact ⟨[], rfl, rfl, trivial⟩
  | cons c s ih =>
    obtain ⟨p, hchars, hvalue, hp⟩ := exists_piece_escapeChar hq c
    obtain ⟨ps, hchars', hvalue', hps⟩ := ih
    refine ⟨p :: ps, ?_, ?_, hp _, hps⟩
    · rw [List.flatMap_cons, List.flatMap_cons, hchars, hchars']
    · rw [List.flatMap_cons, hvalue, hvalue', List.singleton_append]

theorem head?_escaped (s rest : List Char) (hs : s ≠ []) :
    (s.flatMap (escapeChar style.quote) ++ rest).head? ≠ some style.quote := by
  obtain ⟨c, s, rfl⟩ := List.exists_cons_of_ne_nil hs
  have hback := quote_ne_backslash hq
  rw [List.flatMap_cons]
  unfold escapeChar
  split
  · simpa using hback
  rename_i hself
  split
  · simpa using hback
  split
  · simpa using hback
  split
  · simpa using hback
  · simp only [Bool.or_eq_true, beq_iff_eq, not_or] at hself
    simpa using hself.2

omit hq in
theorem write_eq (s : List Char) (rest : List Char) :
    style.write s ++ rest = style.quote :: (style.marks.tail ++
      (s.flatMap (escapeChar style.quote) ++ (style.marks ++ rest))) := by
  have hmarks := style.marks_eq
  rw [← List.cons_append, ← hmarks, QuoteStyle.write]
  simp

/-- The style of a written text is told from the two characters after its first quote. -/
theorem opened_write (s : List Char) {rest : List Char} (hr : EndsValue rest) :
    QuoteStyle.opened style.quote (style.marks.tail ++
      (s.flatMap (escapeChar style.quote) ++ (style.marks ++ rest))) = style := by
  obtain ⟨q, tripled⟩ := style
  rw [QuoteStyle.opened, QuoteStyle.mk.injEq]
  refine ⟨rfl, ?_⟩
  cases tripled with
  | true => simp [QuoteStyle.marks, List.replicate]
  | false =>
    cases s with
    | nil =>
      have hne : ',' ≠ q ∧ ')' ≠ q ∧ ']' ≠ q := by rcases quote_cases hq with h | h <;> simp_all
      obtain ⟨r, rfl | rfl | rfl⟩ := hr <;> simp [QuoteStyle.marks, hne]
    | cons c s =>
      have hhead := head?_escaped hq (c :: s) (QuoteStyle.marks ⟨q, false⟩ ++ rest) (by simp)
      have htail : (QuoteStyle.marks ⟨q, false⟩).tail = [] := rfl
      dsimp only at hhead ⊢
      rw [htail, List.nil_append]
      cases htext : (c :: s).flatMap (escapeChar q) ++ (QuoteStyle.marks ⟨q, false⟩ ++ rest) with
      | nil => simp
      | cons d ds =>
        have hd : d ≠ q := by
          rw [htext] at hhead
          simpa using hhead
        simp [hd]

theorem readText_write (line : Nat) (s : List Char) {rest : List Char} (hr : EndsValue rest) :
    readText line style.quote ((style.write s ++ rest).tail) =
      .ok (.text (.ofList s), (style.write s).length) := by
  obtain ⟨ps, hchars, hvalue, hps⟩ := exists_pieces hq s rest
  have hstyle := opened_write hq s hr
  have hwrite : style.write s ++ rest = _ := write_eq s rest
  have hlength := congrArg List.length hwrite
  rw [List.length_append, List.length_cons] at hlength
  rw [hwrite, List.tail_cons, TextPiece.readText_eq_ok_iff hq]
  refine ⟨ps, rest, ⟨?_, ?_⟩, ?_⟩
  · rw [hstyle, hchars]
  · rw [hstyle]
    exact hps
  · rw [TextPiece.readAs, hvalue, ← hlength, Nat.add_sub_cancel]

end

/-! ## Integers -/

theorem isDigit_of_mem_decimalDigits {n : Nat} {c : Char} (h : c ∈ decimalDigits n) : c.isDigit = true :=
  Nat.isDigit_of_mem_toDigits (by decide) (by decide) h

theorem digitsValue_decimalDigits (n : Nat) : digitsValue (decimalDigits n) = n := by
  rw [digitsValue, ← Nat.ofDigitChars_eq_foldl]
  exact Nat.ofDigitChars_toDigits (by decide) (by decide)

theorem withoutGaps_decimalDigits (n : Nat) : withoutGaps (decimalDigits n) = decimalDigits n := by
  refine List.filter_eq_self.2 fun c hc => ?_
  have := ne_of_class (isDigit_of_mem_decimalDigits hc) (d := '_') (by decide)
  simpa using this

def readDigits (n : Nat) : Except UnitFault Token :=
  if n ≤ Int64.maxValue.toInt.toNat then .ok (.integer (.ofNat n))
    else .error (.range (.ofList (decimalDigits n)))

theorem readDecimal_decimalDigits (n : Nat) {rest : List Char} (hr : EndsValue rest) :
    readDecimal (decimalDigits n ++ rest) = (readDigits n).map (·, (decimalDigits n).length) := by
  have hwhole : (decimalDigits n ++ rest).takeWhile isDigitOrGap = decimalDigits n := by
    refine takeWhile_append_of_ends (fun c hc => ?_) fun c hc => ?_
    · simp [isDigitOrGap, isDigit_of_mem_decimalDigits hc]
    · obtain ⟨r, rfl | rfl | rfl⟩ := hr <;> rw [← Option.some.inj hc] <;> rfl
  have hdrop : (decimalDigits n ++ rest).drop (decimalDigits n).length = rest := List.drop_left
  have hfraction : fractionPart rest = [] := by obtain ⟨r, rfl | rfl | rfl⟩ := hr <;> rfl
  have hexponent : exponentPart rest = [] := by obtain ⟨r, rfl | rfl | rfl⟩ := hr <;> rfl
  have hnext (p : Char → Bool) (h₁ : p ',' = false) (h₂ : p ')' = false) (h₃ : p ']' = false) :
      (rest.take 1).any p = false := by
    obtain ⟨r, rfl | rfl | rfl⟩ := hr <;> simp [h₁, h₂, h₃]
  unfold readDecimal
  dsimp only
  have hnoDouble := hnext (fun x => "dDfF".toList.contains x) (by decide) (by decide) (by decide)
  have hnoSize := hnext (fun c => "gG".toList.contains c || (!false && "lLiI".toList.contains c)) (by decide)
    (by decide) (by decide)
  simp only [hwhole, hdrop, hfraction, List.length_nil, Nat.add_zero, hexponent, List.append_nil,
    List.isEmpty_nil, Bool.not_true, Bool.or_self, Bool.false_eq_true, if_false, hnoDouble, hnoSize,
      withoutGaps_decimalDigits,
    digitsValue_decimalDigits, positiveInteger?, readDigits, Bool.toNat_false]
  by_cases hn : n ≤ Int64.maxValue.toInt.toNat
  · rw [if_pos hn, if_pos hn]
    rfl
  · rw [if_neg hn, if_neg hn]
    rfl

theorem readNumber_decimalDigits (n : Nat) {rest : List Char} (hr : EndsValue rest) :
    readNumber (decimalDigits n ++ rest) = (readDigits n).map (·, (decimalDigits n).length) := by
  -- a number is hexadecimal only by its second character, which here is a digit or ends it
  have hsecond : ∀ c ds, decimalDigits n ++ rest = c :: ds →
      ∀ d es, ds = d :: es → d ≠ 'x' ∧ d ≠ 'X' := by
    intro c ds hds d es hes
    have hd : d.isDigit = true ∨ d = ',' ∨ d = ')' ∨ d = ']' := by
      obtain ⟨e, fs, hdigits⟩ := List.exists_cons_of_ne_nil (l := decimalDigits n) Nat.toDigits_ne_nil
      rw [hdigits, List.cons_append] at hds
      obtain ⟨_, rfl⟩ := List.cons.inj hds
      cases fs with
      | nil =>
        rw [List.nil_append] at hes
        obtain ⟨r, rfl | rfl | rfl⟩ := hr
        · exact .inr (.inl (List.cons.inj hes).1.symm)
        · exact .inr (.inr (.inl (List.cons.inj hes).1.symm))
        · exact .inr (.inr (.inr (List.cons.inj hes).1.symm))
      | cons f fs =>
        obtain ⟨rfl, _⟩ := List.cons.inj hes
        exact .inl (isDigit_of_mem_decimalDigits (n := n) (by simp [hdigits]))
    rcases hd with hd | rfl | rfl | rfl
    · exact ⟨ne_of_class hd (by decide), ne_of_class hd (by decide)⟩
    · decide
    · decide
    · decide
  rw [← readDecimal_decimalDigits n hr]
  unfold readNumber
  split
  · rename_i h
    exact absurd rfl (hsecond _ _ h _ _ rfl).1
  · rename_i h
    exact absurd rfl (hsecond _ _ h _ _ rfl).2
  · rfl

theorem readToken_decimalDigits (line n : Nat) {rest : List Char} (hr : EndsValue rest) :
    ∃ c cs, decimalDigits n = c :: cs ∧ c.isDigit = true ∧
      readToken line c (cs ++ rest) = ((readDigits n).map (·, cs.length + 1)).mapError (⟨line, ·⟩) := by
  obtain ⟨c, cs, hdigits⟩ := List.exists_cons_of_ne_nil (l := decimalDigits n) Nat.toDigits_ne_nil
  have hc : c.isDigit = true := isDigit_of_mem_decimalDigits (n := n) (by simp [hdigits])
  have hnumber := readNumber_decimalDigits n hr
  rw [hdigits, List.cons_append] at hnumber
  refine ⟨c, cs, hdigits, hc, ?_⟩
  simp only [readToken, isIdentStart_of_isDigit hc, hc, hnumber, Bool.false_eq_true, if_false, if_true]
  rfl

end UpdaterBootstrap
