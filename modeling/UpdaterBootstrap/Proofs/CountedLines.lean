import UpdaterBootstrap.Proofs.Division

/-!
# Counting lines while reading

The line of a token can be had from a counter that is advanced where a line feed is passed: among
blanks, in a block comment, in a text between threefold quotes and after a backslash. Nowhere else
is a line feed passed, and none twice, so the counter gives the lines that the tokens have
(`countedTokens_eq`).
-/

namespace UpdaterBootstrap

/-! ## The counter -/

/-- The line after a quoted text, from the character `skip` places on. -/
def textLine (style : QuoteStyle) (line skip : Nat) : List Char → Nat
  | [] => line
  | c :: cs =>
    match skip with
    | n + 1 => textLine style line n cs
    | 0 =>
      if style.closes c cs then line
      else if c == '\\' then
        match cs.head? with
        | some '\n' => textLine style (line + 1) 1 cs
        | some 'u' => textLine style line 5 cs
        | _ => textLine style line 1 cs
      else textLine style (if c == '\n' then line + 1 else line) 0 cs

def commentLine (line : Nat) : List Char → Nat
  | [] => line
  | c :: cs =>
    if c == '*' && cs.head? == some '/' then line
    else commentLine (if c == '\n' then line + 1 else line) cs

def lineAfterUse (line : Nat) (c : Char) (cs : List Char) : Nat :=
  if isBlank c then if c == '\n' then line + 1 else line
  else if c == '/' && cs.head? == some '/' then line
  else if c == '/' && cs.head? == some '*' then commentLine line cs.tail
  else if isQuote c then textLine (.opened c cs) line (QuoteStyle.opened c cs).marks.tail.length cs
  else line

/-- The tokens after `skip` characters that have been taken; `line` is the counter. -/
def countedFrom (line skip : Nat) : List Char → Except UnitError (List Placed)
  | [] => .ok [⟨.finish, line⟩]
  | c :: cs =>
    match skip with
    | n + 1 => countedFrom line n cs
    | 0 => do
      let (use, n) ← firstUse line c cs
      let rest ← countedFrom (lineAfterUse line c cs) n cs
      return use.token?.toList.map (⟨·, line⟩) ++ rest

def countedTokens (text : String) : Except UnitError (List Placed) :=
  countedFrom 1 0 text.toList

/-! ## Quoted texts -/

theorem textLine_append (style : QuoteStyle) (line : Nat) (a b : List Char) :
    textLine style line a.length (a ++ b) = textLine style line 0 b := by
  induction a with
  | nil => rfl
  | cons c a ih => exact ih

section
variable {style : QuoteStyle} (hq : isQuote style.quote = true)
include hq

theorem lineFeeds_marks : lineFeeds style.marks = 0 := by
  refine lineFeeds_eq_zero fun h => ?_
  rw [← List.eq_of_mem_replicate h] at hq
  cases hq

theorem textLine_backslash (line : Nat) (cs : List Char) : textLine style line 0 ('\\' :: cs) =
    match cs.head? with
    | some '\n' => textLine style (line + 1) 1 cs
    | some 'u' => textLine style line 5 cs
    | _ => textLine style line 1 cs := by
  have hopen : style.closes '\\' cs = false := by
    unfold QuoteStyle.closes
    rw [beq_false_of_ne (quote_ne_backslash hq), Bool.false_and]
  rw [textLine, hopen]
  rfl

theorem textLine_chars {p : TextPiece} {next : List Char} (hp : p.Fits TextPiece.IsNumber style next)
    (line : Nat) :
    textLine style line 0 (p.chars ++ next) = textLine style (line + lineFeeds p.chars) 0 next := by
  cases hp with
  | @plain c hescape hclose hline hinsertion =>
    have hopen : style.closes c next = false := by
      rw [← Bool.not_eq_true, QuoteStyle.closes_iff]
      exact hclose
    rw [TextPiece.chars, List.singleton_append, textLine, hopen, if_neg Bool.false_ne_true,
      if_neg (by simpa using hescape)]
    by_cases hc : c = '\n' <;> simp [hc, lineFeeds]
  | @escape letter value h =>
    obtain ⟨hn, hu⟩ := TextPiece.letter_of_escape h
    have hlines : lineFeeds ['\\', letter] = 0 := by simp [lineFeeds, hn]
    rw [TextPiece.chars, hlines, List.cons_append, textLine_backslash hq]
    simp [hn, hu, textLine]
  | continuation =>
    rw [TextPiece.chars, List.cons_append, textLine_backslash hq]
    rfl
  | @number digits value h =>
    have hdigits : '\n' ∉ digits := fun hd => by cases h.isHexDigit_or_plus hd <;> contradiction
    have hlines : lineFeeds ('\\' :: 'u' :: digits) = 0 := lineFeeds_eq_zero (by simp [hdigits])
    have hskip := textLine_append style line ('u' :: digits) next
    rw [List.length_cons, h.length_eq] at hskip
    rw [TextPiece.chars, hlines, List.cons_append, textLine_backslash hq]
    exact hskip

theorem textLine_fit {ps : List TextPiece} {rest : List Char}
    (h : TextPiece.Fit TextPiece.IsNumber style rest ps)
    (line : Nat) : textLine style line 0 (ps.flatMap TextPiece.chars ++ (style.marks ++ rest)) =
      line + lineFeeds (ps.flatMap TextPiece.chars) := by
  induction ps generalizing line with
  | nil =>
    have hclose : style.closes style.quote (style.marks.tail ++ rest) = true := by
      rw [QuoteStyle.closes_iff, ← List.cons_append, ← style.marks_eq]
      exact List.prefix_append _ _
    rw [List.flatMap_nil, List.nil_append, style.marks_eq, List.cons_append, textLine, hclose, if_pos rfl]
    rfl
  | cons p ps ih =>
    rw [List.flatMap_cons, List.append_assoc, textLine_chars hq h.1, ih h.2, lineFeeds_append, Nat.add_assoc]

end

theorem textLine_readText {line n : Nat} {q : Char} {cs : List Char} {t : Token} (hq : isQuote q = true)
    (h : readText line q cs = .ok (t, n)) :
    textLine (.opened q cs) line (QuoteStyle.opened q cs).marks.tail.length cs =
      line + lineFeeds (q :: cs.take (n - 1)) := by
  obtain ⟨ps, rest, ⟨htext, hfit⟩, heq⟩ := (TextPiece.readText_eq_ok_iff hq).1 h
  obtain ⟨-, rfl⟩ := Prod.mk.inj heq
  have hquote : isQuote (QuoteStyle.opened q cs).quote = true := hq
  have hmarks : q :: (QuoteStyle.opened q cs).marks.tail = (QuoteStyle.opened q cs).marks :=
    (QuoteStyle.opened q cs).marks_eq.symm
  clear h
  generalize QuoteStyle.opened q cs = style at htext hfit hquote hmarks ⊢
  have htaken : cs = style.marks.tail ++ (ps.flatMap TextPiece.chars ++ style.marks) ++ rest := by
    rw [htext]
    simp only [List.append_assoc]
  have htake : cs.take (cs.length + 1 - rest.length - 1) =
      style.marks.tail ++ (ps.flatMap TextPiece.chars ++ style.marks) := by
    rw [Nat.sub_right_comm, Nat.add_sub_cancel, htaken, List.length_append, Nat.add_sub_cancel,
      List.take_left]
  rw [htake, ← List.cons_append, hmarks, lineFeeds_append, lineFeeds_append, lineFeeds_marks hquote,
    Nat.zero_add, Nat.add_zero, ← textLine_fit hquote hfit, htext]
  exact textLine_append style line _ _

/-! ## Comments -/

theorem commentLine_eq {cs : List Char} {n : Nat} (h : blockLength? cs = some n) (line : Nat) :
    commentLine line cs = line + lineFeeds (cs.take n) := by
  induction cs generalizing n line with
  | nil => cases h
  | cons c cs ih =>
    rw [blockLength?] at h
    rw [commentLine]
    split at h
    · rename_i hend
      obtain rfl := Option.some.inj h
      rw [if_pos hend]
      simp only [Bool.and_eq_true, beq_iff_eq] at hend
      obtain ⟨rest, rfl⟩ := List.head?_eq_some_iff.1 hend.2
      rw [hend.1]
      rfl
    · rename_i hend
      obtain ⟨m, hm, rfl⟩ := Option.map_eq_some_iff.1 h
      rw [if_neg hend, List.take_succ_cons, ← lineAfter_add]
      exact ih hm (lineAfter line c)

/-! ## Tokens -/

theorem Lexeme.lineFeeds_of_token {cs : List Char} {t : Token} {code : Bool} (h : Lexeme cs (some t) code)
    (hquote : ∀ c ∈ cs.head?, isQuote c = false) : lineFeeds cs = 0 := by
  cases h with
  | word h hs =>
    exact lineFeeds_of_class (List.forall_mem_cons.2 ⟨isIdentPart_of_isIdentStart h, hs⟩) (by decide)
  | integer _ h => exact lineFeeds_of_class h (by decide)
  | decimal _ h => exact lineFeeds_of_class h (by decide)
  | text h =>
    rw [hquote _ rfl] at h
    cases h
  | symbol h => exact lineFeeds_of_class (List.forall_mem_singleton.2 h) (by decide)

theorem readToken_quote {q : Char} (hq : isQuote q = true) (line : Nat) (cs : List Char) :
    readToken line q cs = readText line q cs := by
  have hstart : isIdentStart q = false ∧ q.isDigit = false := by
    simp only [isQuote, Bool.or_eq_true, beq_iff_eq] at hq
    rcases hq with rfl | rfl <;> decide +kernel
  unfold readToken
  rw [hstart.1, hstart.2]
  exact if_pos hq

/-- The counter has passed the line feeds of what was taken, each once. -/
theorem lineAfterUse_eq {line n : Nat} {c : Char} {cs : List Char} {use : Use}
    (h : firstUse line c cs = .ok (use, n)) :
    lineAfterUse line c cs = line + lineFeeds (c :: cs.take n) := by
  have hlexeme := (takesFirst_of_firstUse h).lexeme
  unfold firstUse at h
  unfold lineAfterUse
  split at h
  · rename_i hblank
    obtain ⟨-, rfl⟩ := Prod.mk.inj (Except.ok.inj h)
    rw [if_pos hblank, ← lineAfter_add]
    rfl
  rename_i hblank
  rw [if_neg hblank]
  split at h
  · rename_i hcomment
    obtain ⟨-, rfl⟩ := Prod.mk.inj (Except.ok.inj h)
    -- a line comment ends before its line feed
    rw [if_pos hcomment, take_length_takeWhile, lineFeeds_eq_zero]
    · rfl
    intro hmem
    rcases List.mem_cons.1 hmem with rfl | hmem
    · cases hcomment
    · simpa using List.all_eq_true.1 List.all_takeWhile _ hmem
  rename_i hline
  rw [if_neg hline]
  split at h
  · rename_i hcomment
    rw [if_pos hcomment]
    simp only [Bool.and_eq_true, beq_iff_eq] at hcomment
    obtain ⟨rest, rfl⟩ := List.head?_eq_some_iff.1 hcomment.2
    rw [hcomment.1]
    split at h
    · rename_i m hm
      obtain ⟨-, rfl⟩ := Prod.mk.inj (Except.ok.inj h)
      exact commentLine_eq hm line
    · cases h
  rename_i hblock
  rw [if_neg hblock]
  obtain ⟨⟨t, m⟩, ht, heq⟩ := map_eq_ok.1 h
  obtain ⟨rfl, rfl⟩ := Prod.mk.inj heq
  -- of the tokens only quoted texts have line feeds in them
  by_cases hq : isQuote c = true
  · rw [if_pos hq]
    exact textLine_readText hq ((readToken_quote hq line cs).symm.trans ht)
  · rw [if_neg hq, hlexeme.lineFeeds_of_token]
    · rfl
    · rintro _ ⟨⟩
      simpa using hq

theorem countedFrom_first (line : Nat) (c : Char) (cs : List Char) :
    countedFrom line 0 (c :: cs) = firstUse line c cs >>= fun p =>
      (countedFrom (lineAfterUse line c cs) p.2 cs).map (p.1.token?.toList.map (⟨·, line⟩) ++ ·) := by
  rw [countedFrom]
  congr 1

/-- The tokenizer's lines are those of the counter, which is ahead by the line feeds of what has
been taken. -/
theorem countedFrom_eq : ∀ (line skip : Nat) (cs : List Char),
    countedFrom (line + lineFeeds (cs.take skip)) skip cs = tokensFrom line skip cs
  | _, _, [] => by
    rw [List.take_nil]
    rfl
  | line, n + 1, c :: cs => by
    rw [List.take_succ_cons, ← lineAfter_add]
    exact countedFrom_eq (lineAfter line c) n cs
  | line, 0, c :: cs => by
    rw [List.take_zero, tokensFrom_first]
    refine (countedFrom_first line c cs).trans ?_
    cases huse : firstUse line c cs with
    | error e => rfl
    | ok p =>
      rw [ok_bind, ok_bind, lineAfterUse_eq huse, ← lineAfter_add, countedFrom_eq (lineAfter line c) p.2 cs]

theorem countedTokens_eq (text : String) : countedTokens text = tokens text :=
  countedFrom_eq 1 0 text.toList

end UpdaterBootstrap
