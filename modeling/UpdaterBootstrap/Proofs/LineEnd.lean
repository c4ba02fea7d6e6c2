import UpdaterBootstrap.Proofs.Passage

/-!
# Text before a line end

Up to a line feed that is code for the scan the tokenizer reads the same whatever comes after it
(`tokensFrom_before`). Words, numbers and comments are read as if the text ended there. An escape
that is not valid is reported with up to three characters of the next line.
-/

namespace UpdaterBootstrap

/-! ## Words and numbers -/

theorem takeWhile_before {p : Char → Bool} (hp : p '\n' = false) (a post : List Char) :
    (a ++ '\n' :: post).takeWhile p = a.takeWhile p := by
  induction a with
  | nil => simp [hp]
  | cons c a ih => rw [List.cons_append, List.takeWhile_cons, List.takeWhile_cons, ih]

theorem drop_before {n : Nat} {a : List Char} (h : n ≤ a.length) (post : List Char) :
    (a ++ '\n' :: post).drop n = a.drop n ++ '\n' :: post :=
  List.drop_append_of_le_length h

theorem filter_take_before {p : Char → Bool} (hp : p '\n' = false) (a post : List Char) :
    ((a ++ '\n' :: post).take 1).filter p = (a.take 1).filter p := by
  cases a with
  | nil => simp [hp]
  | cons c a => rfl

theorem any_take_before {p : Char → Bool} (hp : p '\n' = false) (a post : List Char) :
    ((a ++ '\n' :: post).take 1).any p = (a.take 1).any p := by
  cases a with
  | nil => simp [hp]
  | cons c a => rfl

theorem fractionPart_before (a post : List Char) : fractionPart (a ++ '\n' :: post) = fractionPart a := by
  match a with
  | [] => rfl
  | [c] =>
    by_cases hc : c = '.'
    · subst hc
      rfl
    · simp [fractionPart, hc]
  | c :: d :: a =>
    by_cases hc : c = '.'
    · subst hc
      simp only [List.cons_append, fractionPart, takeWhile_before (p := isDigitOrGap) (by decide)]
    · simp [fractionPart, hc]

theorem exponentPart_before (a post : List Char) : exponentPart (a ++ '\n' :: post) = exponentPart a := by
  cases a with
  | nil => rfl
  | cons e a =>
    have hsign : ((a.take 1).filter fun c => c == '+' || c == '-').length ≤ a.length :=
      Nat.le_trans (List.length_filter_le _ _) (List.length_take_le' 1 a)
    rw [List.cons_append, exponentPart, exponentPart, filter_take_before (by decide)]
    dsimp only
    rw [drop_before hsign, takeWhile_before (by decide)]

theorem readHexadecimal_before (a post : List Char) :
    readHexadecimal (a ++ '\n' :: post) = readHexadecimal a := by
  have hdigits : (a.takeWhile fun c => isHexDigit c || c == '_').length ≤ a.length :=
    (List.takeWhile_prefix _).length_le
  unfold readHexadecimal
  rw [takeWhile_before (by decide)]
  dsimp only
  rw [drop_before hdigits, filter_take_before (by decide)]

theorem readDecimal_before (a post : List Char) : readDecimal (a ++ '\n' :: post) = readDecimal a := by
  have htext := (numerals_decimalText a).1.length_le
  rw [List.length_append, List.length_append] at htext
  unfold readDecimal
  rw [takeWhile_before (by decide)]
  dsimp only
  rw [drop_before (by omega), fractionPart_before, drop_before (by omega), exponentPart_before,
    drop_before (by rw [List.length_append, List.length_append]; omega), any_take_before (by decide),
    any_take_before (by simp)]

theorem readNumber_decimal {cs : List Char} (h : ∀ d rest, cs = '0' :: d :: rest → d ≠ 'x' ∧ d ≠ 'X') :
    readNumber cs = readDecimal cs := by
  unfold readNumber
  split
  · exact absurd rfl (h _ _ rfl).1
  · exact absurd rfl (h _ _ rfl).2
  · rfl

theorem readNumber_before (a post : List Char) : readNumber (a ++ '\n' :: post) = readNumber a := by
  by_cases hhex : ∃ d rest, a = '0' :: d :: rest ∧ (d = 'x' ∨ d = 'X')
  · obtain ⟨d, rest, rfl, rfl | rfl⟩ := hhex
    · exact readHexadecimal_before rest post
    · exact readHexadecimal_before rest post
  · rw [readNumber_decimal, readNumber_decimal, readDecimal_before]
    · intro d rest h
      exact ⟨fun e => hhex ⟨d, rest, h, .inl e⟩, fun e => hhex ⟨d, rest, h, .inr e⟩⟩
    · intro d rest h
      match a, h with
      | [], h => cases (List.cons.inj h).1
      | [c], h =>
        obtain ⟨-, h⟩ := List.cons.inj h
        obtain ⟨rfl, -⟩ := List.cons.inj h
        decide
      | c :: e :: a, h =>
        obtain ⟨hzero, h⟩ := List.cons.inj h
        obtain ⟨rfl, -⟩ := List.cons.inj h
        subst hzero
        exact ⟨fun he => hhex ⟨e, a, rfl, .inl he⟩, fun he => hhex ⟨e, a, rfl, .inr he⟩⟩

/-! ## Line feeds in code -/

def FeedIsCode (r : Reading) (a post : List Char) : Prop :=
  (markedFrom r (a ++ '\n' :: post))[a.length]? = some ('\n', true)

theorem FeedIsCode.step {r : Reading} {c : Char} {a post : List Char} (h : FeedIsCode r (c :: a) post) :
    FeedIsCode (r.step c (a ++ '\n' :: post)).2 a post :=
  h

theorem FeedIsCode.nil {r : Reading} {post : List Char} (h : FeedIsCode r [] post) :
    (r.step '\n' post).1 = true :=
  (Prod.mk.inj (Option.some.inj h)).2

theorem FeedIsCode.append {r r' : Reading} {a b post : List Char} {ms : List Marked}
    (hms : ms.map Prod.fst = a)
    (hmarks : markedFrom r (a ++ (b ++ '\n' :: post)) = ms ++ markedFrom r' (b ++ '\n' :: post))
    (h : FeedIsCode r (a ++ b) post) : FeedIsCode r' b post := by
  rw [FeedIsCode, List.append_assoc, hmarks, List.length_append, ← hms, List.length_map,
    List.getElem?_append_right (Nat.le_add_right _ _), Nat.add_sub_cancel_left] at h
  exact h

theorem feedIsCode_of_marks {r : Reading} {a post : List Char} {ms : List Marked} (hms : ms.map Prod.fst = a)
    (hmarks : markedFrom r (a ++ '\n' :: post) = ms ++ markedFrom .code ('\n' :: post)) :
    FeedIsCode r a post := by
  rw [FeedIsCode, hmarks, ← hms, List.length_map, List.getElem?_append_right (Nat.le_refl _), Nat.sub_self]
  rfl

theorem Passed.feedIsCode {a : List Char} (h : Passed a) (post : List Char) : FeedIsCode .code a post := by
  obtain ⟨ms, hms, hmarks, -⟩ := h ('\n' :: post)
  exact feedIsCode_of_marks hms hmarks

/-! ## Comments -/

theorem blockLength?_append {a : List Char} {n : Nat} (h : blockLength? a = some n) (b : List Char) :
    blockLength? (a ++ b) = some n := by
  induction a generalizing n with
  | nil => cases h
  | cons c a ih =>
    rw [blockLength?] at h
    rw [List.cons_append, blockLength?]
    split at h
    · rename_i hc
      simp only [Bool.and_eq_true, beq_iff_eq] at hc
      obtain ⟨cs, rfl⟩ := List.head?_eq_some_iff.1 hc.2
      rw [if_pos (by simp [hc.1])]
      exact h
    · rename_i hc
      obtain ⟨m, hm, rfl⟩ := Option.map_eq_some_iff.1 h
      have hhead : (a ++ b).head? = a.head? := by
        cases a with
        | nil => cases hm
        | cons d a => rfl
      rw [hhead, if_neg hc, ih hm]
      rfl

theorem FeedIsCode.blockLength? {a post : List Char} (h : FeedIsCode ⟨0, .blockComment⟩ a post) :
    ∃ n, UpdaterBootstrap.blockLength? a = some n := by
  induction a with
  | nil => cases h.nil
  | cons c a ih =>
    rw [UpdaterBootstrap.blockLength?]
    split
    · exact ⟨2, rfl⟩
    · rename_i hc
      have hstep : Reading.step ⟨0, .blockComment⟩ c (a ++ '\n' :: post) = (false, ⟨0, .blockComment⟩) := by
        have hhead : (c == '*' && (a ++ '\n' :: post).head? == some '/') = false := by
          cases a with
          | nil => exact Bool.and_false _
          | cons d a => exact Bool.eq_false_iff.2 hc
        rw [Reading.step]
        dsimp only
        rw [hhead]
        rfl
      have hrest := h.step
      rw [hstep] at hrest
      obtain ⟨n, hn⟩ := ih hrest
      exact ⟨n + 1, by rw [hn]; rfl⟩

/-! ## Quoted texts -/

theorem head?_before (a post post' : List Char) : (a ++ '\n' :: post).head? = (a ++ '\n' :: post').head? := by
  cases a <;> rfl

theorem quote_ne_feed {q : Char} (hq : isQuote q = true) : '\n' ≠ q :=
  (ne_of_class hq (by decide)).symm

theorem take_two_before {q : Char} (hq : isQuote q = true) (a post post' : List Char) :
    (a ++ '\n' :: post).take 2 = [q, q] ↔ (a ++ '\n' :: post').take 2 = [q, q] := by
  match a with
  | [] => simp [quote_ne_feed hq]
  | [c] => simp [quote_ne_feed hq]
  | c :: d :: a => simp

section
variable {post post' : List Char} (hpost : post.take 3 = post'.take 3)
include hpost

theorem take_before {n : Nat} (hn : n ≤ 4) (a : List Char) :
    (a ++ '\n' :: post).take n = (a ++ '\n' :: post').take n := by
  induction a generalizing n with
  | nil =>
    cases n with
    | zero => rfl
    | succ n =>
      have hless : post.take n = post'.take n := by
        have := congrArg (List.take n) hpost
        rwa [List.take_take, List.take_take, Nat.min_eq_left (Nat.le_of_succ_le_succ hn)] at this
      rw [List.nil_append, List.nil_append, List.take_succ_cons, List.take_succ_cons, hless]
  | cons c a ih =>
    cases n with
    | zero => rfl
    | succ n =>
      rw [List.cons_append, List.cons_append, List.take_succ_cons, List.take_succ_cons, ih (by omega)]

variable {style : QuoteStyle} (hq : isQuote style.quote = true) (start : Nat)
include hq

omit hpost in
theorem closes_before (c : Char) (a : List Char) :
    style.closes c (a ++ '\n' :: post) = style.closes c (a ++ '\n' :: post') := by
  unfold QuoteStyle.closes
  by_cases hc : c = style.quote
  · have htake := take_two_before (hc ▸ hq : isQuote c = true) a post post'
    have hbeq : ((a ++ '\n' :: post).take 2 == [c, c]) = ((a ++ '\n' :: post').take 2 == [c, c]) := by
      rw [Bool.eq_iff_iff, beq_iff_eq, beq_iff_eq]
      exact htake
    rw [hbeq]
  · rw [beq_false_of_ne hc, Bool.false_and, Bool.false_and]

omit hpost hq in
/-- The digits of a character number stand before the line feed. -/
theorem exists_digits {a : List Char} {e : Char} (h : codePoint? ((a ++ '\n' :: post).take 4) = some e) :
    ∃ digits b, a = digits ++ b ∧ digits.length = 4 ∧ ∀ d ∈ digits, isHexDigit d = true ∨ d = '+' := by
  obtain ⟨-, hdigits⟩ := codePoint?_some h
  have hlong : 4 ≤ a.length := by
    rw [← Nat.not_lt]
    intro hshort
    obtain ⟨n, hn⟩ := Nat.exists_eq_add_of_lt hshort
    have hfeed : '\n' ∈ (a ++ '\n' :: post).take 4 := by
      rw [hn, Nat.add_assoc, List.take_length_add_append, List.take_succ_cons]
      simp
    rcases hdigits _ hfeed with h | h
    · cases h
    · cases h
  rw [List.take_append_of_le_length hlong] at hdigits
  exact ⟨a.take 4, a.drop 4, (List.take_append_drop 4 a).symm, List.length_take_of_le hlong, hdigits⟩

section
variable {n : Nat} (ih : ∀ b : List Char, b.length < n → FeedIsCode ⟨0, style.region⟩ b post → ∀ line,
  readTextFrom style start line 0 (b ++ '\n' :: post) = readTextFrom style start line 0 (b ++ '\n' :: post'))
include ih

omit hpost hq in
theorem readTextFrom_skip_before {a b : List Char} (hb : b.length < n)
    (h : FeedIsCode ⟨0, style.region⟩ b post) (line : Nat) :
    readTextFrom style start line a.length (a ++ (b ++ '\n' :: post)) =
      readTextFrom style start line a.length (a ++ (b ++ '\n' :: post')) := by
  rw [readTextFrom_append, readTextFrom_append]
  exact ih b hb h line

theorem readTextFrom_escape_before {a : List Char} (hn : n = ('\\' :: a).length)
    (h : FeedIsCode ⟨0, style.region⟩ ('\\' :: a) post) (line : Nat) :
    readTextFrom style start line 0 ('\\' :: (a ++ '\n' :: post)) =
      readTextFrom style start line 0 ('\\' :: (a ++ '\n' :: post')) := by
  have hquote : ('\\' == style.quote) = false := beq_false_of_ne (quote_ne_backslash hq)
  have hfeed : ('\\' == '\n') = false := rfl
  simp only [readTextFrom, hquote, hfeed, Bool.false_and, Bool.false_eq_true, if_false,
    beq_self_eq_true, if_true]
  have hstep := h.step
  rw [step_backslash] at hstep
  cases a with
  | nil => cases hstep.nil
  | cons d a =>
    have hrest : FeedIsCode ⟨0, style.region⟩ a post := hstep.step
    have one (line : Nat) :=
      readTextFrom_skip_before start ih (a := [d]) (hn ▸ Nat.lt_succ_of_lt (Nat.lt_succ_self _)) hrest line
    simp only [List.length_singleton, List.singleton_append] at one
    simp only [List.cons_append, List.head?_cons, List.tail_cons, one, take_before hpost (Nat.le_refl 4) a]
    -- an escape looks at four characters, of which the line feed is one
    split
    · rfl
    · rfl
    · split
      · rename_i e hcode
        obtain ⟨digits, b, rfl, hlength, hdigits⟩ : ∃ digits b, a = digits ++ b ∧ digits.length = 4 ∧
          ∀ d ∈ digits, isHexDigit d = true ∨ d = '+' := exists_digits hcode
        have hmarks := markedFrom_hexDigits hq hdigits (b ++ '\n' :: post)
        have hb : FeedIsCode ⟨0, style.region⟩ b post := hrest.append (map_fst_mark _ _) hmarks
        have five := readTextFrom_skip_before start ih (a := d :: digits) (by simp [hn]; omega) hb line
        rw [List.length_cons, hlength, List.cons_append, List.cons_append] at five
        rw [List.append_assoc, List.append_assoc, five]
      · rfl
    · rfl

end

/-- Between quotes the reader and the scan come to the line feed together, or the text is closed
before it. -/
theorem readTextFrom_before {a : List Char} (h : FeedIsCode ⟨0, style.region⟩ a post) (line : Nat) :
    readTextFrom style start line 0 (a ++ '\n' :: post) =
      readTextFrom style start line 0 (a ++ '\n' :: post') := by
  induction hn : a.length using Nat.strongRecOn generalizing a line with
  | ind n ih =>
    subst hn
    have ih (b : List Char) (hb : b.length < a.length) (h : FeedIsCode ⟨0, style.region⟩ b post)
        (line : Nat) :=
      ih b.length hb h line rfl
    cases a with
    | nil =>
      -- between triple quotes the line feed would not be code
      have hsingle : style.tripled = false := by
        rw [← Bool.not_eq_true]
        intro htripled
        have hquote : ('\n' == style.quote) = false := beq_false_of_ne (quote_ne_feed hq)
        have hfirst := h.nil
        simp [QuoteStyle.region, htripled, Reading.step, hquote] at hfirst
      have openText (post : List Char) :
          readTextFrom style start line 0 ('\n' :: post) = .error ⟨start, .openText⟩ := by
        have hquote : ('\n' == style.quote) = false := beq_false_of_ne (quote_ne_feed hq)
        simp [readTextFrom, hquote, hsingle]
      exact (openText post).trans (openText post').symm
    | cons c a =>
      by_cases hescape : c = '\\'
      · subst hescape
        exact readTextFrom_escape_before hpost hq start ih rfl h line
      have hbackslash : (c == '\\') = false := beq_false_of_ne hescape
      have hinsertion : startsInsertion style (a ++ '\n' :: post) =
          startsInsertion style (a ++ '\n' :: post') := by
        rw [startsInsertion, startsInsertion, head?_before a post post']
      have hcloses : style.closes c (a ++ '\n' :: post) = style.closes c (a ++ '\n' :: post') :=
        closes_before hq c a
      rw [List.cons_append, List.cons_append, readTextFrom, readTextFrom]
      dsimp only
      rw [hbackslash, hinsertion]
      change (if style.closes c (a ++ '\n' :: post) = true then _ else _) =
        if style.closes c (a ++ '\n' :: post') = true then _ else _
      -- only the last case goes on behind this character
      rw [← hcloses]
      split
      · rfl
      rename_i hopen
      split
      · rfl
      rename_i hfeed
      simp only [Bool.false_eq_true, if_false]
      split
      · rfl
      have hwithin := h.step
      rw [step_within hq hescape (by simpa using hopen) fun e => by simpa [e] using hfeed] at hwithin
      rw [ih a (by simp) hwithin]

omit hq in
theorem readText_before {q : Char} (hq : isQuote q = true) {a : List Char}
    (h : FeedIsCode .code (q :: a) post) (line : Nat) :
    readText line q (a ++ '\n' :: post) = readText line q (a ++ '\n' :: post') := by
  have hwithin := h.step
  rw [step_quote hq] at hwithin
  have htake := take_two_before hq a post post'
  unfold readText
  dsimp only
  by_cases htripled : (a ++ '\n' :: post).take 2 = [q, q]
  · rw [beq_iff_eq.2 htripled, beq_iff_eq.2 (htake.1 htripled)]
    rw [beq_iff_eq.2 htripled] at hwithin
    match a, htripled with
    | [], htripled => exact absurd (List.cons.inj htripled).1 (quote_ne_feed hq)
    | [d], htripled => exact absurd (List.cons.inj (List.cons.inj htripled).2).1 (quote_ne_feed hq)
    | d :: e :: a, htripled =>
      have hskip := readTextFrom_append ⟨q, true⟩ line line [d, e]
      have hquote : isQuote (QuoteStyle.mk q true).quote = true := hq
      have hsame := readTextFrom_before hpost hquote line hwithin.step.step line
      exact congrArg _ ((hskip _).trans (hsame.trans (hskip _).symm))
  · have hsingle (post : List Char) (h : (a ++ '\n' :: post).take 2 ≠ [q, q]) :
        ((a ++ '\n' :: post).take 2 == [q, q]) = false := beq_false_of_ne h
    rw [hsingle post htripled] at hwithin ⊢
    rw [hsingle post' fun e => htripled (htake.2 e)]
    have hquote : isQuote (QuoteStyle.mk q false).quote = true := hq
    exact congrArg _ (readTextFrom_before hpost hquote line hwithin line)

end

/-! ## Lexemes -/

theorem identifier_before (c : Char) (a post : List Char) :
    identifier (c :: (a ++ '\n' :: post)) = identifier (c :: a) := by
  rw [identifier, identifier, takeWhile_before (by decide)]

/-- A lexeme of code has a line feed in it only if it is one. -/
theorem Lexeme.eq_feed {cs : List Char} {t : Option Token} (h : Lexeme cs t true) (hfeed : '\n' ∈ cs) :
    cs = ['\n'] := by
  generalize hcode : true = code at h
  have none {p : Char → Bool} (hp : p '\n' = false) (h : ∀ c ∈ cs, p c = true) : cs = ['\n'] := by
    rw [h _ hfeed] at hp
    cases hp
  cases h with
  | blank h => rw [List.mem_singleton.1 hfeed]
  | lineComment h => cases hcode
  | blockComment => cases hcode
  | word h hs => exact none (by decide) (List.forall_mem_cons.2 ⟨isIdentPart_of_isIdentStart h, hs⟩)
  | integer hne h => exact none (by decide) h
  | decimal hne h => exact none (by decide) h
  | text h => cases hcode
  | symbol h => rw [List.mem_singleton.1 hfeed]

section
variable {post post' : List Char} (hpost : post.take 3 = post'.take 3) {line : Nat} {c : Char} {a : List Char}
  (h : FeedIsCode .code (c :: a) post)
include hpost h

theorem readToken_before : readToken line c (a ++ '\n' :: post) = readToken line c (a ++ '\n' :: post') := by
  unfold readToken
  split
  · rw [identifier_before, identifier_before]
  split
  · have hnumber (post : List Char) : readNumber (c :: (a ++ '\n' :: post)) = readNumber (c :: a) :=
      readNumber_before (c :: a) post
    rw [hnumber, hnumber]
  split
  · rename_i hquote
    exact readText_before hpost hquote h line
  · rfl

theorem firstUse_before : firstUse line c (a ++ '\n' :: post) = firstUse line c (a ++ '\n' :: post') := by
  have hhead := head?_before a post post'
  unfold firstUse
  split
  · rfl
  rw [← hhead]
  split
  · rw [takeWhile_before (by decide), takeWhile_before (by decide)]
  split
  · rename_i hblock
    cases a with
    | nil => simp at hblock
    | cons d a =>
      obtain ⟨rfl, rfl⟩ : c = '/' ∧ d = '*' := by simpa using hblock
      obtain ⟨n, hn⟩ : ∃ n, blockLength? a = some n := FeedIsCode.blockLength? h.step.step
      simp only [List.cons_append, List.tail_cons, blockLength?_append hn]
  · rw [readToken_before hpost h]

omit hpost in
/-- A lexeme ends before a line feed that is code, unless it is that. -/
theorem within_of_firstUse {use : Use} {n : Nat} (huse : firstUse line c (a ++ '\n' :: post) = .ok (use, n)) :
    n ≤ a.length := by
  have hfirst := takesFirst_of_firstUse huse
  rw [← Nat.not_lt]
  intro hlong
  obtain ⟨m, rfl⟩ := Nat.exists_eq_add_of_lt hlong
  have htake : (a ++ '\n' :: post).take (a.length + m + 1) = a ++ '\n' :: post.take m := by
    rw [Nat.add_assoc, List.take_length_add_append, List.take_succ_cons]
  have hcode : use.isCode = true := by
    rw [FeedIsCode, List.cons_append, hfirst.marks, htake] at h
    simpa using h
  have hfeed : '\n' ∈ c :: (a ++ '\n' :: post.take m) := by simp
  have hlexeme := hfirst.lexeme
  rw [htake, hcode] at hlexeme
  have hlength := congrArg List.length (hlexeme.eq_feed hfeed)
  simp at hlength

end

/-- What is read up to a line feed in code, or why it cannot be read, does not depend on what comes
after it. -/
theorem tokensFrom_before {post post' : List Char} (hpost : post.take 3 = post'.take 3) {a : List Char}
    (h : FeedIsCode .code a post) (line : Nat) :
    (∃ e, tokensFrom line 0 (a ++ '\n' :: post) = .error e ∧
      tokensFrom line 0 (a ++ '\n' :: post') = .error e) ∨
      ∃ ts, tokensFrom line 0 (a ++ '\n' :: post) =
        (tokensFrom (line + lineFeeds a + 1) 0 post).map (ts ++ ·) ∧
        tokensFrom line 0 (a ++ '\n' :: post') =
          (tokensFrom (line + lineFeeds a + 1) 0 post').map (ts ++ ·) := by
  induction hn : a.length using Nat.strongRecOn generalizing a line with
  | ind n ih =>
    subst hn
    cases a with
    | nil => exact .inr ⟨[], reads_feed line post, reads_feed line post'⟩
    | cons c a =>
      -- what is taken first is the same, and the scan is in code again where it ends
      have hsame : firstUse line c (a ++ '\n' :: post) = firstUse line c (a ++ '\n' :: post') :=
        firstUse_before hpost h
      rw [List.cons_append, List.cons_append, tokensFrom_first, tokensFrom_first, ← hsame]
      cases hfirst : firstUse line c (a ++ '\n' :: post) with
      | error e => exact .inl ⟨e, rfl, rfl⟩
      | ok found =>
        obtain ⟨use, n⟩ := found
        have hwithin := within_of_firstUse h hfirst
        have skip (post : List Char) : tokensFrom (lineAfter line c) n (a ++ '\n' :: post) =
            tokensFrom (line + lineFeeds (c :: a.take n)) 0 (a.drop n ++ '\n' :: post) := by
          rw [tokensFrom_drop _ _ _ (by simp; omega), lineAfter_add, drop_before hwithin,
            List.take_append_of_le_length hwithin]
        have hparts : c :: a.take n ++ a.drop n = c :: a := by rw [List.cons_append, List.take_append_drop]
        have hrest : FeedIsCode .code (a.drop n) post := by
          have hmarks := (takesFirst_of_firstUse hfirst).marks
          rw [drop_before hwithin, List.take_append_of_le_length hwithin, ← List.cons_append, ← hparts,
            List.append_assoc] at hmarks
          exact .append (map_fst_mark _ _) hmarks (hparts ▸ h)
        have hline : line + lineFeeds (c :: a.take n) + lineFeeds (a.drop n) = line + lineFeeds (c :: a) := by
          rw [← hparts, lineFeeds_append, Nat.add_assoc]
        have hshort : (a.drop n).length < (c :: a).length := by
          rw [List.length_drop, List.length_cons]
          omega
        rw [ok_bind, ok_bind]
        dsimp only
        rw [skip, skip, ← hline]
        rcases ih _ hshort hrest _ rfl with ⟨e, he, he'⟩ | ⟨ts, hts, hts'⟩
        · rw [he, he']
          exact .inl ⟨e, rfl, rfl⟩
        · rw [hts, hts']
          refine .inr ⟨use.token?.toList.map (⟨·, line⟩) ++ ts, ?_, ?_⟩
          · cases tokensFrom _ 0 post <;> simp [Except.map]
          · cases tokensFrom _ 0 post' <;> simp [Except.map]

end UpdaterBootstrap
