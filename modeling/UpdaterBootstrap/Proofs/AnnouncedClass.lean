import UpdaterBootstrap.Proofs.DeclaredClass
import UpdaterBootstrap.Proofs.PartWords
import UpdaterBootstrap.Proofs.SameCode

/-!
# Class headers among the parts of a text

In a text that the tokenizer accepts, a class header is found where a word `class` stands that is
joined to nothing before it, and nothing but blanks stand between it and another word. The first
such word is the name of the class (`declaredClass?_parts`).
-/

namespace UpdaterBootstrap

/-- The words that follow a word `class` after blanks; `joined` says whether the first part is
joined to one before it. -/
def announced (joined : Bool) : List Part → List String
  | [] => []
  | p :: ps =>
    (if p.word? = some "class" ∧ joined = false then (nextWord? ps).toList else []) ++
      announced p.joins ps

/-! ## Characters that announce nothing -/

/-- No keyword begins among the characters, whatever follows them. -/
def quiet : Bool → List Char → Bool
  | _, [] => true
  | inWord, c :: cs => (c != 'c' || inWord) && quiet (isIdentPart c || c == '.') cs

theorem classHeaderFrom_quiet {inWord : Bool} {a : List Char} (h : quiet inWord a = true) (offset : Nat)
    (ms : List Marked) :
    classHeaderFrom offset inWord (a.map (·, true) ++ ms) =
      classHeaderFrom (offset + byteLength a) (wordAfter inWord a) ms := by
  induction a generalizing offset inWord with
  | nil => rfl
  | cons c a ih =>
    rw [quiet, Bool.and_eq_true] at h
    have hkeyword : (true && c == 'c' && !inWord) = false := by
      have hc := h.1
      cases inWord with
      | true => rw [Bool.not_true, Bool.and_false]
      | false =>
        rw [Bool.or_false, bne_iff_ne] at hc
        rw [beq_false_of_ne hc]
        rfl
    rw [List.map_cons, List.cons_append, classHeaderFrom_cons, hkeyword, if_neg Bool.false_ne_true,
      byteLength_cons, ← Nat.add_assoc, wordAfter_cons]
    exact ih h.2 _

/-- After a word nothing in a longer word is a keyword. -/
theorem quiet_word {a : List Char} (h : ∀ c ∈ a, isIdentPart c = true) :
    quiet true a = true ∧ wordAfter true a = true := by
  induction a with
  | nil => exact ⟨rfl, rfl⟩
  | cons c a ih =>
    obtain ⟨hc, ha⟩ := List.forall_mem_cons.1 h
    obtain ⟨hquiet, hafter⟩ := ih ha
    rw [quiet, wordAfter_cons, hc, Bool.true_or, hquiet, hafter, Bool.or_true]
    exact ⟨rfl, rfl⟩

theorem lt_of_isAlpha {c : Char} (h : c.isAlpha = true) : c.toNat < 0x80 := by
  have bound {d : Char} (hle : c.val ≤ d.val) (hd : d.toNat < 0x80) : c.toNat < 0x80 :=
    Nat.lt_of_le_of_lt (UInt32.le_iff_toNat_le.1 hle) hd
  rcases Bool.or_eq_true_iff.1 h with hupper | hlower
  · exact bound (of_decide_eq_true hupper).2 (by decide)
  · exact bound (of_decide_eq_true (Bool.and_eq_true_iff.1 hlower).2) (by decide)

/-- What a number is made of but for signs and points belongs to words as well. -/
theorem isIdentPart_of_isFigure {c : Char} (h : isFigure c = true) : (isIdentPart c || c == '.') = true := by
  simp only [isFigure, Char.isAlphanum, Bool.or_eq_true] at h
  simp only [isIdentPart, isAlphanumeric, isAlphabetic, isNumeric, Bool.or_eq_true]
  rcases h with ((h | h) | h) | h
  · rw [if_pos (lt_of_isAlpha h)]
    exact .inl (.inl (.inl (.inl h)))
  · have hdigit := Char.isDigit_iff_toNat.1 h
    simp only [Char.reduceToNat] at hdigit
    have hsmall : c.toNat < 0x80 := by omega
    rw [if_pos hsmall, if_pos hsmall]
    exact .inl (.inl (.inl (.inr h)))
  · exact .inl (.inl (.inr h))
  · exact .inr h

/-- A number ends in a character of words, and each sign in it stands before a digit. -/
theorem quiet_number {inWord : Bool} {c : Char} {a : List Char} (hc : c ≠ 'c' ∨ inWord = true)
    (hnumeral : ∀ d ∈ c :: a, isNumeral d = true) (hsigns : signsBound (c :: a) = true) :
    quiet inWord (c :: a) = true ∧ wordAfter inWord (c :: a) = true := by
  induction a generalizing c inWord with
  | nil =>
    obtain ⟨hc', -⟩ := List.forall_mem_cons.1 hnumeral
    have hsign : isSign c = false := by simpa [signsBound] using hsigns
    rw [isNumeral_eq, hsign, Bool.or_false] at hc'
    rw [wordAfter_cons, isIdentPart_of_isFigure hc', quiet]
    refine ⟨?_, rfl⟩
    rw [Bool.and_eq_true, Bool.or_eq_true, bne_iff_ne]
    exact ⟨hc, rfl⟩
  | cons d a ih =>
    obtain ⟨hc', hmore⟩ := List.forall_mem_cons.1 hnumeral
    rw [signsBound, Bool.and_eq_true] at hsigns
    have hd : d ≠ 'c' ∨ (isIdentPart c || c == '.') = true := by
      cases hsign : isSign c with
      | false =>
        rw [isNumeral_eq, hsign, Bool.or_false] at hc'
        exact .inr (isIdentPart_of_isFigure hc')
      | true =>
        have hdigit : d.isDigit = true := by simpa [hsign] using hsigns.1
        exact .inl (ne_of_class hdigit (by decide))
    obtain ⟨hquiet, hafter⟩ := ih hd hmore hsigns.2
    rw [quiet, wordAfter_cons, hquiet, hafter, Bool.and_true, Bool.or_eq_true, bne_iff_ne]
    exact ⟨hc, rfl⟩

theorem quiet_single {inWord : Bool} {c : Char} (h : c ≠ 'c') : quiet inWord [c] = true := by
  rw [quiet, bne_iff_ne.2 h]
  rfl

/-! ## The first announcement -/

section
variable {c : Char} {cs : List Char} {use : Use} {n : Nat} (h : TakesFirst c cs use n)
include h

theorem TakesFirst.declaredClass?_quiet (hcode : use.isCode = true) {inWord : Bool}
    (hquiet : quiet inWord (c :: cs.take n) = true) :
    declaredClass? inWord .code (c :: cs) =
      declaredClass? (wordAfter inWord (c :: cs.take n)) .code (cs.drop n) := by
  unfold declaredClass?
  rw [h.marks, hcode, classHeaderFrom_quiet hquiet]
  exact map_name_classHeaderFrom _ _ _ _

theorem TakesFirst.declaredClass?_hidden (hcode : use.isCode = false) (inWord : Bool) :
    declaredClass? inWord .code (c :: cs) =
      declaredClass? (wordAfter inWord (c :: cs.take n)) .code (cs.drop n) := by
  unfold declaredClass?
  rw [h.marks, hcode, classHeaderFrom_hidden]
  exact map_name_classHeaderFrom _ _ _ _

/-- No word is joined to a comment or a quoted text. -/
theorem TakesFirst.wordAfter_hidden (hcode : use.isCode = false) {d : Char} (hd : (cs.drop n).head? = some d)
    (hpart : isIdentPart d = true) (inWord : Bool) : wordAfter inWord (c :: cs.take n) = false := by
  obtain ⟨rest, hrest⟩ := List.head?_eq_some_iff.1 hd
  have hbordered := bordered_markedFrom (Reading.reached_code (c :: cs))
  rw [h.marks, hcode, hrest, markedFrom_cons, step_inert (isInert_of_isIdentPart hpart)] at hbordered
  exact (hbordered.last_mark (List.cons_ne_nil _ _) (ne_of_class hpart (by decide))).wordAfter inWord

end

/-- After the first letter of a word `class` its name is declared, and after that of another word
nothing is. -/
theorem declaredAfter?_word {a rest : List Char} (ha : ∀ c ∈ a, isIdentPart c = true)
    (hends : EndsWord rest) :
    declaredAfter? (a ++ rest) = if a = "lass".toList then declaredName? rest else none := by
  unfold declaredAfter?
  by_cases hkeyword : (a ++ rest).take 4 = "lass".toList
  · rw [if_pos (by simpa using hkeyword)]
    have hparts : a ++ rest = "lass".toList ++ (a ++ rest).drop 4 := by rw [← hkeyword, List.take_append_drop]
    generalize (a ++ rest).drop 4 = t at hparts ⊢
    have hletters : ∀ c ∈ "lass".toList, isIdentPart c = true := List.all_eq_true.1 (by decide)
    have hword : a = "lass".toList ++ t.takeWhile isIdentPart := by
      rw [← List.takeWhile_append_of_pos hletters, ← hparts, takeWhile_append_of_ends ha hends]
    -- the letters may begin a longer word, and then no blank follows them
    cases ht : t.takeWhile isIdentPart with
    | nil =>
      rw [ht, List.append_nil] at hword
      rw [hword, List.append_cancel_left_eq] at hparts
      rw [if_pos hword, hparts]
    | cons d ds =>
      have hne : a ≠ "lass".toList := by
        rw [hword, ht]
        exact fun h => List.cons_ne_nil d ds (List.append_right_eq_self.1 h)
      obtain ⟨t', rfl⟩ : ∃ t', t = d :: t' := by
        have hfront := List.takeWhile_prefix (l := t) isIdentPart
        rw [ht] at hfront
        obtain ⟨t', rfl⟩ := hfront
        exact ⟨ds ++ t', rfl⟩
      have hd : isIdentPart d = true := by
        have hmem : d ∈ (d :: t').takeWhile isIdentPart := by rw [ht]; exact List.mem_cons_self
        exact List.all_eq_true.1 List.all_takeWhile d hmem
      rw [if_neg hne, declaredName?, List.takeWhile_cons_of_neg (by simp [isBlank_of_isIdentPart hd])]
      rfl
  · rw [if_neg (by simpa using hkeyword), if_neg]
    rintro rfl
    exact hkeyword rfl

/-- In a word that is joined to something before it nothing is declared. -/
theorem declaredClass?_joined {a : List Char} (ha : ∀ c ∈ a, isIdentPart c = true) (rest : List Char) :
    declaredClass? true .code (a ++ rest) = declaredClass? true .code rest := by
  obtain ⟨hquiet, hafter⟩ := quiet_word ha
  unfold declaredClass?
  rw [markedFrom_inert fun c hc => isInert_of_isIdentPart (ha c hc), classHeaderFrom_quiet hquiet, hafter]
  exact map_name_classHeaderFrom _ _ _ _

/-- A word that is joined to nothing declares a class if it is the keyword. -/
theorem declaredClass?_word {c : Char} {a rest : List Char} (hword : isWord (c :: a) = true)
    (hends : EndsWord rest) {line : Nat} {ps : List Part} (hps : partsFrom line 0 rest = .ok ps) :
    declaredClass? false .code (c :: (a ++ rest)) =
      (if String.ofList (c :: a) = "class" then nextWord? ps else none).or
        (declaredClass? true .code rest) := by
  obtain ⟨hstart, ha⟩ := isWord_cons.1 hword
  have hpart := isIdentPart_of_isIdentStart hstart
  have hkeyword : String.ofList (c :: a) = "class" ↔ c = 'c' ∧ a = "lass".toList := by
    rw [← String.toList_inj, String.toList_ofList]
    exact List.cons_eq_cons
  rw [declaredClass?_cons, step_inert (isInert_of_isIdentPart hpart), hpart, Bool.true_or,
    declaredClass?_joined ha, declaredAfter?_word ha hends]
  congr 1
  by_cases hc : c = 'c'
  · by_cases hlass : a = "lass".toList
    · rw [if_pos (hkeyword.2 ⟨hc, hlass⟩), if_pos hlass, hc]
      exact declaredName?_parts hps hends
    · rw [if_neg fun h => hlass (hkeyword.1 h).2, if_neg hlass, ite_self]
      rfl
  · rw [if_neg fun h => hc (hkeyword.1 h).1, beq_false_of_ne hc]
    rfl

theorem announced_of_joined {p : Part} {joined : Bool} (h : p.word? ≠ none → joined = true) (ps : List Part) :
    announced joined (p :: ps) = announced p.joins ps := by
  rw [announced, if_neg, List.nil_append]
  rintro ⟨hword, hfree⟩
  rw [h (by rw [hword]; exact nofun)] at hfree
  cases hfree

theorem head?_announced_free (p : Part) (ps : List Part) :
    (announced false (p :: ps)).head? =
      (if p.word? = some "class" then nextWord? ps else none).or (announced p.joins ps).head? := by
  rw [announced]
  by_cases hword : p.word? = some "class"
  · rw [if_pos ⟨hword, rfl⟩, if_pos hword]
    cases nextWord? ps <;> rfl
  · rw [if_neg fun h => hword h.1, if_neg hword]
    rfl

theorem endsWord_dropWhile (cs : List Char) : EndsWord (cs.dropWhile isIdentPart) := by
  intro c hc
  have := List.head?_dropWhile_not isIdentPart cs
  rw [hc] at this
  simpa using this

/-- What is taken first is a word, or it announces nothing and tells whether a word after it is
joined. -/
theorem Taken.word_or_passed {c : Char} {cs : List Char} {use : Use} {n : Nat} (htaken : Taken c cs use n)
    (hfirst : TakesFirst c cs use n) (line : Nat) (inWord : Bool) :
    (isIdentStart c = true ∧ use = .token (.word (.ofList (c :: cs.takeWhile isIdentPart))) ∧
        n = (cs.takeWhile isIdentPart).length) ∨
      Part.word? ⟨use, line, c :: cs.take n⟩ = none ∧
        ∃ w, declaredClass? inWord .code (c :: cs) = declaredClass? w .code (cs.drop n) ∧
          ∀ d, (cs.drop n).head? = some d → isIdentPart d = true →
            w = Part.joins ⟨use, line, c :: cs.take n⟩ := by
  cases htaken with
  | word hstart => exact .inl ⟨hstart, rfl, rfl⟩
  | blank hblank =>
    have hquiet : quiet inWord (c :: cs.take 0) = true := quiet_single (ne_of_class hblank (by decide))
    refine .inr ⟨rfl, _, hfirst.declaredClass?_quiet rfl hquiet, fun _ _ _ => ?_⟩
    rw [wordAfter_cons, isIdentPart_of_isBlank hblank, beq_false_of_ne (ne_of_class hblank (by decide))]
    rfl
  | comment =>
    exact .inr ⟨rfl, _, hfirst.declaredClass?_hidden rfl inWord,
      fun _ hd hpart => hfirst.wordAfter_hidden rfl hd hpart _⟩
  | text =>
    exact .inr ⟨rfl, _, hfirst.declaredClass?_hidden rfl inWord,
      fun _ hd hpart => hfirst.wordAfter_hidden rfl hd hpart _⟩
  | integer hdigit hnumerals =>
    obtain ⟨hquiet, hafter⟩ :=
      quiet_number (.inl (ne_of_class hdigit (by decide))) hnumerals.2.1 hnumerals.2.2
    exact .inr ⟨rfl, _, hfirst.declaredClass?_quiet rfl hquiet, fun _ _ _ => hafter⟩
  | decimal hdigit hnumerals =>
    obtain ⟨hquiet, hafter⟩ :=
      quiet_number (.inl (ne_of_class hdigit (by decide))) hnumerals.2.1 hnumerals.2.2
    exact .inr ⟨rfl, _, hfirst.declaredClass?_quiet rfl hquiet, fun _ _ _ => hafter⟩
  | symbol hsymbol =>
    have hquiet : quiet inWord (c :: cs.take 0) = true := quiet_single (ne_of_class hsymbol (by decide))
    refine .inr ⟨rfl, _, hfirst.declaredClass?_quiet rfl hquiet, fun _ _ _ => ?_⟩
    rw [wordAfter_cons, isIdentPart_of_isSymbol hsymbol]
    rfl

theorem declaredClass?_announced {c : Char} {cs : List Char} (hstart : isIdentStart c = true)
    {line : Nat} {ps : List Part} (hps : partsFrom line 0 (cs.dropWhile isIdentPart) = .ok ps)
    (hlater : declaredClass? true .code (cs.dropWhile isIdentPart) = (announced false ps).head?)
    (inWord : Bool) (p : Part)
    (hp : p.use = .token (.word (.ofList (c :: cs.takeWhile isIdentPart)))) :
    declaredClass? inWord .code (c :: cs) = (announced inWord (p :: ps)).head? := by
  have hw : ∀ d ∈ cs.takeWhile isIdentPart, isIdentPart d = true := List.all_eq_true.1 List.all_takeWhile
  have hsplit : c :: cs = c :: (cs.takeWhile isIdentPart ++ cs.dropWhile isIdentPart) := by
    rw [List.takeWhile_append_dropWhile]
  have hword : p.word? = some (.ofList (c :: cs.takeWhile isIdentPart)) := by rw [Part.word?, hp]; rfl
  have hjoins : p.joins = false := by rw [Part.joins, hp]; rfl
  rw [hsplit]
  cases inWord with
  | true =>
    have hall : ∀ d ∈ c :: cs.takeWhile isIdentPart, isIdentPart d = true :=
      List.forall_mem_cons.2 ⟨isIdentPart_of_isIdentStart hstart, hw⟩
    rw [announced_of_joined fun _ => rfl, ← List.cons_append, declaredClass?_joined hall, hjoins]
    exact hlater
  | false =>
    rw [declaredClass?_word (isWord_cons.2 ⟨hstart, hw⟩) (endsWord_dropWhile cs) hps, hlater,
      head?_announced_free, hword, hjoins]
    simp only [Option.some.injEq]

/-- The scan finds the first word that is announced. What was read before counts for a word only. -/
theorem declaredClass?_parts {line : Nat} {cs : List Char} {ps : List Part} (h : partsFrom line 0 cs = .ok ps)
    {inWord joined : Bool} (hjoined : ∀ c, cs.head? = some c → isIdentPart c = true → inWord = joined) :
    declaredClass? inWord .code cs = (announced joined ps).head? := by
  -- On the length of the text, since each part is taken off whole. What is carried over is
  -- whether a word that comes next is joined: `inWord` and `joined` need agree only then.
  induction hn : cs.length using Nat.strongRecOn generalizing line cs ps inWord joined with
  | ind m ih =>
    subst hn
    cases cs with
    | nil =>
      obtain rfl := Except.ok.inj h
      rfl
    | cons c cs =>
      obtain ⟨use, n, line', ps', rfl, huse, hps'⟩ := partsFrom_cons h
      have hlength : (cs.drop n).length < (c :: cs).length := by
        rw [List.length_drop, List.length_cons]
        omega
      have later {w j : Bool} (hw : ∀ d, (cs.drop n).head? = some d → isIdentPart d = true → w = j) :
          declaredClass? w .code (cs.drop n) = (announced j ps').head? :=
        ih _ hlength hps' hw rfl
      rcases (taken_of_firstUse huse).word_or_passed (takesFirst_of_firstUse huse) line inWord with
        ⟨hstart, rfl, rfl⟩ | ⟨hnone, w, hpassed, hw⟩
      · obtain rfl := hjoined c rfl (isIdentPart_of_isIdentStart hstart)
        rw [drop_length_takeWhile] at hps' later
        have hends := endsWord_dropWhile cs
        exact declaredClass?_announced hstart hps'
          (later fun d hd hpart => by rw [hends d hd] at hpart; cases hpart)
          inWord _ rfl
      · rw [announced_of_joined (absurd hnone), hpassed]
        exact later hw

end UpdaterBootstrap
