import UpdaterBootstrap.Proofs.TextLiteral

/-!
# Quoted texts

Where the tokenizer reads a quoted text to its end, the scan finds the same end: both pass over an
escape as a whole, and the four digits of a character number close nothing.
-/

namespace UpdaterBootstrap

def QuoteStyle.region (style : QuoteStyle) : Region :=
  if style.tripled then .tripled style.quote else .quoted style.quote

section
variable {style : QuoteStyle} (hq : isQuote style.quote = true)
include hq

omit hq in
theorem step_backslash (cs : List Char) :
    Reading.step ⟨0, style.region⟩ '\\' cs = (false, ⟨1, style.region⟩) := by
  unfold QuoteStyle.region
  split <;> rfl

theorem step_within {c : Char} {cs : List Char} (hc : c ≠ '\\') (h : style.closes c cs = false)
    (hn : c = '\n' → style.tripled = true) :
    Reading.step ⟨0, style.region⟩ c cs = (false, ⟨0, style.region⟩) := by
  obtain ⟨q, tripled⟩ := style
  cases tripled with
  | true =>
    have h' : (c == q && cs.take 2 == [q, q]) = false := by
      cases hcq : c == q with
      | false => rfl
      | true =>
        have := beq_iff_eq.1 hcq
        subst this
        simpa [QuoteStyle.closes] using h
    simp only [QuoteStyle.region, Reading.step, if_true, beq_iff_eq, hc, if_false, h',
      Bool.false_eq_true]
  | false =>
    have hcq : c ≠ q := by simpa [QuoteStyle.closes] using h
    have hcn : c ≠ '\n' := fun e => by simpa using hn e
    simp only [QuoteStyle.region, Reading.step, Bool.false_eq_true, if_false, beq_iff_eq, hc, hcq, hcn]

theorem markedFrom_marks (rest : List Char) :
    markedFrom ⟨0, style.region⟩ (style.marks ++ rest) = style.marks.map (·, false) ++
      markedFrom .code rest := by
  obtain ⟨q, tripled⟩ := style
  have hback : q ≠ '\\' := fun e => quote_ne_backslash hq e.symm
  cases tripled <;>
    simp [QuoteStyle.marks, QuoteStyle.region, List.replicate, markedFrom_cons, Reading.step,
      Reading.code, hback]

theorem isHexDigit_within {c : Char} (hc : isHexDigit c = true ∨ c = '+') (cs : List Char) :
    Reading.step ⟨0, style.region⟩ c cs = (false, ⟨0, style.region⟩) := by
  have ne : ∀ d, isHexDigit d = false → d ≠ '+' → c ≠ d := by
    rintro d hd hp rfl
    rcases hc with hc | hc
    · rw [hc] at hd; cases hd
    · exact hp hc
  have hcq : c ≠ style.quote := by
    simp only [isQuote, Bool.or_eq_true, beq_iff_eq] at hq
    rcases hq with hq | hq <;> rw [hq] <;> exact ne _ (by decide) (by decide)
  refine step_within hq (ne _ (by decide) (by decide)) ?_ fun e => absurd e (ne _ (by decide) (by decide))
  simp [QuoteStyle.closes, hcq]

theorem markedFrom_hexDigits {a : List Char} (h : ∀ c ∈ a, isHexDigit c = true ∨ c = '+')
    (b : List Char) :
    markedFrom ⟨0, style.region⟩ (a ++ b) = a.map (·, false) ++ markedFrom ⟨0, style.region⟩ b := by
  induction a with
  | nil => rfl
  | cons c a ih =>
    rw [List.cons_append, markedFrom_cons, isHexDigit_within hq (h c (by simp)),
      ih fun d hd => h d (by simp [hd])]
    rfl

end

theorem codePoint?_some {cs : List Char} {c : Char} (h : codePoint? cs = some c) :
    cs.length = 4 ∧ ∀ d ∈ cs, isHexDigit d = true ∨ d = '+' := by
  have hnumber := TextPiece.codePoint?_eq_some_iff.1 h
  exact ⟨hnumber.length_eq, fun d => hnumber.isHexDigit_or_plus⟩

section
variable {style : QuoteStyle} (hq : isQuote style.quote = true)
include hq

theorem markedFrom_chars {p : TextPiece} {next : List Char} (hp : p.Fits TextPiece.IsNumber style next) :
    markedFrom ⟨0, style.region⟩ (p.chars ++ next) =
      p.chars.map (·, false) ++ markedFrom ⟨0, style.region⟩ next := by
  have escaped (d : Char) (cs : List Char) : markedFrom ⟨0, style.region⟩ ('\\' :: d :: cs) =
      ['\\', d].map (·, false) ++ markedFrom ⟨0, style.region⟩ cs := by
    rw [markedFrom_cons, step_backslash, markedFrom_cons]
    rfl
  cases hp with
  | @plain c hescape hclose hline =>
    have hopen : style.closes c next = false := by
      rw [← Bool.not_eq_true, QuoteStyle.closes_iff]
      exact hclose
    rw [TextPiece.chars, List.singleton_append, markedFrom_cons, step_within hq hescape hopen hline]
    rfl
  | escape => exact escaped _ next
  | continuation => exact escaped _ next
  | @number digits value hnumber =>
    have hdigits := markedFrom_hexDigits hq (fun _ => hnumber.isHexDigit_or_plus) next
    refine (escaped 'u' (digits ++ next)).trans ?_
    rw [hdigits]
    rfl

/-- Neither the pieces of a text nor its closing quotes are code. -/
theorem markedFrom_fit {ps : List TextPiece} {rest : List Char}
    (h : TextPiece.Fit TextPiece.IsNumber style rest ps) :
    markedFrom ⟨0, style.region⟩ (ps.flatMap TextPiece.chars ++ (style.marks ++ rest)) =
      (ps.flatMap TextPiece.chars ++ style.marks).map (·, false) ++ markedFrom .code rest := by
  induction ps with
  | nil => exact markedFrom_marks hq rest
  | cons p ps ih =>
    rw [List.flatMap_cons, List.append_assoc, markedFrom_chars hq h.1, ih h.2]
    simp only [List.map_append, List.append_assoc]

end

theorem step_quote {q : Char} (hq : isQuote q = true) (cs : List Char) :
    Reading.code.step q cs = (false, if cs.take 2 == [q, q] then ⟨2, .tripled q⟩ else ⟨0, .quoted q⟩) := by
  have hs : q ≠ '/' := ne_of_class hq (by decide)
  have hq' : (q == '\'' || q == '"') = true := hq
  simp only [Reading.step, Reading.code, beq_iff_eq, hs, Bool.and_eq_true, false_and, if_false, hq', if_true]
  split <;> rfl

theorem markedFrom_opened {q : Char} (hq : isQuote q = true) {cs body : List Char}
    (h : cs = (QuoteStyle.opened q cs).marks.tail ++ body) :
    markedFrom .code (q :: cs) = (QuoteStyle.opened q cs).marks.map (·, false) ++
      markedFrom ⟨0, (QuoteStyle.opened q cs).region⟩ body := by
  rw [markedFrom_cons, step_quote hq]
  unfold QuoteStyle.opened at *
  cases htripled : cs.take 2 == [q, q] with
  | true =>
    rw [htripled] at h
    rw [h]
    rfl
  | false =>
    rw [htripled] at h
    rw [h]
    rfl

/-- The characters that a quoted text takes are no code. -/
theorem markedFrom_readText {line n : Nat} {q : Char} {cs : List Char} {t : Token} (hq : isQuote q = true)
    (h : readText line q cs = .ok (t, n)) :
    (∃ s, t = .text s) ∧ ∃ m, n = m + 1 ∧ m ≤ cs.length ∧
      markedFrom .code (q :: cs) = (q :: cs.take m).map (·, false) ++ markedFrom .code (cs.drop m) := by
  obtain ⟨ps, rest, hliteral, heq⟩ := (TextPiece.readText_eq_ok_iff hq).1 h
  obtain ⟨rfl, rfl⟩ := Prod.mk.inj heq
  have hmarks := markedFrom_opened hq hliteral.text
  rw [markedFrom_fit hq hliteral.fit] at hmarks
  obtain ⟨taken, htaken⟩ : ∃ taken, taken = (QuoteStyle.opened q cs).marks.tail ++
    (ps.flatMap TextPiece.chars ++ (QuoteStyle.opened q cs).marks) := ⟨_, rfl⟩
  have htext : cs = taken ++ rest := by
    rw [htaken, List.append_assoc, List.append_assoc]
    exact hliteral.text
  have hlength : cs.length = taken.length + rest.length := by rw [htext, List.length_append]
  have htake : cs.take taken.length = taken := by rw [htext, List.take_left]
  have hdrop : cs.drop taken.length = rest := by rw [htext, List.drop_left]
  refine ⟨⟨_, rfl⟩, taken.length, by omega, by omega, ?_⟩
  have hquote : q :: (QuoteStyle.opened q cs).marks.tail = (QuoteStyle.opened q cs).marks :=
    (QuoteStyle.opened q cs).marks_eq.symm
  rw [hmarks, htake, hdrop, htaken, ← List.cons_append, hquote]
  simp

end UpdaterBootstrap
