import UpdaterBootstrap.Proofs.Characters
import UpdaterBootstrap.Proofs.Outcome

/-!
# Pieces of quoted texts

Between quotes stand pieces: characters that stand for themselves, and escapes. The tokenizer reads
one piece after the other up to the first closing quotes, and fails where no piece may stand
(`readTextFrom_eq_ok_iff`).
-/

namespace UpdaterBootstrap

theorem readTextFrom_append (style : QuoteStyle) (start line : Nat) (a b : List Char) :
    readTextFrom style start line a.length (a ++ b) = readTextFrom style start line 0 b := by
  induction a with
  | nil => rfl
  | cons c a ih => simpa only [List.length_cons, List.cons_append, readTextFrom] using ih

/-! ## Closing quotes -/

namespace QuoteStyle

def marks (style : QuoteStyle) : List Char :=
  List.replicate (if style.tripled then 3 else 1) style.quote

theorem marks_eq (style : QuoteStyle) : style.marks = style.quote :: style.marks.tail := by
  obtain ⟨q, tripled⟩ := style
  cases tripled <;> rfl

def closes (style : QuoteStyle) (c : Char) (cs : List Char) : Bool :=
  c == style.quote && (!style.tripled || cs.take 2 == [c, c])

theorem closes_iff {style : QuoteStyle} {c : Char} {cs : List Char} :
    style.closes c cs = true ↔ style.marks <+: c :: cs := by
  obtain ⟨q, tripled⟩ := style
  by_cases hc : c = q
  · subst hc
    cases tripled with
    | false => simp [closes, marks, List.cons_prefix_cons]
    | true =>
      have htwo : cs.take 2 = [c, c] ↔ [c, c] <+: cs := by
        rw [List.prefix_iff_eq_take]
        exact eq_comm
      simp [closes, marks, List.replicate, List.cons_prefix_cons, htwo]
  · have hc' : q ≠ c := Ne.symm hc
    cases tripled <;> simp [closes, marks, List.replicate, List.cons_prefix_cons, hc, hc']

end QuoteStyle

theorem quote_ne_backslash {style : QuoteStyle} (hq : isQuote style.quote = true) : '\\' ≠ style.quote := by
  intro h
  rw [← h] at hq
  cases hq

theorem readTextFrom_marks (style : QuoteStyle) (start line : Nat) (rest : List Char) :
    readTextFrom style start line 0 (style.marks ++ rest) = .ok ([], style.marks.length) := by
  obtain ⟨q, tripled⟩ := style
  cases tripled <;> simp [QuoteStyle.marks, readTextFrom, List.replicate]

/-! ## Pieces -/

inductive TextPiece
  | plain (c : Char)
  | escape (letter value : Char)
  | continuation
  | number (digits : List Char) (value : Char)

namespace TextPiece

def chars : TextPiece → List Char
  | plain c => [c]
  | escape letter _ => ['\\', letter]
  | continuation => ['\\', '\n']
  | number digits _ => '\\' :: 'u' :: digits

def value : TextPiece → List Char
  | plain c | escape _ c | number _ c => [c]
  | continuation => []

def escapes : List (Char × Char) :=
  [('n', '\n'), ('t', '\t'), ('r', '\r'), ('b', '\x08'), ('f', '\x0c'), ('0', '\x00'), ('\\', '\\'),
    ('\'', '\''), ('"', '"'), ('$', '$')]

def IsFourDigits (digits : List Char) (c : Char) : Prop :=
  digits.length = 4 ∧ (∀ d ∈ digits, isHexDigit d = true) ∧ hexNumber digits = c.toNat

/-- The number of a character in four hexadecimal digits, or in three after a plus sign. -/
def IsNumber (digits : List Char) (c : Char) : Prop :=
  IsFourDigits digits c ∨
    ∃ ds, digits = '+' :: ds ∧ ds.length = 3 ∧ (∀ d ∈ ds, isHexDigit d = true) ∧ hexNumber ds = c.toNat

inductive Fits (isNumber : List Char → Char → Prop) (style : QuoteStyle) (next : List Char) : TextPiece → Prop
  | plain {c : Char} (hescape : c ≠ '\\') (hclose : ¬ style.marks <+: c :: next)
      (hline : c = '\n' → style.tripled = true)
      (hinsertion : c = '$' → style.quote = '"' → ∀ d ∈ next.head?, d ≠ '\x7b' ∧
      isAlphabetic d = false ∧ d ≠ '_') :
      Fits isNumber style next (.plain c)
  | escape {letter value : Char} (h : (letter, value) ∈ escapes) :
      Fits isNumber style next (.escape letter value)
  | continuation : Fits isNumber style next .continuation
  | number {digits : List Char} {value : Char} (h : isNumber digits value) :
      Fits isNumber style next (.number digits value)

def Fit (isNumber : List Char → Char → Prop) (style : QuoteStyle) (rest : List Char) : List TextPiece → Prop
  | [] => True
  | p :: ps => p.Fits isNumber style (ps.flatMap chars ++ (style.marks ++ rest)) ∧ Fit isNumber style rest ps

theorem chars_ne_nil (p : TextPiece) : p.chars ≠ [] := by
  cases p <;> simp [chars]

theorem Fits.mono {isNumber isNumber' : List Char → Char → Prop}
    (himp : ∀ ds c, isNumber ds c → isNumber' ds c)
    {style : QuoteStyle} {next : List Char} {p : TextPiece} (h : p.Fits isNumber style next) :
    p.Fits isNumber' style next := by
  cases h with
  | plain hescape hclose hline hinsertion => exact .plain hescape hclose hline hinsertion
  | escape h => exact .escape h
  | continuation => exact .continuation
  | number h => exact .number (himp _ _ h)

/-! ## Escapes -/

theorem shortEscape?_eq_some_iff {letter value : Char} :
    shortEscape? letter = some value ↔ (letter, value) ∈ escapes := by
  constructor
  · intro h
    unfold shortEscape? at h
    split at h <;> cases h <;> decide
  · intro h
    have all : ∀ p ∈ escapes, shortEscape? p.1 = some p.2 := by decide
    exact all _ h

theorem letter_of_escape {letter value : Char} (h : (letter, value) ∈ escapes) :
    letter ≠ '\n' ∧ letter ≠ 'u' := by
  have all : ∀ p ∈ escapes, p.1 ≠ '\n' ∧ p.1 ≠ 'u' := by decide
  exact all _ h

theorem ofNat_eq_some_iff {n : Nat} {c : Char} :
    (if n.isValidChar then some (Char.ofNat n) else none) = some c ↔ n = c.toNat := by
  constructor
  · intro h
    split at h
    · rename_i hn
      rw [← Option.some.inj h, Char.ofNat, dif_pos hn]
      rfl
    · cases h
  · rintro rfl
    have hc : c.toNat.isValidChar := c.valid
    rw [if_pos hc, Char.ofNat_toNat]

theorem codePoint?_eq_some_iff {digits : List Char} {c : Char} :
    codePoint? digits = some c ↔ IsNumber digits c := by
  -- what is asked of the digits does not depend on what stands in front of them
  have guarded (length : Nat) (ds : List Char) :
      (if length = 4 ∧ ds.all isHexDigit then
        if (hexNumber ds).isValidChar then some (Char.ofNat (hexNumber ds)) else none
      else none) = some c ↔ length = 4 ∧ (∀ d ∈ ds, isHexDigit d = true) ∧ hexNumber ds = c.toNat := by
    rw [← List.all_eq_true, ← ofNat_eq_some_iff]
    by_cases h : length = 4 ∧ ds.all isHexDigit = true
    · rw [if_pos h]
      simp only [h, true_and]
    · rw [if_neg h, ← and_assoc]
      simp only [h, reduceCtorEq, false_and]
  by_cases hhead : ∃ ds, digits = '+' :: ds
  · -- A plus sign is no digit, so only the second form is possible.
    obtain ⟨ds, rfl⟩ := hhead
    have hplus : isHexDigit '+' = false := by decide
    refine (guarded ('+' :: ds).length ds).trans ?_
    simp [IsNumber, IsFourDigits, hplus]
  · have hne : ∀ ds, digits = '+' :: ds → False := fun ds h => hhead ⟨ds, h⟩
    have hvalue : codePoint? digits = if digits.length = 4 ∧ digits.all isHexDigit then
        if (hexNumber digits).isValidChar then some (Char.ofNat (hexNumber digits)) else none
      else none := by
      simp [codePoint?]
    rw [hvalue, guarded]
    constructor
    · exact .inl
    · rintro (h | ⟨ds, rfl, -⟩)
      · exact h
      · exact absurd ⟨ds, rfl⟩ hhead

theorem IsNumber.length_eq {digits : List Char} {c : Char} (h : IsNumber digits c) : digits.length = 4 := by
  rcases h with h | ⟨ds, rfl, hlength, -⟩
  · exact h.1
  · rw [List.length_cons, hlength]

theorem IsNumber.isHexDigit_or_plus {digits : List Char} {c d : Char} (h : IsNumber digits c)
    (hd : d ∈ digits) :
    isHexDigit d = true ∨ d = '+' := by
  rcases h with h | ⟨ds, rfl, -, hdigits, -⟩
  · exact .inl (h.2.1 d hd)
  · rcases List.mem_cons.1 hd with rfl | hd
    · exact .inr rfl
    · exact .inl (hdigits d hd)

/-! ## Reading one piece -/

theorem startsInsertion_eq_false_iff {style : QuoteStyle} {next : List Char} :
    startsInsertion style next = false ↔
      (style.quote = '"' → ∀ d ∈ next.head?, d ≠ '\x7b' ∧ isAlphabetic d = false ∧ d ≠ '_') := by
  cases next with
  | nil => simp [startsInsertion]
  | cons d next =>
    by_cases hq : style.quote = '"' <;> simp [startsInsertion, hq, and_assoc]

section
variable {style : QuoteStyle} (hq : isQuote style.quote = true) {start line : Nat}
include hq

omit hq in
theorem readTextFrom_plain {c : Char} {next : List Char} (hp : (plain c).Fits IsNumber style next) :
    readTextFrom style start line 0 (c :: next) =
      (readTextFrom style start (line + lineFeeds [c]) 0 next).map (prepend c 1) := by
  cases hp with
  | plain hescape hclose hline hinsertion =>
    have hopen : style.closes c next = false := by
      rw [← Bool.not_eq_true, QuoteStyle.closes_iff]
      exact hclose
    have hsingle : (c == '\n' && !style.tripled) = false := by
      by_cases hc : c = '\n'
      · simp [hline hc]
      · simp [hc]
    have hconstant : (c == '$' && startsInsertion style next) = false := by
      by_cases hc : c = '$'
      · simp [startsInsertion_eq_false_iff.2 (hinsertion hc)]
      · simp [hc]
    have hlines : (if c == '\n' then line + 1 else line) = line + lineFeeds [c] := by
      by_cases hc : c = '\n' <;> simp [hc, lineFeeds]
    rw [readTextFrom]
    change (if style.closes c next = true then _ else _) = _
    rw [hopen, if_neg Bool.false_ne_true, hsingle, if_neg Bool.false_ne_true, if_neg (by simpa using hescape),
      hconstant, if_neg Bool.false_ne_true]
    dsimp only
    rw [hlines]

/-- What is read after a piece is read as it is on the line where the piece ends. -/
theorem readTextFrom_chars {p : TextPiece} {next : List Char} (hp : p.Fits IsNumber style next) :
    readTextFrom style start line 0 (p.chars ++ next) =
      (readTextFrom style start (line + lineFeeds p.chars) 0 next).map
        fun r => (p.value ++ r.1, p.chars.length + r.2) := by
  have hquote : ('\\' == style.quote) = false := beq_false_of_ne (quote_ne_backslash hq)
  have hfeed : ('\\' == '\n') = false := rfl
  cases hp with
  | plain hescape hclose hline hinsertion => exact readTextFrom_plain (.plain hescape hclose hline hinsertion)
  | @escape letter value h =>
    obtain ⟨hn, hu⟩ : letter ≠ '\n' ∧ letter ≠ 'u' := letter_of_escape h
    have hlines : lineFeeds ['\\', letter] = 0 := by simp [lineFeeds, hn]
    rw [chars, hlines]
    simp only [List.cons_append, List.nil_append, readTextFrom, hquote, hfeed, Bool.false_and,
      Bool.false_eq_true, if_false, beq_self_eq_true, if_true, List.head?_cons, shortEscape?_eq_some_iff.2 h]
    rfl
  | continuation =>
    simp only [chars, List.cons_append, List.nil_append, readTextFrom, hquote, hfeed, Bool.false_and,
      Bool.false_eq_true, if_false, beq_self_eq_true, if_true, List.head?_cons]
    rfl
  | @number digits value h =>
    have hlength := h.length_eq
    have hlines : lineFeeds ('\\' :: 'u' :: digits) = 0 := by
      have hdigits : '\n' ∉ digits := fun hd => by cases h.isHexDigit_or_plus hd <;> contradiction
      exact lineFeeds_eq_zero (by simp [hdigits])
    have htake : (digits ++ next).take 4 = digits := by rw [← hlength, List.take_left]
    have hskip := readTextFrom_append style start line ('u' :: digits) next
    rw [List.length_cons, hlength, List.cons_append] at hskip
    rw [chars, hlines, List.cons_append, List.cons_append, readTextFrom]
    simp only [hquote, hfeed, Bool.false_and, Bool.false_eq_true, if_false, beq_self_eq_true, if_true,
      List.head?_cons, List.tail_cons, htake, codePoint?_eq_some_iff.2 h, hskip, List.length_cons, hlength]
    rfl

theorem exists_escape {cs : List Char} {r : List Char × Nat}
    (h : readTextFrom style start line 0 ('\\' :: cs) = .ok r) :
    ∃ (p : TextPiece) (next : List Char), '\\' :: cs = p.chars ++ next ∧ p.Fits IsNumber style next := by
  have hquote : ('\\' == style.quote) = false := beq_false_of_ne (quote_ne_backslash hq)
  have hfeed : ('\\' == '\n') = false := rfl
  cases cs with
  | nil =>
    simp only [readTextFrom, hquote, hfeed, Bool.false_and, Bool.false_eq_true, if_false,
      beq_self_eq_true, if_true, List.head?_nil] at h
    cases h
  | cons d cs =>
    by_cases hn : d = '\n'
    · subst hn
      exact ⟨.continuation, cs, rfl, .continuation⟩
    simp only [readTextFrom, hquote, hfeed, Bool.false_and, Bool.false_eq_true, if_false,
      beq_self_eq_true, if_true, List.head?_cons, List.tail_cons] at h
    -- a line feed has been ruled out, so four digits or a letter follow
    split at h
    · cases h
    · rename_i hd
      exact absurd (Option.some.inj hd) hn
    · rename_i hd
      obtain rfl := Option.some.inj hd
      cases hcode : codePoint? (cs.take 4) with
      | none =>
        rw [hcode] at h
        cases h
      | some c =>
        refine ⟨.number (cs.take 4) c, cs.drop 4, ?_, .number (codePoint?_eq_some_iff.1 hcode)⟩
        rw [chars, List.cons_append, List.cons_append, List.take_append_drop]
    · rename_i e _ _ hd
      obtain rfl := Option.some.inj hd
      cases hshort : shortEscape? d with
      | none =>
        rw [hshort] at h
        cases h
      | some c => exact ⟨.escape d c, cs, rfl, .escape (shortEscape?_eq_some_iff.1 hshort)⟩

/-- A text that is read to its end is closed here or begins with a piece. -/
theorem exists_piece {cs : List Char} {r : List Char × Nat} (h : readTextFrom style start line 0 cs = .ok r) :
    style.marks <+: cs ∨
      ∃ (p : TextPiece) (next : List Char), cs = p.chars ++ next ∧ p.Fits IsNumber style next := by
  cases cs with
  | nil => cases h
  | cons c cs =>
    by_cases hescape : c = '\\'
    · subst hescape
      exact .inr (exists_escape hq h)
    by_cases hclose : style.closes c cs = true
    · exact .inl (QuoteStyle.closes_iff.1 hclose)
    refine .inr ⟨.plain c, cs, rfl, ?_⟩
    rw [readTextFrom] at h
    change (if style.closes c cs = true then _ else _) = _ at h
    rw [if_neg hclose] at h
    split at h
    · cases h
    rename_i hsingle
    rw [if_neg (by simpa using hescape)] at h
    split at h
    · cases h
    rename_i hconstant
    refine .plain hescape (fun hmarks => hclose (QuoteStyle.closes_iff.2 hmarks)) ?_ ?_
    · intro hc
      simpa [hc] using hsingle
    · intro hc
      refine startsInsertion_eq_false_iff.1 ?_
      simpa [hc] using hconstant

/-! ## Reading a text -/

theorem readTextFrom_of_fit {ps : List TextPiece} {rest : List Char} (h : Fit IsNumber style rest ps) :
    readTextFrom style start line 0 (ps.flatMap chars ++ (style.marks ++ rest)) =
      .ok (ps.flatMap value, (ps.flatMap chars).length + style.marks.length) := by
  induction ps generalizing line with
  | nil =>
    rw [List.flatMap_nil, List.nil_append, readTextFrom_marks]
    simp
  | cons p ps ih =>
    obtain ⟨hp, hps⟩ := h
    rw [List.flatMap_cons, List.flatMap_cons, List.append_assoc, readTextFrom_chars hq hp, ih hps,
      List.length_append, Nat.add_assoc]
    rfl

theorem exists_fit {cs : List Char} {r : List Char × Nat} (h : readTextFrom style start line 0 cs = .ok r) :
    ∃ (ps : List TextPiece) (rest : List Char),
      Fit IsNumber style rest ps ∧ cs = ps.flatMap chars ++ (style.marks ++ rest) := by
  induction hn : cs.length using Nat.strongRecOn generalizing line cs r with
  | ind n ih =>
    rcases exists_piece hq h with ⟨rest, rfl⟩ | ⟨p, next, rfl, hp⟩
    · exact ⟨[], rest, trivial, rfl⟩
    · rw [readTextFrom_chars hq hp] at h
      obtain ⟨r', hr', -⟩ := map_eq_ok.1 h
      have hlt : next.length < n := by
        rw [← hn, List.length_append]
        have := List.length_pos_iff.2 p.chars_ne_nil
        omega
      obtain ⟨ps, rest, hps, rfl⟩ := ih next.length hlt hr' rfl
      refine ⟨p :: ps, rest, ⟨hp, hps⟩, ?_⟩
      rw [List.flatMap_cons, List.append_assoc]

theorem readTextFrom_eq_ok_iff {cs : List Char} {r : List Char × Nat} :
    readTextFrom style start line 0 cs = .ok r ↔
      ∃ (ps : List TextPiece) (rest : List Char), Fit IsNumber style rest ps ∧
        cs = ps.flatMap chars ++ (style.marks ++ rest) ∧
        r = (ps.flatMap value, (ps.flatMap chars).length + style.marks.length) := by
  constructor
  · intro h
    obtain ⟨ps, rest, hps, rfl⟩ := exists_fit hq h
    rw [readTextFrom_of_fit hq hps] at h
    exact ⟨ps, rest, hps, rfl, (Except.ok.inj h).symm⟩
  · rintro ⟨ps, rest, hps, rfl, rfl⟩
    exact readTextFrom_of_fit hq hps

end

end TextPiece

end UpdaterBootstrap
