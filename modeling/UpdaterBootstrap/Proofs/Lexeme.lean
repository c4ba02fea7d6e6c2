import UpdaterBootstrap.Proofs.Numeral
import UpdaterBootstrap.Proofs.Quoted

/-!
# One lexeme at a time

Where the tokenizer accepts a text, it takes one lexeme off its front: a blank, a comment or the
characters of one token. The scan for annotations reads the same characters as code or not code and
stands in code again after them, so both readings go through a text in step (`tokensFrom_cons`).
-/

namespace UpdaterBootstrap

/-- What the tokenizer takes at once: characters, their token if they stand for one, and whether
they are code. -/
inductive Lexeme : List Char → Option Token → Bool → Prop
  | blank {c : Char} (h : isBlank c = true) : Lexeme [c] none true
  | lineComment {cs : List Char} (h : ∀ c ∈ cs, c ≠ '\n') : Lexeme ('/' :: '/' :: cs) none false
  | blockComment {cs : List Char} : Lexeme ('/' :: '*' :: cs) none false
  | word {c : Char} {cs : List Char} (h : isIdentStart c = true) (hs : ∀ d ∈ cs, isIdentPart d = true) :
      Lexeme (c :: cs) (some (.word (.ofList (c :: cs)))) true
  | integer {cs : List Char} {n : Int64} (hne : cs ≠ []) (h : ∀ c ∈ cs, isNumeral c = true) :
      Lexeme cs (some (.integer n)) true
  | decimal {cs : List Char} {x : Float} (hne : cs ≠ []) (h : ∀ c ∈ cs, isNumeral c = true) :
      Lexeme cs (some (.decimal x)) true
  | text {q : Char} {cs : List Char} {s : String} (h : isQuote q = true) :
      Lexeme (q :: cs) (some (.text s)) false
  | symbol {c : Char} (h : isSymbol c = true) : Lexeme [c] (some (.symbol c)) true

theorem Lexeme.ne_nil {cs : List Char} {t : Option Token} {code : Bool} (h : Lexeme cs t code) :
    cs ≠ [] := by
  cases h with
  | integer hne _ => exact hne
  | decimal hne _ => exact hne
  | _ => simp

/-! ## Skipping what a lexeme takes -/

theorem lineFeeds_cons (c : Char) (cs : List Char) :
    lineFeeds (c :: cs) = lineFeeds cs + if c = '\n' then 1 else 0 := by
  simp only [lineFeeds, List.count_cons, beq_iff_eq]

theorem lineFeeds_append (a b : List Char) : lineFeeds (a ++ b) = lineFeeds a + lineFeeds b :=
  List.count_append

theorem tokensFrom_append (line : Nat) (a b : List Char) :
    tokensFrom line a.length (a ++ b) = tokensFrom (line + lineFeeds a) 0 b := by
  induction a generalizing line with
  | nil => rfl
  | cons c a ih =>
    simp only [List.length_cons, List.cons_append, tokensFrom, lineFeeds_cons, beq_iff_eq]
    rw [ih]
    congr 1
    split <;> omega

theorem tokensFrom_drop (line n : Nat) (cs : List Char) (h : n ≤ cs.length) :
    tokensFrom line n cs = tokensFrom (line + lineFeeds (cs.take n)) 0 (cs.drop n) := by
  have := tokensFrom_append line (cs.take n) (cs.drop n)
  rwa [List.take_append_drop, List.length_take, Nat.min_eq_left h] at this

/-! ## Comments -/

theorem markedFrom_blockComment {cs : List Char} {n : Nat} (h : blockLength? cs = some n) :
    n ≤ cs.length ∧ markedFrom ⟨0, .blockComment⟩ cs =
      (cs.take n).map (·, false) ++ markedFrom .code (cs.drop n) := by
  induction cs generalizing n with
  | nil => simp [blockLength?] at h
  | cons c cs ih =>
    simp only [blockLength?] at h
    rw [markedFrom_cons]
    simp only [Reading.step]
    split at h
    · rename_i hc
      obtain rfl : 2 = n := by simpa using h
      simp only [Bool.and_eq_true, beq_iff_eq] at hc
      cases cs with
      | nil => simp at hc
      | cons d cs =>
        have hd : d = '/' := by simpa using hc.2
        simp only [hc.1, hd, beq_self_eq_true, List.head?_cons, Bool.and_self, if_true]
        exact ⟨by simp, rfl⟩
    · rename_i hc
      obtain ⟨m, hm, rfl⟩ := Option.map_eq_some_iff.1 h
      obtain ⟨hle, ih⟩ := ih hm
      simp only [hc, if_false, Bool.false_eq_true]
      refine ⟨by simpa using hle, ?_⟩
      rw [ih]
      rfl

/-! ## What is taken first -/

inductive Use
  | blank
  | comment
  | token (t : Token)

def Use.token? : Use → Option Token
  | .token t => some t
  | .blank | .comment => none

def Use.isCode : Use → Bool
  | .comment | .token (.text _) => false
  | _ => true

/-- What the tokenizer takes `c` for, and how many characters after it belong to the same. -/
def firstUse (line : Nat) (c : Char) (cs : List Char) : Except UnitError (Use × Nat) :=
  if isBlank c then .ok (.blank, 0)
  else if c == '/' && cs.head? == some '/' then .ok (.comment, (cs.takeWhile (· != '\n')).length)
  else if c == '/' && cs.head? == some '*' then
    match blockLength? cs.tail with
    | some n => .ok (.comment, n + 1)
    | none => .error ⟨line, .openComment⟩
  else (readToken line c cs).map fun (t, n) => (.token t, n - 1)

def lineAfter (line : Nat) (c : Char) : Nat :=
  if c == '\n' then line + 1 else line

theorem lineAfter_add (line : Nat) (c : Char) (cs : List Char) :
    lineAfter line c + lineFeeds cs = line + lineFeeds (c :: cs) := by
  unfold lineAfter
  rw [lineFeeds_cons]
  by_cases hc : c = '\n'
  · simp only [hc, beq_self_eq_true, if_true]
    omega
  · simp [hc]

/-- The tokenizer goes from one use to the next. -/
theorem tokensFrom_first (line : Nat) (c : Char) (cs : List Char) :
    tokensFrom line 0 (c :: cs) = firstUse line c cs >>= fun p =>
      (tokensFrom (lineAfter line c) p.2 cs).map (p.1.token?.toList.map (⟨·, line⟩) ++ ·) := by
  have nothing (x : Except UnitError (List Placed)) : x = x.map ([] ++ ·) := by
    cases x <;> rfl
  rw [tokensFrom]
  unfold firstUse
  dsimp only
  split
  · exact nothing _
  split
  · exact nothing _
  split
  · cases blockLength? cs.tail with
    | none => rfl
    | some n => exact nothing _
  cases readToken line c cs with
  | error e => rfl
  | ok p =>
    obtain ⟨t, n⟩ := p
    change (tokensFrom (lineAfter line c) (n - 1) cs >>= fun rest => pure (⟨t, line⟩ :: rest)) =
      (tokensFrom (lineAfter line c) (n - 1) cs).map (⟨t, line⟩ :: ·)
    cases tokensFrom (lineAfter line c) (n - 1) cs <;> rfl

structure TakesFirst (c : Char) (cs : List Char) (use : Use) (n : Nat) : Prop where
  within : n ≤ cs.length
  lexeme : Lexeme (c :: cs.take n) use.token? use.isCode
  marks : markedFrom .code (c :: cs) =
    (c :: cs.take n).map (·, use.isCode) ++ markedFrom .code (cs.drop n)

theorem take_length_takeWhile (p : Char → Bool) (cs : List Char) :
    cs.take (cs.takeWhile p).length = cs.takeWhile p :=
  (List.prefix_iff_eq_take.1 (List.takeWhile_prefix p)).symm

theorem drop_length_takeWhile (p : Char → Bool) (cs : List Char) :
    cs.drop (cs.takeWhile p).length = cs.dropWhile p := by
  have : (cs.takeWhile p ++ cs.dropWhile p).drop (cs.takeWhile p).length = cs.dropWhile p := List.drop_left
  rwa [List.takeWhile_append_dropWhile] at this

theorem takesFirst_lineComment (cs : List Char) :
    TakesFirst '/' ('/' :: cs) .comment (('/' :: cs).takeWhile (· != '\n')).length := by
  have ht : ('/' :: cs).takeWhile (· != '\n') = '/' :: cs.takeWhile (· != '\n') := rfl
  have hno : ∀ c ∈ cs.takeWhile (· != '\n'), c ≠ '\n' := fun c hc => by
    simpa using List.all_eq_true.1 List.all_takeWhile c hc
  have hend : ∀ c, (cs.dropWhile (· != '\n')).head? = some c → c = '\n' := fun c hc => by
    have := List.head?_dropWhile_not (· != '\n') cs
    rw [hc] at this
    simpa using this
  refine ⟨(List.takeWhile_prefix _).length_le, ?_, ?_⟩
  · rw [take_length_takeWhile, ht]
    exact .lineComment hno
  · rw [take_length_takeWhile, ht, List.length_cons, List.drop_succ_cons, drop_length_takeWhile,
      markedFrom_cons]
    have := markedFrom_lineComment hno hend
    rw [List.takeWhile_append_dropWhile] at this
    rw [List.map_cons, List.map_cons, List.cons_append, List.cons_append]
    exact congrArg (fun ms => ('/', false) :: ('/', false) :: ms) this

theorem takesFirst_blockComment {cs : List Char} {n : Nat} (h : blockLength? cs = some n) :
    TakesFirst '/' ('*' :: cs) .comment (n + 1) := by
  obtain ⟨hle, hm⟩ := markedFrom_blockComment h
  refine ⟨Nat.succ_le_succ hle, ?_, ?_⟩
  · rw [List.take_succ_cons]
    exact .blockComment
  · rw [List.take_succ_cons, List.drop_succ_cons]
    exact congrArg (fun ms => ('/', false) :: ('*', false) :: ms) hm

/-- A lexeme that is all code takes its characters as they are. -/
theorem takesFirst_inert {c : Char} {a cs : List Char} {use : Use} (ha : c :: a <+: c :: cs)
    (hl : Lexeme (c :: a) use.token? use.isCode) (hcode : use.isCode = true)
    (hi : ∀ d ∈ c :: a, isInert d = true) : TakesFirst c cs use a.length := by
  obtain ⟨rest, rfl⟩ := (List.prefix_cons_inj c).1 ha
  refine ⟨by rw [List.length_append]; omega, ?_, ?_⟩
  · rwa [List.take_left]
  · rw [List.take_left, List.drop_left, hcode, ← List.cons_append, markedFrom_inert hi]

theorem takesFirst_blank {c : Char} (h : isBlank c = true) (cs : List Char) : TakesFirst c cs .blank 0 := by
  refine takesFirst_inert (a := []) ((List.prefix_cons_inj c).2 List.nil_prefix) (.blank h) rfl ?_
  intro d hd
  rw [List.mem_singleton.1 hd]
  exact isInert_of_isBlank h

theorem takesFirst_quoted {line n : Nat} {q : Char} {cs : List Char} {t : Token} (hq : isQuote q = true)
    (ht : readText line q cs = .ok (t, n)) : TakesFirst q cs (.token t) (n - 1) := by
  obtain ⟨⟨s, rfl⟩, m, rfl, hle, hmarks⟩ := markedFrom_readText hq ht
  exact ⟨hle, .text hq, hmarks⟩

theorem takesFirst_word {c : Char} (cs : List Char) (h : isIdentStart c = true) :
    TakesFirst c cs (.token (.word (.ofList (identifier (c :: cs)))))
      ((identifier (c :: cs)).length - 1) := by
  have hname : identifier (c :: cs) = c :: cs.takeWhile isIdentPart := by simp [identifier, h]
  have hpart : ∀ d ∈ cs.takeWhile isIdentPart, isIdentPart d = true := List.all_eq_true.1 List.all_takeWhile
  rw [hname, List.length_cons, Nat.add_sub_cancel]
  refine takesFirst_inert ((List.prefix_cons_inj c).2 (List.takeWhile_prefix _)) (.word h hpart) rfl ?_
  refine List.forall_mem_cons.2 ⟨isInert_of_isIdentPart (isIdentPart_of_isIdentStart h), ?_⟩
  intro d hd
  exact isInert_of_isIdentPart (hpart d hd)

theorem takesFirst_number {n : Nat} {c : Char} {cs : List Char} {t : Token} (hdigit : c.isDigit = true)
    (ht : readNumber (c :: cs) = .ok (t, n)) : TakesFirst c cs (.token t) (n - 1) := by
  obtain ⟨hkind, a, rfl, ⟨hpre, hnum, -⟩, hne⟩ := readNumber_ok hdigit ht
  cases a with
  | nil => exact absurd rfl hne
  | cons d a =>
    obtain rfl : d = c := (List.cons_prefix_cons.1 hpre).1
    rw [List.length_cons, Nat.add_sub_cancel]
    have hinert : ∀ e ∈ d :: a, isInert e = true := fun e he => isInert_of_isNumeral (hnum e he)
    rcases hkind with ⟨m, rfl⟩ | ⟨x, rfl⟩
    · exact takesFirst_inert hpre (.integer hne hnum) rfl hinert
    · exact takesFirst_inert hpre (.decimal hne hnum) rfl hinert

theorem takesFirst_symbol {c : Char} {cs : List Char} (hsymbol : isSymbol c = true)
    (hstep : Reading.code.step c cs = (true, .code)) : TakesFirst c cs (.token (.symbol c)) 0 := by
  refine ⟨Nat.zero_le _, .symbol hsymbol, ?_⟩
  rw [markedFrom_cons, hstep]
  rfl

theorem takesFirst_token {line n : Nat} {c : Char} {cs : List Char} {t : Token}
    (hcomment : c = '/' → cs.head? ≠ some '/' ∧ cs.head? ≠ some '*')
    (ht : readToken line c cs = .ok (t, n)) :
    TakesFirst c cs (.token t) (n - 1) := by
  unfold readToken at ht
  dsimp only at ht
  split at ht
  · rename_i hstart
    obtain ⟨rfl, rfl⟩ := Prod.mk.inj (Except.ok.inj ht)
    exact takesFirst_word cs hstart
  split at ht
  · rename_i hdigit
    exact takesFirst_number hdigit (mapError_eq_ok.1 ht)
  split at ht
  · rename_i hq
    exact takesFirst_quoted (by simpa [isQuote] using hq) ht
  rename_i hq
  split at ht
  · rename_i hsymbol
    obtain ⟨rfl, rfl⟩ := Prod.mk.inj (Except.ok.inj ht)
    refine takesFirst_symbol hsymbol ?_
    by_cases hslash : c = '/'
    · obtain ⟨hline, hblock⟩ := hcomment hslash
      subst hslash
      exact step_slash hline hblock
    · refine step_inert ?_ cs
      simp only [Bool.or_eq_true, beq_iff_eq, not_or] at hq
      simp only [isInert, Bool.and_eq_true, bne_iff_ne]
      exact ⟨⟨hslash, hq.1⟩, hq.2⟩
  · cases ht

theorem takesFirst_of_firstUse {line n : Nat} {c : Char} {cs : List Char} {use : Use}
    (h : firstUse line c cs = .ok (use, n)) : TakesFirst c cs use n := by
  unfold firstUse at h
  split at h
  · rename_i hb
    obtain ⟨rfl, rfl⟩ := Prod.mk.inj (Except.ok.inj h)
    exact takesFirst_blank hb cs
  split at h
  · rename_i hcs
    obtain ⟨rfl, rfl⟩ := Prod.mk.inj (Except.ok.inj h)
    cases cs with
    | nil => simp at hcs
    | cons d cs =>
      obtain ⟨rfl, rfl⟩ : c = '/' ∧ d = '/' := by simpa using hcs
      exact takesFirst_lineComment cs
  rename_i hcomment
  split at h
  · rename_i hcs
    cases cs with
    | nil => simp at hcs
    | cons d cs =>
      obtain ⟨rfl, rfl⟩ : c = '/' ∧ d = '*' := by simpa using hcs
      split at h
      · rename_i m hm
        obtain ⟨rfl, rfl⟩ := Prod.mk.inj (Except.ok.inj h)
        exact takesFirst_blockComment hm
      · cases h
  rename_i hblock
  obtain ⟨⟨t, m⟩, ht, heq⟩ := map_eq_ok.1 h
  obtain ⟨rfl, rfl⟩ := Prod.mk.inj heq
  refine takesFirst_token ?_ ht
  rintro rfl
  exact ⟨by simpa using hcomment, by simpa using hblock⟩

/-! ## The step -/

structure StartsWith (line : Nat) (cs : List Char) (ts : List Placed) (taken : List Char)
    (token? : Option Token) (code : Bool) (rest : List Char) (ts' : List Placed) : Prop where
  lexeme : Lexeme taken token? code
  text : cs = taken ++ rest
  tokens : ts = token?.toList.map (⟨·, line⟩) ++ ts'
  marks : markedFrom .code cs = taken.map (·, code) ++ markedFrom .code rest
  following : tokensFrom (line + lineFeeds taken) 0 rest = .ok ts'

theorem tokensFrom_cons {line : Nat} {c : Char} {cs : List Char} {ts : List Placed}
    (h : tokensFrom line 0 (c :: cs) = .ok ts) :
    ∃ taken token? code rest ts', StartsWith line (c :: cs) ts taken token? code rest ts' := by
  rw [tokensFrom_first] at h
  obtain ⟨⟨use, n⟩, huse, h⟩ := bind_eq_ok.1 h
  obtain ⟨ts', hts', rfl⟩ := map_eq_ok.1 h
  have hfirst := takesFirst_of_firstUse huse
  refine ⟨c :: cs.take n, use.token?, use.isCode, cs.drop n, ts', hfirst.lexeme, ?_, rfl, hfirst.marks, ?_⟩
  · rw [List.cons_append, List.take_append_drop]
  · rwa [← lineAfter_add, ← tokensFrom_drop _ _ _ hfirst.within]

end UpdaterBootstrap
