import UpdaterBootstrap.Proofs.Borders
import UpdaterBootstrap.Proofs.Division
import UpdaterBootstrap.Proofs.Spelling

/-!
# Words among the parts of a text

What is taken first of a text is told by its first character (`taken_of_firstUse`). A word among the
parts is as long as it can be, so the word that follows some blanks is the same in the parts and in
the text (`nextWord?_parts`).
-/

namespace UpdaterBootstrap

namespace Token

def word? : Token → Option String
  | .word name => some name
  | _ => none

/-- Whether a word that follows at once is no keyword: after a number or a point. -/
def joins : Token → Bool
  | .integer _ | .decimal _ => true
  | .symbol c => c == '.'
  | _ => false

end Token

namespace Part

def word? (p : Part) : Option String :=
  p.use.token?.bind Token.word?

def joins (p : Part) : Bool :=
  p.use.token?.any Token.joins

def isBlank (p : Part) : Bool :=
  match p.use with
  | .blank => true
  | _ => false

end Part

def nextWord? : List Part → Option String
  | [] => none
  | p :: ps => if p.isBlank then nextWord? ps else p.word?

/-! ## What is taken first -/

inductive Taken (c : Char) (cs : List Char) : Use → Nat → Prop
  | blank (h : isBlank c = true) : Taken c cs .blank 0
  | comment (n : Nat) (h : isInert c = false) : Taken c cs .comment n
  | text (s : String) (n : Nat) (h : isInert c = false) : Taken c cs (.token (.text s)) n
  | word (h : isIdentStart c = true) : Taken c cs (.token (.word (.ofList (c :: cs.takeWhile isIdentPart))))
      (cs.takeWhile isIdentPart).length
  | integer {i : Int64} {n : Nat} (h : c.isDigit = true) (hnumerals : Numerals (c :: cs.take n) (c :: cs)) :
      Taken c cs (.token (.integer i)) n
  | decimal {x : Float} {n : Nat} (h : c.isDigit = true) (hnumerals : Numerals (c :: cs.take n) (c :: cs)) :
      Taken c cs (.token (.decimal x)) n
  | symbol (h : isSymbol c = true) : Taken c cs (.token (.symbol c)) 0

theorem taken_of_readToken {line n : Nat} {c : Char} {cs : List Char} {t : Token}
    (h : readToken line c cs = .ok (t, n)) :
    Taken c cs (.token t) (n - 1) := by
  unfold readToken at h
  dsimp only at h
  split at h
  · rename_i hstart
    obtain ⟨rfl, rfl⟩ := Prod.mk.inj (Except.ok.inj h)
    have hname : identifier (c :: cs) = c :: cs.takeWhile isIdentPart := by simp [identifier, hstart]
    rw [hname]
    exact .word hstart
  split at h
  · rename_i hdigit
    obtain ⟨hkind, a, rfl, hnumerals, hne⟩ := readNumber_ok hdigit (mapError_eq_ok.1 h)
    obtain ⟨d, a, rfl⟩ := List.exists_cons_of_ne_nil hne
    obtain ⟨rfl, hfront⟩ := List.cons_prefix_cons.1 hnumerals.1
    have htake : cs.take a.length = a := (List.prefix_iff_eq_take.1 hfront).symm
    have hall : Numerals (d :: cs.take a.length) (d :: cs) := by rwa [htake]
    rcases hkind with ⟨i, rfl⟩ | ⟨x, rfl⟩
    · exact .integer hdigit hall
    · exact .decimal hdigit hall
  split at h
  · rename_i hquote
    obtain ⟨⟨s, rfl⟩, -⟩ := markedFrom_readText hquote h
    exact .text s _ (isInert_of_isQuote hquote)
  split at h
  · rename_i hsymbol
    obtain ⟨rfl, rfl⟩ := Prod.mk.inj (Except.ok.inj h)
    exact .symbol hsymbol
  · cases h

theorem taken_of_firstUse {line n : Nat} {c : Char} {cs : List Char} {use : Use}
    (h : firstUse line c cs = .ok (use, n)) : Taken c cs use n := by
  unfold firstUse at h
  have hslash {p : Bool} (hc : (c == '/' && p) = true) : isInert c = false := by
    rw [Bool.and_eq_true, beq_iff_eq] at hc
    rw [hc.1]
    rfl
  split at h
  · rename_i hblank
    obtain ⟨rfl, rfl⟩ := Prod.mk.inj (Except.ok.inj h)
    exact .blank hblank
  split at h
  · rename_i hcomment
    obtain ⟨rfl, rfl⟩ := Prod.mk.inj (Except.ok.inj h)
    exact .comment _ (hslash hcomment)
  split at h
  · rename_i hcomment
    split at h
    · obtain ⟨rfl, rfl⟩ := Prod.mk.inj (Except.ok.inj h)
      exact .comment _ (hslash hcomment)
    · cases h
  · obtain ⟨⟨t, m⟩, ht, heq⟩ := map_eq_ok.1 h
    obtain ⟨rfl, rfl⟩ := Prod.mk.inj heq
    exact taken_of_readToken ht

theorem partsFrom_append (line : Nat) (a b : List Char) :
    partsFrom line a.length (a ++ b) = partsFrom (line + lineFeeds a) 0 b := by
  induction a generalizing line with
  | nil => rfl
  | cons c a ih =>
    rw [List.length_cons, List.cons_append, partsFrom, ih, lineAfter_add]

theorem partsFrom_drop (line n : Nat) (cs : List Char) (h : n ≤ cs.length) :
    partsFrom line n cs = partsFrom (line + lineFeeds (cs.take n)) 0 (cs.drop n) := by
  have := partsFrom_append line (cs.take n) (cs.drop n)
  rwa [List.take_append_drop, List.length_take, Nat.min_eq_left h] at this

/-- The first part of a text, and the division of the text after it. -/
theorem partsFrom_cons {line : Nat} {c : Char} {cs : List Char} {ps : List Part}
    (h : partsFrom line 0 (c :: cs) = .ok ps) :
    ∃ use n line' ps', ps = ⟨use, line, c :: cs.take n⟩ :: ps' ∧ firstUse line c cs = .ok (use, n) ∧
      partsFrom line' 0 (cs.drop n) = .ok ps' := by
  rw [partsFrom_first] at h
  obtain ⟨⟨use, n⟩, huse, h⟩ := bind_eq_ok.1 h
  obtain ⟨ps', hps', rfl⟩ := map_eq_ok.1 h
  rw [partsFrom_drop _ _ _ (takesFirst_of_firstUse huse).within] at hps'
  exact ⟨use, n, _, ps', rfl, huse, hps'⟩

/-! ## The next word -/

theorem isIdentPart_of_isSymbol {c : Char} (h : isSymbol c = true) : isIdentPart c = false := by
  have hclass : ∀ d ∈ "@.,;=+-*/()[]\x7b\x7d:<>?&".toList, isIdentPart d = false :=
    forall_mem_of_all (by decide)
  exact hclass c (by simpa [isSymbol] using h)

theorem Taken.word?_eq {c : Char} {cs : List Char} {use : Use} {n : Nat} (h : Taken c cs use n) (line : Nat)
    (hblank : isBlank c = false) :
    Part.isBlank ⟨use, line, c :: cs.take n⟩ = false ∧ Part.word? ⟨use, line, c :: cs.take n⟩ =
      if isIdentStart c then some (.ofList (c :: cs.takeWhile isIdentPart)) else none := by
  cases h with
  | blank h =>
    rw [h] at hblank
    cases hblank
  | comment _ h =>
    rw [isIdentStart_of_mark h]
    exact ⟨rfl, rfl⟩
  | text _ _ h =>
    rw [isIdentStart_of_mark h]
    exact ⟨rfl, rfl⟩
  | word h =>
    rw [h]
    exact ⟨rfl, rfl⟩
  | integer h =>
    rw [isIdentStart_of_isDigit h]
    exact ⟨rfl, rfl⟩
  | decimal h =>
    rw [isIdentStart_of_isDigit h]
    exact ⟨rfl, rfl⟩
  | symbol h =>
    rw [isIdentStart_of_not_isIdentPart (isIdentPart_of_isSymbol h)]
    exact ⟨rfl, rfl⟩

/-- The word that the parts give after blanks is the one that the text gives. -/
theorem nextWord?_parts {line : Nat} {cs : List Char} {ps : List Part} (h : partsFrom line 0 cs = .ok ps) :
    nextWord? ps = if identifier (cs.dropWhile isBlank) = [] then none
      else some (.ofList (identifier (cs.dropWhile isBlank))) := by
  induction cs generalizing line ps with
  | nil =>
    obtain rfl := Except.ok.inj h
    rfl
  | cons c cs ih =>
    obtain ⟨use, n, line', ps', rfl, huse, hps'⟩ := partsFrom_cons h
    cases hblank : isBlank c with
    | true =>
      have hfirst : firstUse line c cs = .ok (.blank, 0) := if_pos hblank
      obtain ⟨rfl, rfl⟩ := Prod.mk.inj (Except.ok.inj (hfirst.symm.trans huse))
      have hnext : nextWord? (⟨.blank, line, c :: cs.take 0⟩ :: ps') = nextWord? ps' := rfl
      rw [List.dropWhile_cons_of_pos hblank, hnext]
      exact ih hps'
    | false =>
      obtain ⟨hnot, hword⟩ := (taken_of_firstUse huse).word?_eq line hblank
      rw [List.dropWhile_cons_of_neg (by simp [hblank]), nextWord?, hnot, hword, identifier]
      cases isIdentStart c <;> simp

theorem declaredName?_parts {line : Nat} {cs : List Char} {ps : List Part} (h : partsFrom line 0 cs = .ok ps)
    (hends : EndsWord cs) : (declaredName? cs).map (fun p => String.ofList p.2) = nextWord? ps := by
  rw [nextWord?_parts h]
  unfold declaredName?
  dsimp only
  cases cs with
  | nil => rfl
  | cons c cs =>
    cases hblank : isBlank c with
    | true =>
      rw [List.takeWhile_cons_of_pos hblank]
      generalize identifier ((c :: cs).dropWhile isBlank) = name
      cases name <;> rfl
    | false =>
      have hpart : isIdentPart c = false := hends c rfl
      rw [List.takeWhile_cons_of_neg (by simp [hblank]), List.dropWhile_cons_of_neg (by simp [hblank]),
        identifier, isIdentStart_of_not_isIdentPart hpart]
      rfl

end UpdaterBootstrap
