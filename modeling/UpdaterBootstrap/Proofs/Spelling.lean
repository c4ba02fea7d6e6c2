import UpdaterBootstrap.Proofs.Lexeme
import UpdaterBootstrap.Unit.Parser

/-!
# Tokens of a text that is written out

`Reads line a ts line' rest` says that the tokenizer takes `a`, where `rest` follows it, for the
tokens `ts`. Texts are put together from words, symbols and blanks by `Reads.append`.
-/

namespace UpdaterBootstrap

def Reads (line : Nat) (a : List Char) (ts : List Placed) (line' : Nat) (rest : List Char) : Prop :=
  tokensFrom line 0 (a ++ rest) = (tokensFrom line' 0 rest).map (ts ++ ·)

theorem Reads.append {line line' line'' : Nat} {a b rest : List Char} {ts us : List Placed}
    (ha : Reads line a ts line' (b ++ rest)) (hb : Reads line' b us line'' rest) :
    Reads line (a ++ b) (ts ++ us) line'' rest := by
  unfold Reads at *
  rw [List.append_assoc, ha, hb]
  cases tokensFrom line'' 0 rest <;> simp [Except.map]

theorem Reads.tokens {line line' : Nat} {a rest : List Char} {ts all : List Placed}
    (h : Reads line a ts line' rest) (hall : tokensFrom line 0 (a ++ rest) = .ok all) :
    ∃ us, all = ts ++ us ∧ tokensFrom line' 0 rest = .ok us := by
  rw [h] at hall
  obtain ⟨us, hus, heq⟩ := map_eq_ok.1 hall
  exact ⟨us, heq.symm, hus⟩

theorem reads_nil (line : Nat) (rest : List Char) : Reads line [] [] line rest := by
  unfold Reads
  cases h : tokensFrom line 0 rest <;> simp [h, Except.map]

theorem reads_blank (line : Nat) {c : Char} (rest : List Char) (h : isBlank c = true) (hn : c ≠ '\n') :
    Reads line [c] [] line rest := by
  have : tokensFrom line 0 (c :: rest) = tokensFrom line 0 rest := by
    rw [tokensFrom]
    simp [h, hn]
  rw [Reads, List.singleton_append, this]
  exact reads_nil line rest

theorem reads_feed (line : Nat) (rest : List Char) : Reads line ['\n'] [] (line + 1) rest :=
  reads_nil (line + 1) rest

theorem reads_blanks (line : Nat) {a : List Char} (rest : List Char) (h : ∀ c ∈ a, isBlank c = true) :
    Reads line a [] (line + lineFeeds a) rest := by
  induction a generalizing line with
  | nil => exact reads_nil line rest
  | cons c a ih =>
    have ha := fun d hd => h d (List.mem_cons_of_mem c hd)
    rw [lineFeeds_cons]
    by_cases hc : c = '\n'
    · subst hc
      have := (reads_feed line (a ++ rest)).append (ih (line + 1) ha)
      rwa [Nat.add_assoc, Nat.add_comm 1] at this
    · rw [if_neg hc, Nat.add_zero]
      exact (reads_blank line _ (h c (by simp)) hc).append (ih line ha)

theorem reads_token (line : Nat) {c : Char} {a rest : List Char} {t : Token} (hb : isBlank c = false)
    (hs : c ≠ '/') (ht : readToken line c (a ++ rest) = .ok (t, a.length + 1)) :
    Reads line (c :: a) [⟨t, line⟩] (line + lineFeeds a) rest := by
  have hc : c ≠ '\n' := by rintro rfl; exact absurd hb (by decide)
  rw [Reads, List.cons_append, tokensFrom]
  simp only [hb, Bool.false_eq_true, if_false, beq_iff_eq, hs, Bool.and_eq_true, false_and, hc, ht]
  change (tokensFrom line a.length (a ++ rest) >>= fun r => .ok (⟨t, line⟩ :: r)) = _
  rw [tokensFrom_append]
  cases tokensFrom (line + lineFeeds a) 0 rest <;> rfl

theorem reads_symbol (line : Nat) (c : Char) (rest : List Char) (h : isSymbol c = true) (hs : c ≠ '/') :
    Reads line [c] [⟨.symbol c, line⟩] line rest := by
  have hclass : ∀ d ∈ "@.,;=+-*/()[]\x7b\x7d:<>?&".toList,
      isBlank d = false ∧ isIdentStart d = false ∧ d.isDigit = false ∧ isQuote d = false :=
    forall_mem_of_all (by decide)
  obtain ⟨hb, hi, hd, hq⟩ := hclass c (by simpa [isSymbol] using h)
  refine reads_token line (a := []) hb hs ?_
  have hq' : (c == '\'' || c == '"') = false := hq
  simp only [readToken, hi, hd, hq', h, Bool.false_eq_true, if_false, if_true]
  rfl

/-! ## Words -/

def isWord : List Char → Bool
  | [] => false
  | c :: cs => isIdentStart c && cs.all isIdentPart

theorem isWord_cons {c : Char} {cs : List Char} :
    isWord (c :: cs) = true ↔ isIdentStart c = true ∧ ∀ d ∈ cs, isIdentPart d = true := by
  simp [isWord]

theorem isIdentPart_of_isWord {w : List Char} (h : isWord w = true) : ∀ c ∈ w, isIdentPart c = true := by
  cases w with
  | nil => simp
  | cons c cs =>
    obtain ⟨hc, hcs⟩ := isWord_cons.1 h
    exact List.forall_mem_cons.2 ⟨isIdentPart_of_isIdentStart hc, hcs⟩

def EndsWord (rest : List Char) : Prop :=
  ∀ c, rest.head? = some c → isIdentPart c = false

theorem endsWord_cons {c : Char} (h : isIdentPart c = false) (cs : List Char) : EndsWord (c :: cs) :=
  fun d hd => by rw [← Option.some.inj hd]; exact h

theorem takeWhile_append_of_ends {p : Char → Bool} {a rest : List Char} (ha : ∀ c ∈ a, p c = true)
    (hr : ∀ c, rest.head? = some c → p c = false) : (a ++ rest).takeWhile p = a := by
  rw [List.takeWhile_append_of_pos ha]
  cases rest with
  | nil => simp
  | cons c rest => simp [hr c rfl]

theorem identifier_append {w rest : List Char} (hw : isWord w = true) (hr : EndsWord rest) :
    identifier (w ++ rest) = w := by
  cases w with
  | nil => cases hw
  | cons c cs =>
    obtain ⟨hc, hcs⟩ := isWord_cons.1 hw
    simp [identifier, hc, takeWhile_append_of_ends hcs hr]

theorem reads_word (line : Nat) {w rest : List Char} (hw : isWord w = true) (hr : EndsWord rest) :
    Reads line w [⟨.word (.ofList w), line⟩] line rest := by
  cases w with
  | nil => cases hw
  | cons c cs =>
    obtain ⟨hc, hcs⟩ := isWord_cons.1 hw
    have hpart := isIdentPart_of_isIdentStart hc
    have hfeeds : lineFeeds cs = 0 := lineFeeds_of_class hcs (by decide)
    have htoken : readToken line c (cs ++ rest) = .ok (.word (.ofList (c :: cs)), cs.length + 1) := by
      have := identifier_append hw hr
      rw [List.cons_append] at this
      simp only [readToken, hc, if_true, this]
      rfl
    have := reads_token line (isBlank_of_isIdentPart hpart) (ne_of_class hpart (by decide)) htoken
    rwa [hfeeds] at this

/-! ## Dotted names -/

def joinDots : List (List Char) → List Char
  | [] => []
  | [w] => w
  | w :: ws => w ++ '.' :: joinDots ws

def dottedTokens (line : Nat) : List (List Char) → List Placed
  | [] => []
  | [w] => [⟨.word (.ofList w), line⟩]
  | w :: ws => ⟨.word (.ofList w), line⟩ :: ⟨.symbol '.', line⟩ :: dottedTokens line ws

theorem reads_dotted (line : Nat) {ws : List (List Char)} {rest : List Char}
    (hw : ∀ w ∈ ws, isWord w = true) (hr : EndsWord rest) :
    Reads line (joinDots ws) (dottedTokens line ws) line rest := by
  induction ws with
  | nil => exact reads_nil line rest
  | cons w ws ih =>
    obtain ⟨hv, hws⟩ := List.forall_mem_cons.1 hw
    cases ws with
    | nil => exact reads_word line hv hr
    | cons v ws =>
      have hpoint : EndsWord ('.' :: (joinDots (v :: ws) ++ rest)) := endsWord_cons (by decide) _
      exact (reads_word line hv hpoint).append
        ((reads_symbol line '.' _ (by decide) (by decide)).append (ih hws))

def EndsName (ts : List Placed) : Prop :=
  (current ts).token ≠ .symbol '.'

theorem readSegments_ends {ts : List Placed} (h : EndsName ts) : readSegments ts = ("", ts) := by
  unfold readSegments
  split
  · exact absurd rfl h
  · rfl

theorem readSegments_dotted {line : Nat} {ts : List Placed} (h : readSegments ts = ("", ts)) (w : List Char)
    (ws : List (List Char)) :
    readSegments (⟨.symbol '.', line⟩ :: (dottedTokens line (w :: ws) ++ ts)) =
      (.ofList ('.' :: joinDots (w :: ws)), ts) := by
  induction ws generalizing w with
  | nil =>
    simp only [dottedTokens, List.singleton_append, readSegments, h, joinDots]
    simp
  | cons v ws ih =>
    simp only [dottedTokens, List.cons_append, readSegments, ih, joinDots]
    simp [String.ext_iff]

theorem readDottedName_dotted (line : Nat) {ts : List Placed} (h : readSegments ts = ("", ts)) (w : List Char)
    (ws : List (List Char)) :
    readDottedName (dottedTokens line (w :: ws) ++ ts) = .ok (.ofList (joinDots (w :: ws)), ts) := by
  have hword (us : List Placed) :
      readWord (⟨.word (.ofList w), line⟩ :: us) = .ok (.ofList w, us) := rfl
  cases ws with
  | nil =>
    simp only [dottedTokens, List.singleton_append, readDottedName, hword, joinDots]
    change Except.ok (_, _) = _
    rw [h]
    simp
  | cons v ws =>
    simp only [dottedTokens, List.cons_append, readDottedName, hword, joinDots]
    change Except.ok (_, _) = _
    rw [readSegments_dotted h]
    simp

/-! ## Lines -/

def writeLines {α : Type} (f : α → List Char) (xs : List α) : List Char :=
  xs.flatMap fun x => f x ++ ['\n']

def linesTokens {α : Type} (g : Nat → α → List Placed) (line : Nat) : List α → List Placed
  | [] => []
  | x :: xs => g line x ++ linesTokens g (line + 1) xs

theorem reads_lines {α : Type} {f : α → List Char} {g : Nat → α → List Placed} {xs : List α}
    (h : ∀ x ∈ xs, ∀ line rest, Reads line (f x) (g line x) line ('\n' :: rest)) (line : Nat)
    (rest : List Char) :
    Reads line (writeLines f xs) (linesTokens g line xs) (line + xs.length) rest := by
  induction xs generalizing line with
  | nil => exact reads_nil line rest
  | cons x xs ih =>
    obtain ⟨hx, hxs⟩ := List.forall_mem_cons.1 h
    have hfeed := (reads_feed line (writeLines f xs ++ rest)).append (ih hxs (line + 1))
    have := (hx line (writeLines f xs ++ rest)).append hfeed
    rw [List.length_cons, ← Nat.add_assoc, Nat.add_right_comm]
    simpa [writeLines, linesTokens] using this

theorem length_le_linesTokens {α : Type} {g : Nat → α → List Placed} {xs : List α}
    (h : ∀ x ∈ xs, ∀ line, g line x ≠ []) (line : Nat) : xs.length ≤ (linesTokens g line xs).length := by
  induction xs generalizing line with
  | nil => exact Nat.le_refl 0
  | cons x xs ih =>
    obtain ⟨hx, hxs⟩ := List.forall_mem_cons.1 h
    have hpos := List.length_pos_iff.2 (hx line)
    have := ih hxs (line + 1)
    rw [linesTokens, List.length_append, List.length_cons]
    omega

end UpdaterBootstrap
