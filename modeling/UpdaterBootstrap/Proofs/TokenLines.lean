import UpdaterBootstrap.Proofs.CountedLines

/-!
# The lines of tokens and of their faults

The parts of a text that the tokenizer accepts begin on the line after all line feeds before them
(`isDivision_of_tokens`). Where it does not accept a text, it reports a line of the text.
-/

namespace UpdaterBootstrap

/-! ## Lines of parts -/

/-- The tokens of a text and what it is divided into, each on the line after the line feeds before
it. -/
structure IsDivision (text : String) (ts : List Placed) (ps : List Part) : Prop where
  chars : ps.flatMap Part.chars = text.toList
  lexemes : ∀ p ∈ ps, Lexeme p.chars p.use.token? p.use.isCode
  tokens : ts = ps.filterMap Part.placed? ++ [⟨.finish, 1 + lineFeeds text.toList⟩]
  lines : ∀ before p after, ps = before ++ p :: after → p.line = 1 + lineFeeds (before.flatMap Part.chars)

theorem line_of_partsFrom :
    ∀ {line skip : Nat} {cs : List Char} {ps : List Part}, partsFrom line skip cs = .ok ps →
    ∀ before p after, ps = before ++ p :: after →
      p.line = line + lineFeeds (cs.take skip) + lineFeeds (before.flatMap Part.chars)
  | _, _, [], ps, h, before, p, after, hsplit => by
    rw [← Except.ok.inj h] at hsplit
    cases before <;> cases hsplit
  | line, n + 1, c :: cs, ps, h, before, p, after, hsplit => by
    rw [partsFrom] at h
    rw [List.take_succ_cons, ← lineAfter_add]
    exact line_of_partsFrom h before p after hsplit
  | line, 0, c :: cs, ps, h, before, p, after, hsplit => by
    rw [partsFrom_first] at h
    obtain ⟨⟨use, n⟩, -, h⟩ := bind_eq_ok.1 h
    obtain ⟨ps', hps', rfl⟩ := map_eq_ok.1 h
    cases before with
    | nil =>
      obtain ⟨rfl, -⟩ := List.cons.inj hsplit
      rfl
    | cons first before =>
      obtain ⟨rfl, hrest⟩ := List.cons.inj hsplit
      rw [line_of_partsFrom hps' before p after hrest, List.flatMap_cons, lineFeeds_append, lineAfter_add]
      exact Nat.add_assoc _ _ _

theorem isDivision_of_tokens {text : String} {ts : List Placed} (h : tokens text = .ok ts) :
    ∃ ps, parts text = .ok ps ∧ IsDivision text ts ps := by
  rw [tokens, tokensFrom_eq] at h
  obtain ⟨ps, hps, rfl⟩ := map_eq_ok.1 h
  refine ⟨ps, hps, flatMap_chars_of_partsFrom hps, (marked_partsFrom (Nat.zero_le _) hps).1, rfl, ?_⟩
  exact line_of_partsFrom hps

theorem IsDivision.onLine {text : String} {ts : List Placed} {ps : List Part} (h : IsDivision text ts ps) :
    ∀ t ∈ ts, 1 ≤ t.line ∧ t.line ≤ 1 + lineFeeds text.toList := by
  intro t ht
  rw [h.tokens, List.mem_append, List.mem_singleton, List.mem_filterMap] at ht
  rcases ht with ⟨p, hp, htoken⟩ | rfl
  · obtain ⟨before, after, hsplit⟩ := List.append_of_mem hp
    obtain ⟨token, -, rfl⟩ := Option.map_eq_some_iff.1 htoken
    have hline := h.lines before p after hsplit
    have hchars := congrArg lineFeeds h.chars
    rw [hsplit, List.flatMap_append, lineFeeds_append] at hchars
    dsimp only
    omega
  · dsimp only
    omega

/-! ## Faults -/

def OnLines {α : Type} (first last : Nat) (P : α → Prop) : Except UnitError α → Prop
  | .ok a => P a
  | .error e => first ≤ e.line ∧ e.line ≤ last

abbrev Anything {α : Type} (_ : α) : Prop :=
  True

namespace OnLines

variable {α β : Type} {first last first' last' : Nat} {P : α → Prop} {Q : β → Prop}
  {x : Except UnitError α}

theorem bind {f : α → Except UnitError β} (h : OnLines first last P x)
    (hf : ∀ a, P a → OnLines first last Q (f a)) :
    OnLines first last Q (x >>= f) := by
  cases x with
  | error e => exact h
  | ok a => exact hf a h

theorem map {f : α → β} (h : OnLines first last P x) (hf : ∀ a, P a → Q (f a)) :
    OnLines first last Q (x.map f) := by
  cases x with
  | error e => exact h
  | ok a => exact hf a h

theorem anything {f : α → β} (h : OnLines first last P x) : OnLines first last Anything (x.map f) :=
  h.map fun _ _ => trivial

theorem mono (h : OnLines first' last' P x) (hfirst : first ≤ first') (hlast : last' ≤ last) :
    OnLines first last P x := by
  cases x with
  | error e => exact ⟨Nat.le_trans hfirst h.1, Nat.le_trans h.2 hlast⟩
  | ok a => exact h

end OnLines

theorem lineFeeds_drop_le (n : Nat) (cs : List Char) : lineFeeds (cs.drop n) ≤ lineFeeds cs :=
  (List.drop_sublist n cs).count_le _

theorem le_lineAfter (line : Nat) (c : Char) : line ≤ lineAfter line c := by
  unfold lineAfter
  split <;> omega

theorem onLines_readTextFrom (style : QuoteStyle) {start line : Nat} (hstart : start ≤ line)
    (skip : Nat) (cs : List Char) :
    OnLines start (line + lineFeeds (cs.drop skip)) Anything (readTextFrom style start line skip cs) := by
  induction cs generalizing line skip with
  | nil => exact ⟨Nat.le_refl _, Nat.le_trans hstart (Nat.le_add_right _ _)⟩
  | cons c cs ih =>
    have hhere : start ≤ line ∧ line ≤ line + lineFeeds (c :: cs) := ⟨hstart, Nat.le_add_right _ _⟩
    have hlater (n : Nat) : line + lineFeeds (cs.drop n) ≤ line + lineFeeds (c :: cs) := by
      have := lineFeeds_drop_le n cs
      rw [lineFeeds_cons]
      omega
    cases skip with
    | succ n => exact ih hstart n
    | zero =>
      rw [List.drop_zero, readTextFrom]
      split
      · trivial
      split
      · exact ⟨Nat.le_refl _, Nat.le_trans hhere.1 hhere.2⟩
      split
      · split
        · exact hhere
        · rename_i hfeed
          -- the line feed behind the backslash is passed at once, and counted
          obtain ⟨rest, rfl⟩ := List.head?_eq_some_iff.1 hfeed
          refine .anything (.mono (ih (Nat.le_succ_of_le hstart) 1) (Nat.le_refl _) ?_)
          rw [List.drop_one, List.tail_cons, lineFeeds_cons, lineFeeds_cons, if_pos rfl]
          omega
        · split
          · exact .anything (.mono (ih hstart 5) (Nat.le_refl _) (hlater 5))
          · exact hhere
        · split
          · exact .anything (.mono (ih hstart 1) (Nat.le_refl _) (hlater 1))
          · exact hhere
      split
      · exact hhere
      · rw [← lineAfter_add]
        exact .anything (ih (Nat.le_trans hstart (le_lineAfter line c)) 0)

theorem onLines_readText (line : Nat) (q : Char) (cs : List Char) :
    OnLines line (line + lineFeeds cs) Anything (readText line q cs) := by
  refine .anything (.mono (onLines_readTextFrom _ (Nat.le_refl line) _ cs) (Nat.le_refl _) ?_)
  exact Nat.add_le_add_left (lineFeeds_drop_le _ cs) line

theorem onLines_readToken (line : Nat) (c : Char) (cs : List Char) :
    OnLines line (line + lineFeeds (c :: cs)) Anything (readToken line c cs) := by
  have hhere : line ≤ line ∧ line ≤ line + lineFeeds (c :: cs) := ⟨Nat.le_refl _, Nat.le_add_right _ _⟩
  unfold readToken
  split
  · trivial
  split
  · cases readNumber (c :: cs) with
    | error fault => exact hhere
    | ok r => trivial
  split
  · refine .mono (onLines_readText line c cs) (Nat.le_refl _) ?_
    rw [lineFeeds_cons]
    omega
  split
  · trivial
  · exact hhere

theorem onLines_firstUse (line : Nat) (c : Char) (cs : List Char) :
    OnLines line (line + lineFeeds (c :: cs)) Anything (firstUse line c cs) := by
  unfold firstUse
  split
  · trivial
  split
  · trivial
  split
  · split
    · trivial
    · exact ⟨Nat.le_refl _, Nat.le_add_right _ _⟩
  · exact .anything (onLines_readToken line c cs)

theorem onLines_tokensFrom : ∀ (line skip : Nat) (cs : List Char),
    OnLines line (line + lineFeeds cs) Anything (tokensFrom line skip cs)
  | _, _, [] => trivial
  | line, n + 1, c :: cs => by
    rw [tokensFrom, ← lineAfter_add]
    exact .mono (onLines_tokensFrom (lineAfter line c) n cs) (le_lineAfter line c) (Nat.le_refl _)
  | line, 0, c :: cs => by
    rw [tokensFrom_first]
    refine .bind (onLines_firstUse line c cs) fun p _ => ?_
    rw [← lineAfter_add]
    exact .anything (.mono (onLines_tokensFrom (lineAfter line c) p.2 cs) (le_lineAfter line c)
      (Nat.le_refl _))

theorem onLines_tokens (text : String) : OnLines 1 (1 + lineFeeds text.toList) Anything (tokens text) :=
  onLines_tokensFrom 1 0 text.toList

end UpdaterBootstrap
