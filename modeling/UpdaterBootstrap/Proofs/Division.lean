import UpdaterBootstrap.Proofs.Lexeme

/-!
# Dividing a text as the tokenizer does

The tokenizer divides a text it accepts into blanks, comments and tokens (`tokensFrom_eq`). The scan
for annotations takes for code what is in neither a comment nor a quoted text of that division.
-/

namespace UpdaterBootstrap

structure Part where
  use : Use
  line : Nat
  chars : List Char

def Part.placed? (p : Part) : Option Placed :=
  p.use.token?.map (⟨·, p.line⟩)

/-- The parts of a text after `skip` characters that have been taken. -/
def partsFrom (line skip : Nat) : List Char → Except UnitError (List Part)
  | [] => .ok []
  | c :: cs =>
    match skip with
    | n + 1 => partsFrom (lineAfter line c) n cs
    | 0 => do
      let (use, n) ← firstUse line c cs
      let parts ← partsFrom (lineAfter line c) n cs
      return ⟨use, line, c :: cs.take n⟩ :: parts

def parts (text : String) : Except UnitError (List Part) :=
  partsFrom 1 0 text.toList

/-! ## The tokens of the parts -/

theorem partsFrom_first (line : Nat) (c : Char) (cs : List Char) :
    partsFrom line 0 (c :: cs) = firstUse line c cs >>= fun p =>
      (partsFrom (lineAfter line c) p.2 cs).map (⟨p.1, line, c :: cs.take p.2⟩ :: ·) := by
  rw [partsFrom]
  congr 1

/-- The tokenizer fails where the division does, and otherwise gives the tokens among the parts. -/
theorem tokensFrom_eq : ∀ (line skip : Nat) (cs : List Char), tokensFrom line skip cs =
    (partsFrom line skip cs).map fun ps => ps.filterMap Part.placed? ++ [⟨.finish, line + lineFeeds cs⟩]
  | _, _, [] => rfl
  | line, n + 1, c :: cs => by
    rw [← lineAfter_add]
    exact tokensFrom_eq (lineAfter line c) n cs
  | line, 0, c :: cs => by
    rw [tokensFrom_first, partsFrom_first, ← lineAfter_add]
    cases firstUse line c cs with
    | error e => rfl
    | ok p =>
      rw [ok_bind, ok_bind, tokensFrom_eq (lineAfter line c) p.2 cs]
      cases partsFrom (lineAfter line c) p.2 cs with
      | error e => rfl
      | ok ps =>
        obtain ⟨use, n⟩ := p
        cases use <;> rfl

/-! ## The characters of the parts -/

/-- Every part is a lexeme, and the parts in a row are the text with its code marks. -/
theorem marked_partsFrom : ∀ {line skip : Nat} {cs : List Char} {ps : List Part}, skip ≤ cs.length →
    partsFrom line skip cs = .ok ps →
      (∀ p ∈ ps, Lexeme p.chars p.use.token? p.use.isCode) ∧
      markedFrom .code (cs.drop skip) = ps.flatMap fun p => p.chars.map (·, p.use.isCode)
  | _, skip, [], ps, _, h => by
    obtain rfl := Except.ok.inj h
    refine ⟨fun p hp => absurd hp List.not_mem_nil, ?_⟩
    rw [List.drop_nil]
    rfl
  | line, n + 1, c :: cs, ps, hle, h => by
    rw [partsFrom] at h
    rw [List.drop_succ_cons]
    exact marked_partsFrom (Nat.le_of_succ_le_succ hle) h
  | line, 0, c :: cs, ps, _, h => by
    rw [partsFrom_first] at h
    obtain ⟨⟨use, n⟩, huse, h⟩ := bind_eq_ok.1 h
    obtain ⟨ps', hps', rfl⟩ := map_eq_ok.1 h
    have hfirst := takesFirst_of_firstUse huse
    obtain ⟨hlexemes, hmarks⟩ := marked_partsFrom hfirst.within hps'
    refine ⟨List.forall_mem_cons.2 ⟨hfirst.lexeme, hlexemes⟩, ?_⟩
    rw [List.drop_zero, hfirst.marks, hmarks, List.flatMap_cons]

theorem flatMap_chars_of_partsFrom {line : Nat} {cs : List Char} {ps : List Part}
    (h : partsFrom line 0 cs = .ok ps) :
    ps.flatMap Part.chars = cs := by
  have hchars := congrArg (List.map Prod.fst) (marked_partsFrom (Nat.zero_le _) h).2
  rw [List.drop_zero, map_fst_markedFrom, List.map_flatMap] at hchars
  simp only [map_fst_mark] at hchars
  exact hchars.symm

theorem start_of_tokens {cs : List Char} {ts : List Placed} (h : tokensFrom 1 0 cs = .ok ts) :
    Reading.start cs = .code := by
  unfold Reading.start
  by_cases hcs : cs.take 2 = ['#', '!']
  · match cs, hcs with
    | c :: d :: cs, hcs =>
      obtain ⟨rfl, -⟩ : c = '#' ∧ d = '!' := by simpa using hcs
      cases h
  · rw [if_neg (by simpa using hcs)]
    rfl

/-! ## Bytes -/

/-- In a text that the tokenizer accepts, the bytes of its comments and quoted texts are no code, and
all others are. -/
theorem codeMask_of_tokens {text : String} {ts : List Placed} (h : tokens text = .ok ts) :
    ∃ ps, parts text = .ok ps ∧
      ts = ps.filterMap Part.placed? ++ [⟨.finish, 1 + lineFeeds text.toList⟩] ∧
      (∀ p ∈ ps, Lexeme p.chars p.use.token? p.use.isCode) ∧
      ps.flatMap Part.chars = text.toList ∧
      codeMask text.toList = ps.flatMap fun p => List.replicate (byteLength p.chars) p.use.isCode := by
  have hparts := h
  unfold tokens at hparts
  rw [tokensFrom_eq] at hparts
  obtain ⟨ps, hps, rfl⟩ := map_eq_ok.1 hparts
  obtain ⟨hlexemes, hmarks⟩ := marked_partsFrom (Nat.zero_le _) hps
  rw [List.drop_zero] at hmarks
  refine ⟨ps, hps, rfl, hlexemes, flatMap_chars_of_partsFrom hps, ?_⟩
  unfold codeMask
  rw [marked_eq, start_of_tokens h, hmarks, List.flatMap_assoc]
  simp only [flatMap_replicate_mark]

/-- Comment marks between quotes, a quote in a comment and an escaped quote. -/
theorem codeMask_of_tokens_nested : tokens "a='//\\'é'/*\"*/" =
      .ok [⟨.word "a", 1⟩, ⟨.symbol '=', 1⟩, ⟨.text "//'é", 1⟩, ⟨.finish, 1⟩] ∧
    ∃ ps, parts "a='//\\'é'/*\"*/" = .ok ps ∧
      [⟨.word "a", 1⟩, ⟨.symbol '=', 1⟩, ⟨.text "//'é", 1⟩, ⟨.finish, 1⟩] =
        ps.filterMap Part.placed? ++ [⟨.finish, 1 + lineFeeds "a='//\\'é'/*\"*/".toList⟩] ∧
      (∀ p ∈ ps, Lexeme p.chars p.use.token? p.use.isCode) ∧
      ps.flatMap Part.chars = "a='//\\'é'/*\"*/".toList ∧
      codeMask "a='//\\'é'/*\"*/".toList =
        ps.flatMap fun p => List.replicate (byteLength p.chars) p.use.isCode :=
  have h : tokens "a='//\\'é'/*\"*/" =
      .ok [⟨.word "a", 1⟩, ⟨.symbol '=', 1⟩, ⟨.text "//'é", 1⟩, ⟨.finish, 1⟩] :=
    eq_ok_of_toOption (by decide +kernel)
  ⟨h, codeMask_of_tokens h⟩

end UpdaterBootstrap
