import UpdaterBootstrap.Toml.Writer

/-!
# Texts in TOML

A text is read back from any of its written forms (`Toml.quoted?_writeChars`). Between double quotes
every character is read back from its escape. Between three quotes the closing ones have to be told
from those of the text, of which there are never more than two in a row before the last ones.
-/

namespace UpdaterBootstrap

namespace Toml

/-! ## Escapes -/

theorem hexDigits_four {n : Nat} (h : n < 128) :
    (hexDigits 4 n).length = 4 ∧ (hexDigits 4 n).all isHexDigit = true ∧ hexNumber (hexDigits 4 n) = n := by
  revert n
  decide +kernel

theorem toNat_of_isForbidden {c : Char} (h : isForbidden c = true) : c.toNat < 128 := by
  simp only [isForbidden, Bool.or_eq_true, Bool.and_eq_true, decide_eq_true_eq, beq_iff_eq] at h
  omega

/-- An escape behind a backslash, which no gap can be mistaken for. -/
structure IsEscape (c : Char) (code : List Char) : Prop where
  escape : ∀ cs, escape? (code ++ cs) = some (c, code.length)
  noGap : ∀ cs, foldedGap? (code ++ cs) = none

theorem isEscape_number {c : Char} (h : isForbidden c = true) : IsEscape c ('u' :: hexDigits 4 c.toNat) := by
  obtain ⟨hlength, hdigits, hnumber⟩ := hexDigits_four (toNat_of_isForbidden h)
  refine ⟨fun cs => ?_, fun cs => rfl⟩
  have htake : (hexDigits 4 c.toNat ++ cs).take 4 = hexDigits 4 c.toNat := by
    exact List.take_left' hlength
  have hvalid : c.toNat.isValidChar := c.valid
  rw [List.cons_append, escape?]
  dsimp only
  rw [htake, hlength, hdigits, hnumber]
  simp [hvalid, hlength]

/-- A character stands for itself, or a backslash and an escape stand for it. -/
theorem escapeChar_cases (c : Char) :
    (escapeChar c = [c] ∧ isForbidden c = false ∧ c ≠ '"' ∧ c ≠ '\\') ∨
      ∃ code, escapeChar c = '\\' :: code ∧ IsEscape c code := by
  unfold escapeChar
  split
  iterate 7 exact .inr ⟨_, rfl, fun _ => rfl, fun _ => rfl⟩
  split
  next h => exact .inr ⟨_, rfl, isEscape_number h⟩
  next h => exact .inl ⟨rfl, by simpa using h, by assumption, by assumption⟩

/-! ## On one line -/

theorem readBasic_skip (pre cs : List Char) : readBasic pre.length (pre ++ cs) = readBasic 0 cs := by
  induction pre with
  | nil => rfl
  | cons c pre ih => exact ih

theorem readBasic_escapeChar (c : Char) (cs : List Char) :
    readBasic 0 (escapeChar c ++ cs) = (readBasic 0 cs).push c := by
  rcases escapeChar_cases c with ⟨hc, hplain, hquote, hbackslash⟩ | ⟨code, hc, hcode⟩
  · rw [hc, List.singleton_append, readBasic]
    simp [hplain, hquote, hbackslash]
  · rw [hc, List.cons_append, readBasic, if_neg (by decide), if_pos (by decide), hcode.escape]
    simp only [readBasic_skip]

theorem readBasic_escaped (cs rest : List Char) :
    readBasic 0 (escaped false 0 cs ++ '"' :: rest) = some (cs, rest) := by
  induction cs with
  | nil => rfl
  | cons c cs ih =>
    have hescaped : escaped false 0 (c :: cs) = escapeChar c ++ escaped false 0 cs := by simp [escaped]
    rw [hescaped, List.append_assoc, readBasic_escapeChar, ih]
    rfl

theorem readLiteral_append {cs : List Char} (h : ∀ c ∈ cs, isForbidden c = false ∧ c ≠ '\'')
    (rest : List Char) :
    readLiteral (cs ++ '\'' :: rest) = some (cs, rest) := by
  induction cs with
  | nil => rfl
  | cons c cs ih =>
    obtain ⟨⟨hplain, hquote⟩, hcs⟩ := List.forall_mem_cons.1 h
    rw [List.cons_append, readLiteral, ih hcs]
    simp [hplain, hquote, TextRead.push]

/-! ## On several lines -/

theorem closing?_of_ne {quote c : Char} (h : c ≠ quote) (cs : List Char) :
    closing? quote (c :: cs) = none := by
  unfold closing?
  split
  next ha =>
    obtain ⟨rfl, -⟩ := List.cons.inj ha
    simp [h]
  next => rfl

/-- The last quotes in a row close the text, and those before them belong to it. -/
theorem closing?_quotes {quote : Char} {k : Nat} (hk : k ≤ 2) {rest : List Char}
    (hrest : rest.head? ≠ some quote) :
    closing? quote (List.replicate k quote ++ (List.replicate 3 quote ++ rest)) =
      some (List.replicate k quote, rest) := by
  have hend (n : Nat) : (rest.take n).takeWhile (· == quote) = [] := by
    cases n <;> cases rest <;> simp_all
  match k, hk with
  | 0, _ => simp [closing?, List.replicate, hend]
  | 1, _ => simp [closing?, List.replicate, hend]
  | 2, _ => simp [closing?, List.replicate]

/-- Two quotes in a row close nothing. -/
theorem closing?_of_run {quote c : Char} {k : Nat} (hk : k ≤ 2) (hc : c ≠ quote) (cs : List Char) :
    closing? quote (List.replicate k quote ++ c :: cs) = none := by
  match k, hk with
  | 0, _ => exact closing?_of_ne hc cs
  | 1, _ => cases cs <;> simp [closing?, hc]
  | 2, _ => simp [closing?, List.replicate, hc]

/-- The quotes that a text begins with. -/
theorem exists_run (quote : Char) (cs : List Char) :
    ∃ ds, cs = List.replicate (cs.takeWhile (· == quote)).length quote ++ ds ∧ ds.head? ≠ some quote := by
  induction cs with
  | nil => exact ⟨[], rfl, nofun⟩
  | cons c cs ih =>
    obtain ⟨ds, hds, hhead⟩ := ih
    by_cases hc : c = quote
    · refine ⟨ds, ?_, hhead⟩
      rw [List.takeWhile_cons_of_pos (by simpa using hc), List.length_cons, List.replicate_succ,
        List.cons_append, ← hds, hc]
    · refine ⟨c :: cs, ?_, fun h => hc (Option.some.inj h)⟩
      rw [List.takeWhile_cons_of_neg (by simpa using hc)]
      rfl

/-- Behind quotes of the text, of which there are at most two in a row, the closing quotes are found
only where nothing else is left of it. -/
theorem closing?_text {quote : Char} (cs : List Char) {rest : List Char}
    (hrun : (cs.takeWhile (· == quote)).length ≤ 2) (hrest : rest.head? ≠ some quote) :
    (closing? quote (cs ++ (List.replicate 3 quote ++ rest)) = some (cs, rest) ∧ ∀ c ∈ cs, c = quote) ∨
      (closing? quote (cs ++ (List.replicate 3 quote ++ rest)) = none ∧ cs ≠ []) := by
  obtain ⟨ds, hcs, hhead⟩ := exists_run quote cs
  generalize (cs.takeWhile (· == quote)).length = k at hcs hrun
  subst hcs
  cases ds with
  | nil =>
    rw [List.append_nil]
    exact .inl ⟨closing?_quotes hrun hrest, fun c hc => List.eq_of_mem_replicate hc⟩
  | cons d ds =>
    rw [List.append_assoc, List.cons_append]
    exact .inr ⟨closing?_of_run hrun (fun h => hhead (congrArg some h)) _, by simp⟩

theorem readLongLiteral_of_closing {cs : List Char} {r : List Char × List Char}
    (h : closing? '\'' cs = some r) :
    readLongLiteral cs = some r := by
  cases cs with
  | nil => cases h
  | cons c cs => rw [readLongLiteral, h]

theorem readLongLiteral_cons {c : Char} {cs : List Char} (hclosing : closing? '\'' (c :: cs) = none)
    (h : isForbidden c = true → c = '\n') : readLongLiteral (c :: cs) = (readLongLiteral cs).push c := by
  rw [readLongLiteral, hclosing]
  by_cases hc : isForbidden c = true
  · obtain rfl := h hc
    rfl
  · simp [hc]

theorem readLongLiteral_append {cs rest : List Char} (hplain : ∀ c ∈ cs, isForbidden c = true → c = '\n')
    (hrun : longestRun '\'' cs ≤ 2) (hrest : rest.head? ≠ some '\'') :
    readLongLiteral (cs ++ (List.replicate 3 '\'' ++ rest)) = some (cs, rest) := by
  induction cs with
  | nil =>
    rcases closing?_text [] (Nat.zero_le 2) hrest with h | h
    · exact readLongLiteral_of_closing h.1
    · exact absurd rfl h.2
  | cons c cs ih =>
    obtain ⟨hrun, hcs⟩ := Nat.max_le.1 hrun
    rcases closing?_text _ hrun hrest with ⟨hclosing, -⟩ | ⟨hclosing, -⟩
    · exact readLongLiteral_of_closing hclosing
    · obtain ⟨hc, hplain⟩ := List.forall_mem_cons.1 hplain
      rw [List.cons_append] at hclosing ⊢
      rw [readLongLiteral_cons hclosing hc, ih hplain hcs]
      rfl

/-! ## Escapes on several lines -/

theorem escaped_quote {quotes : Nat} (h : quotes < 2) (cs : List Char) :
    escaped true quotes ('"' :: cs) = '"' :: escaped true (quotes + 1) cs := by
  simp [escaped, h]

theorem escaped_feed (quotes : Nat) (cs : List Char) :
    escaped true quotes ('\n' :: cs) = '\n' :: escaped true 0 cs := by
  simp [escaped]

theorem escaped_other {c : Char} {quotes : Nat} (hquote : c = '"' → ¬quotes < 2) (hfeed : c ≠ '\n')
    (cs : List Char) :
    escaped true quotes (c :: cs) = escapeChar c ++ escaped true 0 cs := by
  by_cases hc : c = '"'
  · simp [escaped, hc, hquote hc]
  · simp [escaped, hc, hfeed]

theorem exists_escapeChar (c : Char) : ∃ d ds, escapeChar c = d :: ds ∧ d ≠ '"' := by
  rcases escapeChar_cases c with ⟨hc, -, hquote, -⟩ | ⟨code, hc, -⟩
  · exact ⟨c, [], hc, hquote⟩
  · exact ⟨'\\', code, hc, by decide⟩

/-- How each character of a text is written on several lines. -/
theorem escaped_cases (quotes : Nat) (c : Char) (cs : List Char) :
    (quotes < 2 ∧ c = '"' ∧ escaped true quotes (c :: cs) = '"' :: escaped true (quotes + 1) cs) ∨
      (c = '\n' ∧ escaped true quotes (c :: cs) = '\n' :: escaped true 0 cs) ∨
      escaped true quotes (c :: cs) = escapeChar c ++ escaped true 0 cs := by
  by_cases hquote : c = '"' ∧ quotes < 2
  · exact .inl ⟨hquote.2, hquote.1, hquote.1 ▸ escaped_quote hquote.2 cs⟩
  by_cases hfeed : c = '\n'
  · exact .inr (.inl ⟨hfeed, hfeed ▸ escaped_feed quotes cs⟩)
  · exact .inr (.inr (escaped_other (fun hc h => hquote ⟨hc, h⟩) hfeed cs))

theorem run_escaped {quotes : Nat} (h : quotes ≤ 2) (cs : List Char) :
    ((escaped true quotes cs).takeWhile (· == '"')).length + quotes ≤ 2 := by
  induction cs generalizing quotes with
  | nil => simpa [escaped] using h
  | cons c cs ih =>
    rcases escaped_cases quotes c cs with ⟨hlt, -, he⟩ | ⟨-, he⟩ | he
    · have : ((escaped true (quotes + 1) cs).takeWhile (· == '"')).length + (quotes + 1) ≤ 2 := ih hlt
      rw [he, List.takeWhile_cons_of_pos rfl, List.length_cons]
      omega
    · rw [he]
      simpa using h
    · obtain ⟨d, ds, hc, hd⟩ := exists_escapeChar c
      rw [he, hc]
      simpa [hd] using h

/-- A text written as quotes only is what is written. -/
theorem eq_of_escaped {quotes : Nat} {cs : List Char} (h : ∀ c ∈ escaped true quotes cs, c = '"') :
    escaped true quotes cs = cs := by
  induction cs generalizing quotes with
  | nil => rfl
  | cons c cs ih =>
    rcases escaped_cases quotes c cs with ⟨-, rfl, he⟩ | ⟨-, he⟩ | he <;> rw [he] at h ⊢
    · rw [ih fun c hc => h c (List.mem_cons_of_mem _ hc)]
    · exact absurd (h '\n' List.mem_cons_self) (by decide)
    · obtain ⟨d, ds, hc, hd⟩ := exists_escapeChar c
      rw [hc] at h
      exact absurd (h d List.mem_cons_self) hd

theorem readLongBasic_skip (pre cs : List Char) :
    readLongBasic pre.length (pre ++ cs) = readLongBasic 0 cs := by
  induction pre with
  | nil => rfl
  | cons c pre ih => exact ih

theorem readLongBasic_of_closing {cs : List Char} {r : List Char × List Char} (h : closing? '"' cs = some r) :
    readLongBasic 0 cs = some r := by
  cases cs with
  | nil => cases h
  | cons c cs => rw [readLongBasic, h]

theorem readLongBasic_cons {c : Char} {cs : List Char} (hclosing : closing? '"' (c :: cs) = none)
    (hbackslash : c ≠ '\\')
    (h : isForbidden c = true → c = '\n') : readLongBasic 0 (c :: cs) = (readLongBasic 0 cs).push c := by
  rw [readLongBasic, hclosing]
  by_cases hc : isForbidden c = true
  · obtain rfl := h hc
    rfl
  · simp [hc, hbackslash]

theorem readLongBasic_escapeChar (c : Char) (cs : List Char) :
    readLongBasic 0 (escapeChar c ++ cs) = (readLongBasic 0 cs).push c := by
  rcases escapeChar_cases c with ⟨hc, hplain, hquote, hbackslash⟩ | ⟨code, hc, hcode⟩
  · rw [hc, List.singleton_append]
    exact readLongBasic_cons (closing?_of_ne hquote cs) hbackslash fun h => absurd h (by simp [hplain])
  · have hclosing : closing? '"' ('\\' :: (code ++ cs)) = none := closing?_of_ne (by decide) _
    rw [hc, List.cons_append, readLongBasic, hclosing]
    simp only []
    rw [if_pos (by decide), hcode.noGap, hcode.escape]
    simp only [readLongBasic_skip]

theorem readLongBasic_escaped {quotes : Nat} (h : quotes ≤ 2) {rest : List Char}
    (hrest : rest.head? ≠ some '"') (cs : List Char) :
    readLongBasic 0 (escaped true quotes cs ++ (List.replicate 3 '"' ++ rest)) = some (cs, rest) := by
  induction cs generalizing quotes with
  | nil =>
    rcases closing?_text [] (Nat.zero_le 2) hrest with h | h
    · exact readLongBasic_of_closing h.1
    · exact absurd rfl h.2
  | cons c cs ih =>
    have hrun := run_escaped h (c :: cs)
    rcases closing?_text (escaped true quotes (c :: cs)) (by omega) hrest
      with ⟨hclosing, hall⟩ | ⟨hclosing, -⟩
    · rw [readLongBasic_of_closing hclosing, eq_of_escaped hall]
    · rcases escaped_cases quotes c cs with ⟨hlt, rfl, he⟩ | ⟨rfl, he⟩ | he <;> rw [he] at hclosing ⊢
      · rw [List.cons_append] at hclosing ⊢
        rw [readLongBasic_cons hclosing (by decide) nofun, ih hlt]
        rfl
      · rw [List.cons_append] at hclosing ⊢
        rw [readLongBasic_cons hclosing (by decide) fun _ => rfl, ih (Nat.zero_le 2)]
        rfl
      · rw [List.append_assoc, readLongBasic_escapeChar, ih (Nat.zero_le 2)]
        rfl

/-! ## Any text -/

theorem quoted?_double {c : Char} (h : c ≠ '"') (cs : List Char) :
    quoted? ('"' :: c :: cs) = readBasic 0 (c :: cs) := by
  unfold quoted?
  split <;> simp_all

theorem quoted?_single {c : Char} (h : c ≠ '\'') (cs : List Char) :
    quoted? ('\'' :: c :: cs) = readLiteral (c :: cs) := by
  unfold quoted?
  split <;> simp_all

theorem breakLength_of_ne {c : Char} (h : isForbidden c = false) (cs : List Char) :
    breakLength (c :: cs) = 0 := by
  unfold breakLength
  split <;> simp_all [isForbidden]

theorem not_mem_of_longestRun {c : Char} {cs : List Char} (h : longestRun c cs = 0) : c ∉ cs := by
  induction cs with
  | nil => exact List.not_mem_nil
  | cons d cs ih =>
    obtain ⟨hrun, hcs⟩ := Nat.max_eq_zero_iff.1 h
    rw [List.mem_cons, not_or]
    refine ⟨?_, ih hcs⟩
    rintro rfl
    simp at hrun

section
variable {cs rest : List Char}

theorem quoted?_escaped (hrest : rest.head? ≠ some '"') :
    quoted? ('"' :: (escaped false 0 cs ++ '"' :: rest)) = some (cs, rest) := by
  cases cs with
  | nil =>
    cases rest with
    | nil => rfl
    | cons c rest =>
      have hc : c ≠ '"' := fun h => hrest (congrArg some h)
      have hread : quoted? ('"' :: '"' :: c :: rest) = readBasic 0 ('"' :: c :: rest) := by
        unfold quoted?
        split <;> simp_all
      exact hread
  | cons c cs =>
    obtain ⟨d, ds, hd, hne⟩ := exists_escapeChar c
    have hescaped : escaped false 0 (c :: cs) = d :: (ds ++ escaped false 0 cs) := by simp [escaped, hd]
    rw [hescaped, List.cons_append, quoted?_double hne, ← List.cons_append, ← hescaped, readBasic_escaped]

theorem quoted?_literal (hcs : cs ≠ []) (h : ∀ c ∈ cs, isForbidden c = false ∧ c ≠ '\'') :
    quoted? ('\'' :: (cs ++ '\'' :: rest)) = some (cs, rest) := by
  obtain ⟨c, ds, rfl⟩ := List.exists_cons_of_ne_nil hcs
  rw [List.cons_append, quoted?_single (h c List.mem_cons_self).2, ← List.cons_append, readLiteral_append h]

def leadingFeed (lines : Bool) : List Char :=
  if lines then ['\n'] else []

theorem quoted?_longEscaped {lines : Bool} (hlines : lines = cs.contains '\n')
    (hrest : rest.head? ≠ some '"') :
    quoted? (List.replicate 3 '"' ++
      (leadingFeed lines ++ (escaped true 0 cs ++ (List.replicate 3 '"' ++ rest)))) =
      some (cs, rest) := by
  have hread := readLongBasic_escaped (Nat.zero_le 2) hrest cs
  have hquoted (tail : List Char) : quoted? (List.replicate 3 '"' ++ tail) =
      readLongBasic (breakLength tail) tail := rfl
  rw [hquoted]
  cases lines with
  | true => exact hread
  | false =>
    have hbreak : breakLength (escaped true 0 cs ++ (List.replicate 3 '"' ++ rest)) = 0 := by
      cases cs with
      | nil => rfl
      | cons c cs =>
        rcases escaped_cases 0 c cs with ⟨-, -, he⟩ | ⟨rfl, -⟩ | he
        · rw [he]
          rfl
        · simp at hlines
        · rw [he]
          rcases escapeChar_cases c with ⟨hc, hplain, -⟩ | ⟨code, hc, -⟩ <;> rw [hc]
          · exact breakLength_of_ne hplain _
          · rfl
    unfold leadingFeed
    rw [if_neg (by decide), List.nil_append, hbreak, hread]

theorem quoted?_longLiteral {lines : Bool} (hlines : lines = cs.contains '\n')
    (hplain : ∀ c ∈ cs, isForbidden c = true → c = '\n') (hrun : longestRun '\'' cs ≤ 2)
    (hrest : rest.head? ≠ some '\'') :
    quoted? (List.replicate 3 '\'' ++ (leadingFeed lines ++ (cs ++ (List.replicate 3 '\'' ++ rest)))) =
      some (cs, rest) := by
  have hread := readLongLiteral_append hplain hrun hrest
  have hquoted (tail : List Char) :
      quoted? (List.replicate 3 '\'' ++ tail) = readLongLiteral (tail.drop (breakLength tail)) := rfl
  rw [hquoted]
  cases lines with
  | true => exact hread
  | false =>
    have hbreak : breakLength (cs ++ (List.replicate 3 '\'' ++ rest)) = 0 := by
      cases cs with
      | nil => rfl
      | cons c cs =>
        refine breakLength_of_ne ?_ _
        refine Bool.eq_false_iff.2 fun hc => ?_
        rw [hplain c List.mem_cons_self hc] at hlines
        simp at hlines
    unfold leadingFeed
    rw [if_neg (by decide), List.nil_append, hbreak, List.drop_zero, hread]

/-- A text is read back from what is written for it, up to anything but another quote. -/
theorem quoted?_writeChars (hdouble : rest.head? ≠ some '"') (hsingle : rest.head? ≠ some '\'') :
    quoted? (writeChars cs ++ rest) = some (cs, rest) := by
  have hfeed : (if cs.contains '\n' then ['\n'] else []) = leadingFeed (cs.contains '\n') := rfl
  have hplain (hcontrol : cs.any needsEscape = false) : ∀ c ∈ cs, isForbidden c = true → c = '\n' := by
    intro c hc hforbidden
    have hneeds := List.any_eq_false.1 hcontrol c hc
    simpa [needsEscape, hforbidden] using hneeds
  unfold writeChars
  dsimp only
  -- one case for each style of text, in the order in which the writer tries them
  rw [hfeed]
  split
  next =>
    rw [List.cons_append, List.cons_append, List.append_assoc]
    exact quoted?_escaped hdouble
  next hbare =>
  split
  next h =>
    simp only [Bool.and_eq_true, Bool.not_eq_true', beq_iff_eq] at h
    obtain ⟨⟨hcontrol, hrun⟩, hlines⟩ := h
    rw [List.cons_append, List.cons_append, List.append_assoc]
    refine quoted?_literal (fun hnil => hbare (by rw [hnil]; rfl)) fun c hc => ⟨?_, ?_⟩
    · refine Bool.eq_false_iff.2 fun hforbidden => ?_
      rw [hplain hcontrol c hc hforbidden] at hc
      rw [List.contains_iff_mem.2 hc] at hlines
      cases hlines
    · rintro rfl
      exact not_mem_of_longestRun hrun hc
  next =>
  split
  next =>
    simp only [List.append_assoc]
    exact quoted?_longEscaped rfl hdouble
  next =>
  split
  next h =>
    simp only [Bool.and_eq_true, Bool.not_eq_true', decide_eq_true_eq] at h
    simp only [List.append_assoc]
    exact quoted?_longLiteral rfl (hplain h.1) h.2 hsingle
  next =>
  split
  next =>
    simp only [List.append_assoc]
    exact quoted?_longEscaped rfl hdouble
  next =>
    rw [List.cons_append, List.cons_append, List.append_assoc]
    exact quoted?_escaped hdouble

end

end Toml

end UpdaterBootstrap
