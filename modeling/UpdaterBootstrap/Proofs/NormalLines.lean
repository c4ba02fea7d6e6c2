import Mathlib.Data.List.DropRight
import UpdaterBootstrap.Updater.Interpretation

/-!
# Normal lines

A text is cut at its line ends in one way, whatever they are. Its normal form has these lines
without the blanks at their ends, a line feed after each, and the last line as it is
(`normalizeLines_spec`). So scripts that differ in their line ends only are interpreted alike.
-/

namespace UpdaterBootstrap

/-! ## Line ends -/

inductive LineEnd
  | feed
  | carriage
  | pair

def LineEnd.chars : LineEnd → List Char
  | .feed => ['\n']
  | .carriage => ['\r']
  | .pair => ['\r', '\n']

/-- The text is these lines, each with a line end after it, and a last line. A line feed right after
a carriage return belongs to the same line end. -/
inductive HasLines : List Char → List (List Char × LineEnd) → List Char → Prop
  | last {line : List Char} (h : ∀ c ∈ line, c ≠ '\n' ∧ c ≠ '\r') : HasLines line [] line
  | line {line rest last : List Char} {e : LineEnd} {ls : List (List Char × LineEnd)}
      (h : ∀ c ∈ line, c ≠ '\n' ∧ c ≠ '\r') (he : e = .carriage → rest.head? ≠ some '\n')
      (hrest : HasLines rest ls last) : HasLines (line ++ (e.chars ++ rest)) ((line, e) :: ls) last

theorem HasLines.emptyLine {e : LineEnd} {rest last : List Char} {ls : List (List Char × LineEnd)}
    (he : e = .carriage → rest.head? ≠ some '\n') (h : HasLines rest ls last) :
    HasLines (e.chars ++ rest) (([], e) :: ls) last :=
  @HasLines.line [] rest last e ls (by simp) he h

theorem HasLines.cons {c : Char} {cs last : List Char} {ls : List (List Char × LineEnd)}
    (hc : c ≠ '\n' ∧ c ≠ '\r')
    (h : HasLines cs ls last) : ∃ ls' last', HasLines (c :: cs) ls' last' := by
  cases h with
  | last h => exact ⟨[], c :: cs, .last (List.forall_mem_cons.2 ⟨hc, h⟩)⟩
  | @line line _ _ e ls h he hrest =>
    exact ⟨(c :: line, e) :: ls, last, .line (List.forall_mem_cons.2 ⟨hc, h⟩) he hrest⟩

theorem exists_hasLines (cs : List Char) : ∃ ls last, HasLines cs ls last := by
  fun_induction unifyLineEnds cs with
  | case1 => exact ⟨[], [], .last (by simp)⟩
  | case2 cs ih =>
    obtain ⟨ls, last, h⟩ := ih
    exact ⟨([], .pair) :: ls, last, HasLines.emptyLine (e := .pair) nofun h⟩
  | case3 c cs hpair ih =>
    obtain ⟨ls, last, h⟩ := ih
    by_cases hfeed : c = '\n'
    · subst hfeed
      exact ⟨([], .feed) :: ls, last, HasLines.emptyLine (e := .feed) nofun h⟩
    by_cases hcarriage : c = '\r'
    · subst hcarriage
      refine ⟨([], .carriage) :: ls, last, HasLines.emptyLine (e := .carriage) ?_ h⟩
      intro _ hhead
      obtain ⟨rest, rfl⟩ := List.head?_eq_some_iff.1 hhead
      exact hpair rest rfl rfl
    · exact h.cons ⟨hfeed, hcarriage⟩

/-! ## One line end for all -/

theorem unifyLineEnds_append {a : List Char} (h : ∀ c ∈ a, c ≠ '\r') (cs : List Char) :
    unifyLineEnds (a ++ cs) = a ++ unifyLineEnds cs := by
  induction a with
  | nil => rfl
  | cons c a ih =>
    obtain ⟨hc, ha⟩ := List.forall_mem_cons.1 h
    rw [List.cons_append, unifyLineEnds, ih ha]
    · simp [hc]
    · intro _ hcr
      exact absurd hcr hc

theorem unifyLineEnds_eq {cs : List Char} (h : ∀ c ∈ cs, c ≠ '\r') : unifyLineEnds cs = cs := by
  have happend := unifyLineEnds_append h []
  simpa [unifyLineEnds] using happend

theorem unifyLineEnds_lineEnd {e : LineEnd} {cs : List Char} (h : e = .carriage → cs.head? ≠ some '\n') :
    unifyLineEnds (e.chars ++ cs) = '\n' :: unifyLineEnds cs := by
  cases e with
  | feed => simp [LineEnd.chars, unifyLineEnds]
  | pair => simp [LineEnd.chars, unifyLineEnds]
  | carriage =>
    rw [LineEnd.chars, List.singleton_append, unifyLineEnds]
    · simp
    · intro rest _ hcs
      simp [hcs] at h

theorem carriage_not_mem_unifyLineEnds (cs : List Char) : '\r' ∉ unifyLineEnds cs := by
  fun_induction unifyLineEnds cs with
  | case1 => simp
  | case2 cs ih => simp [ih]
  | case3 c cs _ ih =>
    by_cases hc : c = '\r'
    · simp [hc, ih]
    · simp [hc, ih, Ne.symm hc]

/-! ## Blanks before a line feed -/

def isSpaceOrTab (c : Char) : Bool :=
  c == ' ' || c == '\t'

theorem dropTrailingBlanks_cons (c : Char) (cs : List Char) :
    dropTrailingBlanks (c :: cs) =
      if isSpaceOrTab c && (dropTrailingBlanks cs).head? == some '\n' then dropTrailingBlanks cs
      else c :: dropTrailingBlanks cs := rfl

theorem dropTrailingBlanks_feed (rest : List Char) :
    dropTrailingBlanks ('\n' :: rest) = '\n' :: dropTrailingBlanks rest := by
  simp [dropTrailingBlanks_cons, isSpaceOrTab]

/-- Whether a line ends in a character that is kept before a line feed. -/
def EndsSolid (l : List Char) : Prop :=
  ∀ c, l.getLast? = some c → c ≠ ' ' ∧ c ≠ '\t'

theorem dropTrailingBlanks_solid {l : List Char} (h : ∀ c ∈ l, c ≠ '\n') (hlast : EndsSolid l)
    (rest : List Char) :
    dropTrailingBlanks (l ++ rest) = l ++ dropTrailingBlanks rest := by
  induction l with
  | nil => rfl
  | cons c l ih =>
    obtain ⟨_, hl⟩ := List.forall_mem_cons.1 h
    have hsolid : EndsSolid l := by
      intro d hd
      apply hlast d
      simp [List.getLast?_cons, hd]
    rw [List.cons_append, dropTrailingBlanks_cons, ih hl hsolid]
    cases l with
    | nil =>
      have hc := hlast c rfl
      simp [isSpaceOrTab, hc]
    | cons d l =>
      have hd : d ≠ '\n' := h d (by simp)
      simp [hd]

theorem dropTrailingBlanks_blanks {b : List Char} (h : ∀ c ∈ b, isSpaceOrTab c = true) (rest : List Char) :
    dropTrailingBlanks (b ++ '\n' :: rest) = '\n' :: dropTrailingBlanks rest := by
  induction b with
  | nil => exact dropTrailingBlanks_feed rest
  | cons c b ih =>
    obtain ⟨hc, hb⟩ := List.forall_mem_cons.1 h
    rw [List.cons_append, dropTrailingBlanks_cons, ih hb]
    simp [hc]

theorem dropTrailingBlanks_line {line : List Char} (h : ∀ c ∈ line, c ≠ '\n') (rest : List Char) :
    dropTrailingBlanks (line ++ '\n' :: rest) = line.rdropWhile isSpaceOrTab ++
      '\n' :: dropTrailingBlanks rest := by
  have hsolid : EndsSolid (line.rdropWhile isSpaceOrTab) := by
    intro c hc
    have hne : line.rdropWhile isSpaceOrTab ≠ [] := by
      intro hempty
      simp [hempty] at hc
    have hlast := List.rdropWhile_last_not isSpaceOrTab line hne
    rw [List.getLast?_eq_some_getLast hne, Option.some.injEq] at hc
    simpa [isSpaceOrTab, hc] using hlast
  have hkept : ∀ c ∈ line.rdropWhile isSpaceOrTab, c ≠ '\n' := by
    intro c hc
    exact h c ((List.rdropWhile_prefix isSpaceOrTab line).subset hc)
  have hblank : ∀ c ∈ line.rtakeWhile isSpaceOrTab, isSpaceOrTab c = true :=
    fun _ hc => List.mem_rtakeWhile_imp hc
  calc dropTrailingBlanks (line ++ '\n' :: rest)
      = dropTrailingBlanks (line.rdropWhile isSpaceOrTab ++
        (line.rtakeWhile isSpaceOrTab ++ '\n' :: rest)) := by
        rw [← List.append_assoc, List.rdropWhile_append_rtakeWhile]
    _ = line.rdropWhile isSpaceOrTab ++ '\n' :: dropTrailingBlanks rest := by
        rw [dropTrailingBlanks_solid hkept hsolid, dropTrailingBlanks_blanks hblank]

theorem dropTrailingBlanks_last {line : List Char} (h : ∀ c ∈ line, c ≠ '\n') :
    dropTrailingBlanks line = line := by
  induction line with
  | nil => rfl
  | cons c line ih =>
    obtain ⟨_, hline⟩ := List.forall_mem_cons.1 h
    rw [dropTrailingBlanks_cons, ih hline]
    cases line with
    | nil => simp
    | cons d line => simp [h d]

theorem dropTrailingBlanks_sublist (cs : List Char) : (dropTrailingBlanks cs).Sublist cs := by
  induction cs with
  | nil => exact .slnil
  | cons c cs ih =>
    rw [dropTrailingBlanks_cons]
    split
    · exact ih.cons c
    · exact ih.cons_cons c

/-- No blank is left before a line feed. -/
theorem not_infix_dropTrailingBlanks {c : Char} (hc : isSpaceOrTab c = true) (cs : List Char) :
    ¬ [c, '\n'] <:+: dropTrailingBlanks cs := by
  induction cs with
  | nil => simp [dropTrailingBlanks]
  | cons d cs ih =>
    rw [dropTrailingBlanks_cons]
    split
    · exact ih
    · rename_i hkept
      intro hinfix
      obtain hprefix | hinfix := List.infix_cons_iff.1 hinfix
      · obtain ⟨rfl, rest, hrest⟩ := List.cons_prefix_cons.1 hprefix
        simp [hc, ← hrest] at hkept
      · exact ih hinfix

theorem dropTrailingBlanks_eq {cs : List Char} (h : ∀ c, isSpaceOrTab c = true → ¬ [c, '\n'] <:+: cs) :
    dropTrailingBlanks cs = cs := by
  induction cs with
  | nil => rfl
  | cons c cs ih =>
    rw [dropTrailingBlanks_cons, ih fun d hd hinfix => h d hd (List.infix_cons hinfix), if_neg]
    intro hdropped
    obtain ⟨hc, hhead⟩ := Bool.and_eq_true_iff.1 hdropped
    obtain ⟨rest, rfl⟩ := List.head?_eq_some_iff.1 (beq_iff_eq.1 hhead)
    exact h c hc ⟨[], rest, rfl⟩

/-! ## The normal form -/

theorem HasLines.normal {cs last : List Char} {ls : List (List Char × LineEnd)} (h : HasLines cs ls last) :
    dropTrailingBlanks (unifyLineEnds cs) =
      ls.flatMap (fun l => l.1.rdropWhile isSpaceOrTab ++ ['\n']) ++ last := by
  induction h with
  | last h =>
    rw [unifyLineEnds_eq fun c hc => (h c hc).2, dropTrailingBlanks_last fun c hc => (h c hc).1]
    rfl
  | line h he _ ih =>
    rw [unifyLineEnds_append fun c hc => (h c hc).2, unifyLineEnds_lineEnd he,
      dropTrailingBlanks_line fun c hc => (h c hc).1, ih]
    simp

theorem HasLines.not_mem {cs last : List Char} {ls : List (List Char × LineEnd)} (h : HasLines cs ls last) :
    (∀ l ∈ ls, '\n' ∉ l.1) ∧ '\n' ∉ last := by
  induction h with
  | last h => exact ⟨by simp, fun hfeed => (h _ hfeed).1 rfl⟩
  | line h _ _ ih => exact ⟨List.forall_mem_cons.2 ⟨fun hfeed => (h _ hfeed).1 rfl, ih.1⟩, ih.2⟩

theorem HasLines.count_normal {cs last : List Char} {ls : List (List Char × LineEnd)}
    (h : HasLines cs ls last) :
    (dropTrailingBlanks (unifyLineEnds cs)).count '\n' = ls.length := by
  obtain ⟨hls, hlast⟩ := h.not_mem
  rw [h.normal, List.count_append, List.count_eq_zero.2 hlast]
  clear h
  induction ls with
  | nil => rfl
  | cons l ls ih =>
    obtain ⟨hl, hls⟩ := List.forall_mem_cons.1 hls
    have hkept : '\n' ∉ l.1.rdropWhile isSpaceOrTab :=
      fun hfeed => hl ((List.rdropWhile_prefix isSpaceOrTab l.1).subset hfeed)
    have hrest := ih hls
    simp [List.count_append, List.count_eq_zero.2 hkept] at hrest ⊢
    omega

def withLineEnds (e : LineEnd) (text : String) : String :=
  .ofList (text.toList.flatMap fun c => if c = '\n' then e.chars else [c])

theorem unifyLineEnds_withLineEnds (e : LineEnd) {cs : List Char} (h : '\r' ∉ cs) :
    unifyLineEnds (cs.flatMap fun c => if c = '\n' then e.chars else [c]) = cs := by
  induction cs with
  | nil => rfl
  | cons c cs ih =>
    rw [List.mem_cons, not_or] at h
    rw [List.flatMap_cons]
    by_cases hc : c = '\n'
    · rw [if_pos hc, unifyLineEnds_lineEnd, ih h.2, hc]
      rintro rfl hhead
      cases cs with
      | nil => simp at hhead
      | cons d cs =>
        by_cases hd : d = '\n'
        · simp [hd, LineEnd.chars] at hhead
        · simp [hd] at hhead
    · rw [if_neg hc, unifyLineEnds_append, ih h.2]
      · rfl
      · simp [Ne.symm h.1]

theorem toList_normalizeLines (text : String) :
    (normalizeLines text).toList = dropTrailingBlanks (unifyLineEnds text.toList) := by
  rw [normalizeLines, String.toList_ofList]

theorem normalizeLines_normalizeLines (text : String) :
    normalizeLines (normalizeLines text) = normalizeLines text := by
  have hcarriage : ∀ c ∈ (normalizeLines text).toList, c ≠ '\r' := by
    rintro _ hc rfl
    rw [toList_normalizeLines] at hc
    exact carriage_not_mem_unifyLineEnds _ ((dropTrailingBlanks_sublist _).subset hc)
  apply String.toList_injective
  rw [toList_normalizeLines (normalizeLines text), unifyLineEnds_eq hcarriage, toList_normalizeLines]
  exact dropTrailingBlanks_eq fun c hc => not_infix_dropTrailingBlanks hc _

theorem normalizeLines_withLineEnds (e : LineEnd) {text : String} (h : '\r' ∉ text.toList) :
    normalizeLines (withLineEnds e text) = normalizeLines text := by
  have hown : ∀ c ∈ text.toList, c ≠ '\r' := by
    rintro _ hc rfl
    exact h hc
  rw [normalizeLines, withLineEnds, String.toList_ofList, unifyLineEnds_withLineEnds e h, normalizeLines,
    unifyLineEnds_eq hown]

/-- A normal text has no carriage return and no space or tab before a line feed. It has the lines of
its source, each without the spaces and tabs at its end and with one line feed in place of its line
end, and the last line as it is. Normalizing changes it no more, and makes no difference between the
line ends, so that the scripts are interpreted alike. -/
theorem normalizeLines_spec (text : String) :
    '\r' ∉ (normalizeLines text).toList ∧
    (∀ c, isSpaceOrTab c = true → ¬ [c, '\n'] <:+: (normalizeLines text).toList) ∧
    (∃ ls last, HasLines text.toList ls last) ∧
    (∀ ls last, HasLines text.toList ls last →
      (normalizeLines text).toList.count '\n' = ls.length ∧
      (normalizeLines text).toList = ls.flatMap (fun l => l.1.rdropWhile isSpaceOrTab ++ ['\n']) ++ last) ∧
    normalizeLines (normalizeLines text) = normalizeLines text ∧
    ('\r' ∉ text.toList → ∀ e, normalizeLines (withLineEnds e text) = normalizeLines text ∧
      ∀ (i : Interpreter) (path : String), i.interpret path (withLineEnds e text) =
        i.interpret path text) := by
  refine ⟨?_, ?_, exists_hasLines _, ?_, normalizeLines_normalizeLines text, ?_⟩
  · rw [toList_normalizeLines]
    exact fun hc => carriage_not_mem_unifyLineEnds _ ((dropTrailingBlanks_sublist _).subset hc)
  · intro c hc
    rw [toList_normalizeLines]
    exact not_infix_dropTrailingBlanks hc _
  · intro ls last h
    rw [toList_normalizeLines]
    exact ⟨h.count_normal, h.normal⟩
  · intro h e
    refine ⟨normalizeLines_withLineEnds e h, ?_⟩
    intro i path
    rw [Interpreter.interpret, Interpreter.interpret, normalizeLines_withLineEnds e h]

theorem normalizeLines_spec_carriages :
    let text := "@Updater(name = 'A') \n\nclass A \x7b\x7d "
    let ls := [("@Updater(name = 'A') ".toList, LineEnd.feed), ([], LineEnd.feed)]
    HasLines text.toList ls "class A \x7b\x7d ".toList ∧ (normalizeLines text).toList.count '\n' = ls.length ∧
      '\r' ∉ text.toList ∧ withLineEnds .carriage text = "@Updater(name = 'A') \r\rclass A \x7b\x7d " ∧
      normalizeLines (withLineEnds .carriage text) = normalizeLines text := by
  intro text ls
  have hlast : HasLines "class A \x7b\x7d ".toList [] "class A \x7b\x7d ".toList := .last (by simp)
  have htext : text.toList = "@Updater(name = 'A') ".toList ++
      (LineEnd.feed.chars ++ (LineEnd.feed.chars ++ "class A \x7b\x7d ".toList)) := by decide +kernel
  have hlines : HasLines text.toList ls "class A \x7b\x7d ".toList := by
    rw [htext]
    exact .line (by simp) nofun (.emptyLine nofun hlast)
  have hfeeds : '\r' ∉ text.toList := by decide
  obtain ⟨-, -, -, hcut, -, hends⟩ := normalizeLines_spec text
  exact ⟨hlines, (hcut _ _ hlines).1, hfeeds, by decide +kernel, (hends hfeeds .carriage).1⟩

end UpdaterBootstrap
