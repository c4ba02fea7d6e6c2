import UpdaterBootstrap.Proofs.Collapsing

/-!
# Collapsing as a replacement

The pass over the characters replaces a pattern, a line feed, blanks and a line feed: the leftmost
match, the longest of those that begin there, and then on behind it. What is left has no match.
-/

namespace UpdaterBootstrap

def patternBlanks : List Char :=
  [' ', '\t', '\n', '\x0b', '\x0c', '\r']

/-- What the pattern `\n\s+\n` matches. -/
def IsBlankLines (m : List Char) : Prop :=
  ∃ blanks, blanks ≠ [] ∧ (∀ c ∈ blanks, c ∈ patternBlanks) ∧ m = '\n' :: (blanks ++ ['\n'])

/-- The text with its matches replaced from left to right. -/
inductive Replaced (p : List Char → Prop) (new : List Char) : List Char → List Char → Prop
  | done {cs : List Char} (h : ∀ m, p m → ¬ m <:+: cs) : Replaced p new cs cs
  | step {before m rest out : List Char} (hm : p m)
      (hleftmost : ∀ before' m' rest', p m' → before ++ (m ++ rest) = before' ++ (m' ++ rest') →
        before.length ≤ before'.length)
      (hlongest : ∀ m' rest', p m' → m ++ rest = m' ++ rest' → m'.length ≤ m.length)
      (hrest : Replaced p new rest out) : Replaced p new (before ++ (m ++ rest)) (before ++ (new ++ out))

/-! ## Replacing from left to right -/

section
variable {p : List Char → Prop} {new cs out out' : List Char}

theorem Replaced.unique (h : Replaced p new cs out) (h' : Replaced p new cs out') : out = out' := by
  induction h generalizing out' with
  | done hnone =>
    cases h' with
    | done _ => rfl
    | step hm _ _ _ => exact absurd (List.infix_append' _ _ _) (hnone _ hm)
  | @step before m rest out hm hleftmost hlongest _ ih =>
    generalize hcs : before ++ (m ++ rest) = cs at h'
    cases h' with
    | done hnone =>
      rw [← hcs] at hnone
      exact absurd (List.infix_append' _ _ _) (hnone m hm)
    | @step before' m' rest' out' hm' hleftmost' hlongest' hrest' =>
      have hbefore : before.length = before'.length :=
        Nat.le_antisymm (hleftmost before' m' rest' hm' hcs) (hleftmost' before m rest hm hcs.symm)
      obtain ⟨rfl, htail⟩ := List.append_inj hcs hbefore
      have hlength : m.length = m'.length :=
        Nat.le_antisymm (hlongest' m rest hm htail.symm) (hlongest m' rest' hm' htail)
      obtain ⟨rfl, rfl⟩ := List.append_inj htail hlength
      rw [ih hrest']

theorem not_infix_cons {c : Char} (hstart : ∀ m, p m → ¬ m <+: c :: cs) (hrest : ∀ m, p m → ¬ m <:+: cs) :
    ∀ m, p m → ¬ m <:+: c :: cs := by
  intro m hm hinfix
  obtain hprefix | htail := List.infix_cons_iff.1 hinfix
  · exact hstart m hm hprefix
  · exact hrest m hm htail

/-- A character at which no match begins stays. -/
theorem Replaced.cons {c : Char} (hstart : ∀ m, p m → ¬ m <+: c :: cs) (h : Replaced p new cs out) :
    Replaced p new (c :: cs) (c :: out) := by
  cases h with
  | done hnone => exact .done (not_infix_cons hstart hnone)
  | @step before m rest out hm hleftmost hlongest hrest =>
    have hfirst (before' m' rest' : List Char) (hm' : p m')
        (heq : c :: before ++ (m ++ rest) = before' ++ (m' ++ rest')) : (c :: before).length ≤
          before'.length := by
      cases before' with
      | nil => exact absurd ⟨rest', heq.symm⟩ (hstart m' hm')
      | cons d before' => exact Nat.succ_le_succ (hleftmost before' m' rest' hm' (List.cons.inj heq).2)
    exact .step hm hfirst hlongest hrest

/-- A match that the text begins with is replaced if it is the longest. -/
theorem Replaced.begins {m : List Char} (hm : p m)
    (hlongest : ∀ m', p m' → m' <+: m ++ cs → m'.length ≤ m.length)
    (h : Replaced p new cs out) : Replaced p new (m ++ cs) (new ++ out) := by
  apply @step p new [] m cs out hm
  · intro before' _ _ _ _
    exact Nat.zero_le before'.length
  · intro m' rest' hm' heq
    exact hlongest m' hm' ⟨rest', heq.symm⟩
  · exact h

end

/-! ## Matches -/

theorem isLineBlank_iff {c : Char} : isLineBlank c = true ↔ c ∈ patternBlanks := by
  simp [isLineBlank, patternBlanks, or_assoc]

/-- Among the blanks there is a last line feed, and no more blanks and line feeds follow it. -/
theorem exists_blankRun {cs : List Char} (h : blankRun cs ≠ 0) :
    ∃ a rest, cs = a ++ '\n' :: rest ∧ a.all isLineBlank = true ∧ blankRun cs = a.length + 1 ∧
      blankRun rest = 0 := by
  induction hn : cs.length using Nat.strongRecOn generalizing cs with
  | ind n ih =>
    subst hn
    have hmem : '\n' ∈ cs := by
      by_contra hfeed
      exact h (blankRun_of_not_mem hfeed)
    obtain ⟨a, rest, rfl, ha⟩ := List.eq_append_cons_of_mem hmem
    have hblank : a.all isLineBlank = true := by
      by_contra hsolid
      exact h (blankRun_of_solid ha (by simpa using hsolid) _)
    by_cases hrest : blankRun rest = 0
    · exact ⟨a, rest, rfl, hblank, by rw [blankRun_of_blank hblank, hrest], hrest⟩
    · obtain ⟨b, last, heq, hb, hlength, hlast⟩ := ih rest.length (by simp; omega) hrest rfl
      refine ⟨a ++ '\n' :: b, last, by simp [heq], ?_, ?_, hlast⟩
      · rw [List.all_append, List.all_cons, hblank, hb]
        rfl
      · rw [blankRun_of_blank hblank, hlength, List.length_append, List.length_cons]
        omega

/-- A match that a text begins with ends within the blanks after the first line feed. -/
theorem length_of_isBlankLines {m cs : List Char} {c : Char} (hm : IsBlankLines m) (h : m <+: c :: cs) :
    c = '\n' ∧ 3 ≤ m.length ∧ m.length ≤ blankRun cs + 1 := by
  obtain ⟨blanks, hne, hblanks, rfl⟩ := hm
  obtain ⟨rest, heq⟩ := h
  have hpos := List.length_pos_iff.2 hne
  obtain ⟨rfl, rfl⟩ : '\n' = c ∧ blanks ++ '\n' :: rest = cs := by simpa using heq
  have hall : blanks.all isLineBlank = true := List.all_eq_true.2 fun c hc => isLineBlank_iff.2 (hblanks c hc)
  rw [blankRun_of_blank hall]
  simp
  omega

theorem not_begins {c : Char} {cs : List Char} (h : c = '\n' → blankRun cs < 2) (m : List Char)
    (hm : IsBlankLines m) :
    ¬ m <+: c :: cs := by
  intro hprefix
  obtain ⟨hc, hlow, hhigh⟩ := length_of_isBlankLines hm hprefix
  have := h hc
  omega

/-- The replaced text after a line feed begins with as few blank lines. -/
theorem blankRun_collapseFrom {cs : List Char} (h : blankRun cs = 0) : blankRun (collapseFrom 0 cs) = 0 := by
  by_cases hmem : '\n' ∈ cs
  · obtain ⟨a, rest, rfl, ha⟩ := List.eq_append_cons_of_mem hmem
    have hsolid : a.all isLineBlank = false := by
      by_contra hblank
      rw [Bool.not_eq_false] at hblank
      rw [blankRun_of_blank hblank] at h
      omega
    rw [collapseFrom_plain ha]
    exact blankRun_of_solid ha hsolid _
  · rwa [collapseFrom_of_not_mem hmem]

/-! ## The pass -/

theorem not_infix_nil (m : List Char) (hm : IsBlankLines m) : ¬ m <:+: [] := by
  obtain ⟨blanks, _, _, rfl⟩ := hm
  simp

theorem drop_blankRun {a rest : List Char} (h : blankRun (a ++ '\n' :: rest) = a.length + 1) :
    (a ++ '\n' :: rest).drop (blankRun (a ++ '\n' :: rest)) = rest := by
  rw [h, ← List.drop_drop, List.drop_left]
  rfl

theorem replaced_collapseFrom (cs : List Char) :
    Replaced IsBlankLines ['\n', '\n'] cs (collapseFrom 0 cs) := by
  induction hn : cs.length using Nat.strongRecOn generalizing cs with
  | ind n ih =>
    subst hn
    cases cs with
    | nil => exact .done not_infix_nil
    | cons c cs =>
      have hlater := ih cs.length (by simp) cs rfl
      by_cases hc : c = '\n'
      · subst hc
        rw [collapseFrom_step]
        by_cases hrun : 2 ≤ blankRun cs
        -- the match reaches to the last line feed among the blanks
        · obtain ⟨a, rest, rfl, ha, hlength, _⟩ := exists_blankRun (show blankRun cs ≠ 0 by omega)
          have hm : IsBlankLines ('\n' :: (a ++ ['\n'])) := by
            refine ⟨a, ?_, fun c hc => isLineBlank_iff.1 (List.all_eq_true.1 ha c hc), rfl⟩
            rintro rfl
            rw [hlength] at hrun
            simp at hrun
          have heq : '\n' :: (a ++ '\n' :: rest) = '\n' :: (a ++ ['\n']) ++ rest := by simp
          rw [if_pos hrun, drop_blankRun hlength, heq]
          refine .begins hm (fun m' hm' hprefix => ?_) (ih rest.length (by simp; omega) rest rfl)
          rw [← heq] at hprefix
          have := (length_of_isBlankLines hm' hprefix).2.2
          simp
          omega
        · rw [if_neg hrun]
          exact hlater.cons (not_begins fun _ => by omega)
      · rw [collapseFrom_ne hc]
        exact hlater.cons (not_begins fun heq => absurd heq hc)

theorem not_infix_collapseFrom (cs : List Char) : ∀ m, IsBlankLines m → ¬ m <:+: collapseFrom 0 cs := by
  induction hn : cs.length using Nat.strongRecOn generalizing cs with
  | ind n ih =>
    subst hn
    cases cs with
    | nil => exact not_infix_nil
    | cons c cs =>
      have hlater := ih cs.length (by simp) cs rfl
      by_cases hc : c = '\n'
      · subst hc
        rw [collapseFrom_feed]
        by_cases hrun : blankRun cs = 0
        · rw [if_pos hrun]
          have := blankRun_collapseFrom hrun
          exact not_infix_cons (not_begins fun _ => by omega) hlater
        -- the second of the two line feeds has no line feed among the blanks after it
        · obtain ⟨a, rest, rfl, _, hlength, hrest⟩ := exists_blankRun hrun
          have hlast := blankRun_collapseFrom hrest
          have hfeed := blankRun_of_blank (a := []) rfl (collapseFrom 0 rest)
          rw [if_neg hrun, drop_blankRun hlength]
          refine not_infix_cons (not_begins fun _ => ?_) (not_infix_cons (not_begins fun _ => ?_) ?_)
          · rw [List.nil_append, hlast] at hfeed
            simp [hfeed]
          · omega
          · exact ih rest.length (by simp; omega) rest rfl
      · rw [collapseFrom_ne hc]
        exact not_infix_cons (not_begins fun heq => absurd heq hc) hlater

theorem collapseBlankLines_spec (text : String) :
    (∀ out, Replaced IsBlankLines ['\n', '\n'] text.toList out ↔ out = (collapseBlankLines text).toList) ∧
    (∀ m, IsBlankLines m → ¬ m <:+: (collapseBlankLines text).toList) ∧
    collapseBlankLines (collapseBlankLines text) = collapseBlankLines text ∧
    (collapseBlankLines text).toList.filter (· ∉ patternBlanks) = text.toList.filter (· ∉ patternBlanks) := by
  have htext : (collapseBlankLines text).toList = collapseFrom 0 text.toList := String.toList_ofList
  have hreplaced := replaced_collapseFrom text.toList
  have hnone := not_infix_collapseFrom text.toList
  rw [htext]
  refine ⟨fun out => ⟨fun h => h.unique hreplaced, fun h => h ▸ hreplaced⟩, hnone, ?_, ?_⟩
  · have hagain := (replaced_collapseFrom (collapseFrom 0 text.toList)).unique (.done hnone)
    rw [collapseBlankLines, htext, hagain]
    rfl
  · have hkept := filter_collapseFrom 0 text.toList
    have hblank : ∀ c, (!isLineBlank c) = decide (c ∉ patternBlanks) := fun c => by
      rw [Bool.eq_iff_iff, Bool.not_eq_true', ← Bool.not_eq_true, isLineBlank_iff, decide_eq_true_iff]
    simpa only [hblank, List.drop_zero] using hkept

end UpdaterBootstrap
