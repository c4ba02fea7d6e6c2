import Mathlib.Data.List.Basic
import UpdaterBootstrap.Script.Lines
import UpdaterBootstrap.Text.Split

/-!
# Collapsing blank lines, line by line

The pass over the characters leaves the first line and the last one alone, and makes one empty line
of the blank lines that follow each other in between (`splitOn_collapseFrom`). It keeps the number
of lines exactly if no two blank lines follow each other.
-/

namespace UpdaterBootstrap

/-! ## Blanks before a line feed -/

/-- The number of characters up to the last line feed among the blanks that the text begins with. -/
def blankRun (cs : List Char) : Nat :=
  throughLastFeed (cs.takeWhile isLineBlank)

theorem throughLastFeed_of_not_mem {a : List Char} (h : '\n' ∉ a) : throughLastFeed a = 0 := by
  induction a with
  | nil => rfl
  | cons c a ih =>
    rw [List.mem_cons, not_or] at h
    rw [throughLastFeed, ih h.2]
    simp [Ne.symm h.1]

theorem throughLastFeed_append (a w : List Char) :
    throughLastFeed (a ++ '\n' :: w) = a.length + 1 + throughLastFeed w := by
  induction a with
  | nil =>
    rw [List.nil_append, throughLastFeed, List.length_nil]
    cases throughLastFeed w with
    | zero => rfl
    | succ n =>
      dsimp only
      omega
  | cons c a ih =>
    have hpos : throughLastFeed (a ++ '\n' :: w) = (a.length + throughLastFeed w) + 1 := by omega
    rw [List.cons_append, throughLastFeed, hpos, List.length_cons]
    dsimp only
    omega

theorem blankRun_of_not_mem {a : List Char} (h : '\n' ∉ a) : blankRun a = 0 := by
  apply throughLastFeed_of_not_mem
  intro hmem
  exact h ((List.takeWhile_prefix _).subset hmem)

theorem blankRun_of_blank {a : List Char} (h : a.all isLineBlank = true) (cs : List Char) :
    blankRun (a ++ '\n' :: cs) = a.length + 1 + blankRun cs := by
  unfold blankRun
  rw [List.takeWhile_append_of_pos (List.all_eq_true.1 h), List.takeWhile_cons_of_pos (by decide)]
  exact throughLastFeed_append a _

theorem blankRun_of_solid {a : List Char} (hfeed : '\n' ∉ a) (h : a.all isLineBlank = false)
    (cs : List Char) :
    blankRun (a ++ cs) = 0 := by
  apply throughLastFeed_of_not_mem
  intro hmem
  obtain ⟨x, hx, hsolid⟩ := List.all_eq_false.1 h
  -- the blanks end within `a`
  have hshort : (a ++ cs).takeWhile isLineBlank = a.takeWhile isLineBlank := by
    rw [List.takeWhile_append, if_neg]
    intro hlength
    have hall : a.takeWhile isLineBlank = a := (List.takeWhile_prefix _).eq_of_length hlength
    have hblank := List.all_takeWhile (l := a) (p := isLineBlank)
    rw [hall] at hblank
    exact hsolid (List.all_eq_true.1 hblank x hx)
  rw [hshort] at hmem
  exact hfeed ((List.takeWhile_prefix _).subset hmem)

/-! ## The pass -/

theorem collapseFrom_skip (n : Nat) (cs : List Char) : collapseFrom n cs = collapseFrom 0 (cs.drop n) := by
  induction cs generalizing n with
  | nil =>
    cases n <;> rfl
  | cons c cs ih =>
    cases n with
    | zero => rfl
    | succ n =>
      rw [collapseFrom, List.drop_succ_cons]
      exact ih n

theorem collapseFrom_plain {a : List Char} (h : '\n' ∉ a) (cs : List Char) :
    collapseFrom 0 (a ++ cs) = a ++ collapseFrom 0 cs := by
  induction a with
  | nil => rfl
  | cons c a ih =>
    rw [List.mem_cons, not_or] at h
    rw [List.cons_append, collapseFrom, ih h.2]
    simp [Ne.symm h.1]

theorem collapseFrom_ne {c : Char} (h : c ≠ '\n') (cs : List Char) :
    collapseFrom 0 (c :: cs) = c :: collapseFrom 0 cs := by
  have := collapseFrom_plain (a := [c]) (by simpa using Ne.symm h) cs
  rwa [List.singleton_append] at this

theorem collapseFrom_step (cs : List Char) : collapseFrom 0 ('\n' :: cs) =
    if 2 ≤ blankRun cs then '\n' :: '\n' :: collapseFrom 0 (cs.drop (blankRun cs))
      else '\n' :: collapseFrom 0 cs := by
  rw [collapseFrom]
  simp only [beq_self_eq_true, if_true, collapseFrom_skip (throughLastFeed _)]
  rfl

/-- A single line feed is like one that has been found to be replaced. -/
theorem collapseFrom_feed (cs : List Char) :
    collapseFrom 0 ('\n' :: cs) =
      if blankRun cs = 0 then '\n' :: collapseFrom 0 cs
        else '\n' :: '\n' :: collapseFrom 0 (cs.drop (blankRun cs)) := by
  rw [collapseFrom_step]
  by_cases hzero : blankRun cs = 0
  · simp [hzero]
  by_cases htwo : 2 ≤ blankRun cs
  · simp [hzero, htwo]
  have hone : blankRun cs = 1 := by omega
  have hmem : '\n' ∈ cs := by
    by_contra hfeed
    exact hzero (blankRun_of_not_mem hfeed)
  obtain ⟨a, rest, rfl, ha⟩ := List.eq_append_cons_of_mem hmem
  cases hblank : a.all isLineBlank with
  | false => exact absurd (blankRun_of_solid ha hblank _) hzero
  | true =>
    rw [blankRun_of_blank hblank] at hone
    have hnil : a = [] := List.length_eq_zero_iff.1 (by omega)
    have hrest : blankRun rest = 0 := by omega
    subst hnil
    have hrun : blankRun ('\n' :: rest) = 1 := by
      have := blankRun_of_blank (a := []) rfl rest
      rwa [hrest] at this
    rw [List.nil_append, hrun, collapseFrom_step rest, hrest]
    rfl

/-! ## What is kept -/

theorem throughLastFeed_le (cs : List Char) : throughLastFeed cs ≤ cs.length := by
  induction cs with
  | nil => simp [throughLastFeed]
  | cons c cs ih =>
    rw [throughLastFeed, List.length_cons]
    cases hn : throughLastFeed cs with
    | zero =>
      dsimp only
      split <;> omega
    | succ n =>
      dsimp only
      omega

theorem filter_drop_blankRun (cs : List Char) :
    (cs.drop (blankRun cs)).filter (fun c => !isLineBlank c) = cs.filter fun c => !isLineBlank c := by
  have hrun : cs.take (blankRun cs) <+: cs.takeWhile isLineBlank := by
    apply List.prefix_of_prefix_length_le (List.take_prefix _ cs) (List.takeWhile_prefix isLineBlank)
    rw [List.length_take]
    exact Nat.le_trans (Nat.min_le_left _ _) (throughLastFeed_le _)
  have hblank : (cs.take (blankRun cs)).filter (fun c => !isLineBlank c) = [] := by
    rw [List.filter_eq_nil_iff]
    intro c hc
    simpa using List.all_eq_true.1 List.all_takeWhile c (hrun.subset hc)
  have hall := congrArg (List.filter fun c => !isLineBlank c) (List.take_append_drop (blankRun cs) cs)
  rwa [List.filter_append, hblank, List.nil_append] at hall

/-- Only blanks are dropped. -/
theorem filter_collapseFrom (n : Nat) (cs : List Char) :
    (collapseFrom n cs).filter (fun c => !isLineBlank c) = (cs.drop n).filter fun c => !isLineBlank c := by
  induction cs generalizing n with
  | nil => simp [collapseFrom]
  | cons c cs ih =>
    cases n with
    | succ n =>
      rw [collapseFrom, List.drop_succ_cons]
      exact ih n
    | zero =>
      rw [List.drop_zero]
      by_cases hc : c = '\n'
      · subst hc
        have hfeed : isLineBlank '\n' = true := by decide
        rw [collapseFrom_feed]
        split
        · simp [hfeed, ih]
        · simp [hfeed, ← collapseFrom_skip, ih, filter_drop_blankRun]
      · rw [collapseFrom_ne hc]
        simp [List.filter_cons, ih]

/-! ## Lines -/

def beginsBlank : List (List Char) → Bool
  | l :: _ :: _ => l.all isLineBlank
  | _ => false

/-- Lines after another one: of the blank lines that follow each other an empty one is left. -/
def collapseInner : List (List Char) → List (List Char)
  | [] => []
  | [l] => [l]
  | l :: l' :: ls =>
    if !l.all isLineBlank then l :: collapseInner (l' :: ls)
    else if beginsBlank (l' :: ls) then collapseInner (l' :: ls)
    else [] :: collapseInner (l' :: ls)

def collapseLines : List (List Char) → List (List Char)
  | [] => []
  | l :: ls => l :: collapseInner ls

theorem collapseInner_cons (l : List Char) {ls : List (List Char)} (hne : ls ≠ []) :
    collapseInner (l :: ls) =
      if !l.all isLineBlank then l :: collapseInner ls
      else if beginsBlank ls then collapseInner ls
      else [] :: collapseInner ls := by
  cases ls with
  | nil => exact absurd rfl hne
  | cons l' ls => rfl

theorem beginsBlank_splitOn (cs : List Char) : beginsBlank (splitOn '\n' cs) = true ↔ blankRun cs ≠ 0 := by
  by_cases hmem : '\n' ∈ cs
  · obtain ⟨a, rest, rfl, ha⟩ := List.eq_append_cons_of_mem hmem
    rw [splitOn_first ha]
    have hbegins : beginsBlank (a :: splitOn '\n' rest) = a.all isLineBlank := by
      cases hls : splitOn '\n' rest with
      | nil => exact absurd hls (splitOn_ne_nil '\n' rest)
      | cons l ls => rfl
    rw [hbegins]
    cases hblank : a.all isLineBlank with
    | false => simp [blankRun_of_solid ha hblank]
    | true =>
      rw [blankRun_of_blank hblank]
      simp
  · rw [splitOn_of_not_mem hmem, blankRun_of_not_mem hmem]
    simp [beginsBlank]

theorem collapseFrom_of_not_mem {a : List Char} (h : '\n' ∉ a) : collapseFrom 0 a = a := by
  have := collapseFrom_plain h []
  rwa [List.append_nil, collapseFrom, List.append_nil] at this

theorem exists_collapseFrom_feed (cs : List Char) : ∃ ds, collapseFrom 0 ('\n' :: cs) = '\n' :: ds := by
  rw [collapseFrom_feed]
  split <;> exact ⟨_, rfl⟩

theorem splitOn_collapseFrom_feed (cs : List Char) :
    splitOn '\n' (collapseFrom 0 ('\n' :: cs)) = [] :: collapseInner (splitOn '\n' cs) := by
  have hfeed (ds : List Char) : splitOn '\n' ('\n' :: ds) = [] :: splitOn '\n' ds := rfl
  -- on the lines of the text: a blank line is replaced together with those that follow it
  induction hn : cs.length using Nat.strongRecOn generalizing cs with
  | ind n ih =>
    subst hn
    by_cases hmem : '\n' ∈ cs
    · obtain ⟨a, rest, rfl, ha⟩ := List.eq_append_cons_of_mem hmem
      have hlater := ih rest.length (by simp; omega) rest rfl
      rw [splitOn_first ha, collapseInner_cons _ (splitOn_ne_nil '\n' rest), collapseFrom_feed]
      cases hblank : a.all isLineBlank with
      | false =>
        rw [blankRun_of_solid ha hblank, if_pos rfl, collapseFrom_plain ha, hfeed]
        obtain ⟨ds, hds⟩ := exists_collapseFrom_feed rest
        rw [hds, hfeed, List.cons.injEq] at hlater
        rw [hds, splitOn_first ha, hlater.2]
        rfl
      | true =>
        have hdrop : (a ++ '\n' :: rest).drop (blankRun (a ++ '\n' :: rest)) = rest.drop (blankRun rest) := by
          rw [blankRun_of_blank hblank, ← List.drop_drop, ← List.drop_drop, List.drop_left]
          rfl
        have hrun : blankRun (a ++ '\n' :: rest) ≠ 0 := by
          rw [blankRun_of_blank hblank]
          omega
        rw [if_neg hrun, hdrop, hfeed]
        rw [collapseFrom_feed] at hlater
        by_cases hmore : blankRun rest = 0
        · rw [if_pos hmore, hfeed, List.cons.injEq] at hlater
          have hlast : beginsBlank (splitOn '\n' rest) = false := by
            rw [← Bool.not_eq_true, beginsBlank_splitOn, hmore]
            simp
          rw [hmore, List.drop_zero, hfeed, hlater.2, hlast]
          rfl
        · rw [if_neg hmore, hfeed, List.cons.injEq] at hlater
          rw [(beginsBlank_splitOn rest).2 hmore, hlater.2]
          rfl
    · rw [collapseFrom_feed, blankRun_of_not_mem hmem, if_pos rfl, hfeed]
      rw [collapseFrom_of_not_mem hmem, splitOn_of_not_mem hmem]
      rfl

theorem splitOn_collapseFrom (cs : List Char) :
    splitOn '\n' (collapseFrom 0 cs) = collapseLines (splitOn '\n' cs) := by
  by_cases hmem : '\n' ∈ cs
  · obtain ⟨a, rest, rfl, ha⟩ := List.eq_append_cons_of_mem hmem
    have hlater := splitOn_collapseFrom_feed rest
    obtain ⟨ds, hds⟩ := exists_collapseFrom_feed rest
    rw [hds] at hlater
    rw [collapseFrom_plain ha, hds, splitOn_first ha, splitOn_first ha, (List.cons.inj hlater).2]
    rfl
  · rw [collapseFrom_of_not_mem hmem, splitOn_of_not_mem hmem]
    rfl

/-! ## Places of blank lines -/

/-- A blank line at place `n` of lines after another one, and not the last. -/
def BlankAt (ls : List (List Char)) (n : Nat) : Prop :=
  n + 1 < ls.length ∧ ∃ l, ls[n]? = some l ∧ l.all isLineBlank = true

theorem blankAt_zero {l : List Char} {ls : List (List Char)} (hne : ls ≠ []) :
    BlankAt (l :: ls) 0 ↔ l.all isLineBlank = true := by
  have hlength := List.length_pos_iff.2 hne
  simp [BlankAt, hlength]

@[simp] theorem blankAt_succ (l : List Char) (ls : List (List Char)) (n : Nat) :
    BlankAt (l :: ls) (n + 1) ↔ BlankAt ls n := by
  simp [BlankAt]

theorem beginsBlank_iff {ls : List (List Char)} : beginsBlank ls = true ↔ BlankAt ls 0 := by
  match ls with
  | [] => simp [beginsBlank, BlankAt]
  | [l] => simp [beginsBlank, BlankAt]
  | l :: l' :: ls => rw [blankAt_zero (List.cons_ne_nil l' ls), beginsBlank]

theorem length_collapseInner_le (ls : List (List Char)) : (collapseInner ls).length ≤ ls.length := by
  induction ls with
  | nil => simp [collapseInner]
  | cons l ls ih =>
    by_cases hne : ls = []
    · simp [hne, collapseInner]
    · rw [collapseInner_cons l hne]
      split
      · simpa using ih
      · split
        · exact Nat.le_succ_of_le ih
        · simpa using ih

def BlanksApart (ls : List (List Char)) : Prop :=
  ∀ n, BlankAt ls n → ¬ BlankAt ls (n + 1)

theorem blanksApart_cons {l : List Char} {ls : List (List Char)} (hne : ls ≠ []) :
    BlanksApart (l :: ls) ↔ (l.all isLineBlank = true → ¬ BlankAt ls 0) ∧ BlanksApart ls := by
  constructor
  · intro h
    refine ⟨fun hl => ?_, fun n => ?_⟩
    · simpa using h 0 ((blankAt_zero hne).2 hl)
    · simpa using h (n + 1)
  · rintro ⟨hfirst, hrest⟩ n
    cases n with
    | zero => simpa [blankAt_zero hne] using hfirst
    | succ n => simpa using hrest n

theorem length_collapseInner_iff {ls : List (List Char)} :
    (collapseInner ls).length = ls.length ↔ BlanksApart ls := by
  induction ls with
  | nil => simp [collapseInner, BlanksApart, BlankAt]
  | cons l ls ih =>
    by_cases hne : ls = []
    · subst hne
      simp [collapseInner, BlanksApart, BlankAt]
    · rw [collapseInner_cons l hne, blanksApart_cons hne, ← ih, ← beginsBlank_iff]
      have hle := length_collapseInner_le ls
      cases l.all isLineBlank with
      | false => simp
      | true =>
        cases beginsBlank ls with
        | false => simp
        | true =>
          simp only [Bool.not_true, Bool.false_eq_true, if_false, if_true, List.length_cons,
            not_true_eq_false, imp_false, false_and, iff_false]
          omega

theorem getElem?_collapseInner {ls : List (List Char)} (h : BlanksApart ls) (n : Nat) :
    (BlankAt ls n → (collapseInner ls)[n]? = some []) ∧
      (¬ BlankAt ls n → (collapseInner ls)[n]? = ls[n]?) := by
  induction ls generalizing n with
  | nil => simp [collapseInner, BlankAt]
  | cons l ls ih =>
    by_cases hne : ls = []
    · subst hne
      simp [collapseInner, BlankAt]
    · obtain ⟨hfirst, hrest⟩ := (blanksApart_cons hne).1 h
      have ih := ih hrest
      rw [← beginsBlank_iff] at hfirst
      rw [collapseInner_cons l hne]
      cases hblank : l.all isLineBlank with
      | false =>
        cases n with
        | zero => simp [blankAt_zero hne, hblank]
        | succ n => simpa using ih n
      | true =>
        have hnext : beginsBlank ls = false := by simpa using hfirst hblank
        cases n with
        | zero => simp [blankAt_zero hne, hblank, hnext]
        | succ n => simpa [hnext] using ih n

end UpdaterBootstrap
