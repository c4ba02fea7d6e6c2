import UpdaterBootstrap.Proofs.Thinning
import UpdaterBootstrap.Text.Split

/-!
# Lines of a stripped text

With the line count kept every line of a text leaves one line. It is the line itself where no recognized
annotation touches it (`splitOn_stripChars`).
-/

namespace UpdaterBootstrap

/-! ## Lines of a text -/

/-- The lines of a text with what is cut out of them; the last one has no line feed. -/
def linesOf (cs : List Cut) : List CutLine :=
  if (cutLines cs).getLast?.any (·.feed.isNone) then cutLines cs else cutLines cs ++ [⟨[], none⟩]

def scriptLines (cs : List Char) : List CutLine :=
  linesOf (cuts cs)

theorem linesOf_line {a : List Cut} (h : ∀ c ∈ a, c.1 ≠ '\n') (removed : Bool) (rest : List Cut) :
    linesOf (a ++ ('\n', removed) :: rest) = ⟨a, some removed⟩ :: linesOf rest := by
  unfold linesOf
  rw [cutLines_line h, List.getLast?_cons]
  cases (cutLines rest).getLast? with
  | none => rfl
  | some l =>
    simp only [Option.getD_some, Option.any_some]
    split <;> rfl

theorem linesOf_last {a : List Cut} (h : ∀ c ∈ a, c.1 ≠ '\n') : linesOf a = [⟨a, none⟩] := by
  by_cases hne : a = []
  · subst hne
    rfl
  · unfold linesOf
    rw [cutLines_last h hne]
    rfl

theorem linesOf_ne_nil (cs : List Cut) : linesOf cs ≠ [] := by
  unfold linesOf
  split
  · rename_i hlast
    intro hnil
    rw [hnil] at hlast
    cases hlast
  · simp

/-- A property of lists of cuts that holds of single lines and of a line before a text that has it. -/
theorem cuts_induction {motive : List Cut → Prop} (last : ∀ a, (∀ c ∈ a, c.1 ≠ '\n') → motive a)
    (line : ∀ a removed rest, (∀ c ∈ a, c.1 ≠ '\n') → motive rest →
      motive (a ++ ('\n', removed) :: rest))
    (cs : List Cut) : motive cs := by
  induction hn : cs.length using Nat.strongRecOn generalizing cs with
  | ind n ih =>
    subst hn
    rcases exists_line cs with h | ⟨a, removed, rest, rfl, ha⟩
    · exact last cs h
    · apply line a removed rest ha
      apply ih rest.length _ rest rfl
      simp
      omega

theorem not_mem_map_fst {a : List Cut} (h : ∀ c ∈ a, c.1 ≠ '\n') : '\n' ∉ a.map Prod.fst := by
  intro hmem
  obtain ⟨c, hc, hfeed⟩ := List.mem_map.1 hmem
  exact h c hc hfeed

theorem splitOn_map_fst (cs : List Cut) :
    splitOn '\n' (cs.map Prod.fst) = (linesOf cs).map fun l => l.content.map Prod.fst := by
  induction cs using cuts_induction with
  | last a h =>
    rw [linesOf_last h, splitOn_of_not_mem (not_mem_map_fst h)]
    rfl
  | line a removed rest h ih =>
    rw [linesOf_line h, List.map_append, List.map_cons, splitOn_first (not_mem_map_fst h), ih]
    rfl

/-! ## What is left of a line -/

/-- The line without what is cut out of it; nothing if it is touched and only blanks stay. -/
def CutLine.left (l : CutLine) : List Char :=
  if l.isTouched && l.kept.all isAsciiBlank then [] else l.kept

theorem CutLine.kept_of_untouched {l : CutLine} (h : l.isTouched = false) :
    l.kept = l.content.map Prod.fst := by
  rw [isTouched, Bool.or_eq_false_iff, List.any_eq_false] at h
  rw [kept, List.filter_eq_self.2]
  intro c hc
  simpa using h.1 c hc

theorem CutLine.left_of_untouched {l : CutLine} (h : l.isTouched = false) :
    l.left = l.content.map Prod.fst := by
  rw [left, h, Bool.false_and, if_neg Bool.false_ne_true, kept_of_untouched h]

theorem CutLine.rest_of_lineCount (l : CutLine) : l.rest true = l.left ++ l.feedText := by
  cases htouched : l.isTouched with
  | false => rw [left_of_untouched htouched, rest, htouched, Bool.not_false, if_pos rfl]
  | true =>
    rw [rest, left, htouched, Bool.not_true, if_neg Bool.false_ne_true, Bool.true_and]
    rfl

theorem CutLine.not_mem_left {l : CutLine} (h : ∀ c ∈ l.content, c.1 ≠ '\n') : '\n' ∉ l.left := by
  unfold left kept
  split
  · exact List.not_mem_nil
  · apply not_mem_map_fst
    intro c hc
    exact h c ((List.mem_filter.1 hc).1)

theorem splitOn_cutLines (cs : List Cut) :
    splitOn '\n' ((cutLines cs).flatMap (CutLine.rest true)) = (linesOf cs).map CutLine.left := by
  induction cs using cuts_induction with
  | last a h =>
    have hleft := CutLine.not_mem_left (l := ⟨a, none⟩) h
    rw [linesOf_last h]
    by_cases hne : a = []
    · subst hne
      rfl
    · rw [cutLines_last h hne, List.flatMap_singleton, CutLine.rest_of_lineCount]
      exact (congrArg _ (List.append_nil _)).trans (splitOn_of_not_mem hleft)
  | line a removed rest h ih =>
    have hleft := CutLine.not_mem_left (l := ⟨a, some removed⟩) h
    rw [linesOf_line h, cutLines_line h, List.flatMap_cons, CutLine.rest_of_lineCount, List.append_assoc]
    exact (splitOn_first hleft _).trans (congrArg _ ih)

theorem toList_stripAnnotations (source : String) (keepLineCount : Bool) :
    (stripAnnotations source keepLineCount).toList = stripChars keepLineCount source.toList := by
  rw [stripAnnotations, String.toList_ofList]

/-- With the line count kept, each line of a text leaves one line. -/
theorem splitOn_stripChars (cs : List Char) :
    splitOn '\n' (stripChars true cs) = (scriptLines cs).map CutLine.left :=
  splitOn_cutLines (cuts cs)

theorem splitOn_script (cs : List Char) :
    splitOn '\n' cs = (scriptLines cs).map fun l => l.content.map Prod.fst := by
  have h := splitOn_map_fst (cuts cs)
  rwa [map_fst_cuts] at h

end UpdaterBootstrap
