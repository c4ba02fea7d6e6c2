import UpdaterBootstrap.Proofs.LinePlaces
import UpdaterBootstrap.Proofs.StrippedBytes

/-!
# What a stripped text has of its source

The stripped text has the characters of its source, in their order, but for those of recognized
annotations and for blanks on the lines of these (`stripAnnotations_faithful`). With the line count
it has them on the lines they came from (`splitOn_stripAnnotations`).
-/

namespace UpdaterBootstrap

theorem select_sublist (mask : List Bool) (cs : List Char) : (select mask cs).Sublist cs := by
  induction mask generalizing cs with
  | nil => simp [select]
  | cons m mask ih =>
    cases cs with
    | nil => simp [select]
    | cons c cs =>
      cases m with
      | false =>
        have hskip : select (false :: mask) (c :: cs) = select mask cs := by simp [select]
        rw [hskip]
        exact (ih cs).cons c
      | true =>
        have htake : select (true :: mask) (c :: cs) = c :: select mask cs := by simp [select]
        rw [htake]
        exact (ih cs).cons_cons c

/-- The bytes that stay when recognized annotations are cut out line by line are those of the
stripped text. It has the characters of its source in their order, but for some that are in an
annotation or are blanks on a line that one touches: those stay that are in no annotation and on no
cleared line, and with the line count all line feeds. -/
theorem stripAnnotations_faithful (source : String) (keepLineCount : Bool) :
    strippedBytes source keepLineCount = (stripAnnotations source keepLineCount).toUTF8.data.toList ∧
    (stripAnnotations source keepLineCount).toList.Sublist source.toList ∧
    ∃ mask : List Bool, mask.length = source.toList.length ∧
      select mask source.toList = (stripAnnotations source keepLineCount).toList ∧
      ∀ place c, source.toList[place]? = some c →
        (mask[place]? = some false → isCutAt source place = true ∨
          (isAsciiBlank c = true ∧ IsTouched source (lineNumber source.toList place))) ∧
        (mask[place]? = some true ↔ (keepLineCount = true ∧ c = '\n') ∨
          (isCutAt source place = false ∧ ¬ IsCleared source (lineNumber source.toList place))) := by
  have hselect := stripChars_eq_select keepLineCount source.toList
  rw [toList_stripAnnotations, hselect]
  refine ⟨strippedBytes_eq source keepLineCount, select_sublist _ _, stays keepLineCount source.toList,
    length_stays keepLineCount source.toList, rfl, ?_⟩
  intro place c hc
  have hstays := stays_iff hc keepLineCount
  refine ⟨?_, hstays⟩
  intro hgone
  rw [hgone] at hstays
  cases hcut : isCutAt source place with
  | true => exact .inl rfl
  | false =>
    have hcleared : IsCleared source (lineNumber source.toList place) := by
      by_contra hkept
      exact Bool.noConfusion (Option.some.inj (hstays.2 (.inr ⟨hcut, hkept⟩)))
    exact .inr ⟨hcleared.2 place c hc rfl hcut, hcleared.1⟩

/-! ## Lines -/

def outside (source : String) (offset : Nat) (cs : List Char) : List Char :=
  ((coveredChars (isCovered source) offset cs).filter fun c => !c.2).map Prod.fst

def lineStart (source : String) (n : Nat) : Nat :=
  byteLength (((splitOn '\n' source.toList).take n).flatMap (· ++ ['\n']))

theorem content_coveredChars {covered : Nat → Bool} {offset : Nat} {cs : List Cut}
    (h : cs = coveredChars covered offset (cs.map Prod.fst)) {n : Nat} {l : CutLine}
    (hl : (linesOf cs)[n]? = some l) :
    l.content = coveredChars covered
      (offset + byteLength (((splitOn '\n' (cs.map Prod.fst)).take n).flatMap (· ++ ['\n'])))
        (l.content.map Prod.fst) := by
  induction cs using cuts_induction generalizing offset n with
  | last a ha =>
    rw [linesOf_last ha] at hl
    obtain ⟨rfl, rfl⟩ : n = 0 ∧ ⟨a, none⟩ = l := by
      cases n with
      | zero => exact ⟨rfl, Option.some.inj hl⟩
      | succ n => cases hl
    exact h
  | line a removed rest ha ih =>
    -- the offset of a later line counts this one with its line feed
    have hlines := splitOn_first (not_mem_map_fst ha) (rest.map Prod.fst)
    rw [List.map_append, List.map_cons, coveredChars_append] at h
    obtain ⟨hfirst, hrest⟩ := List.append_inj h (by rw [length_coveredChars, List.length_map])
    rw [linesOf_line ha] at hl
    rw [List.map_append, List.map_cons, hlines]
    cases n with
    | zero =>
      obtain rfl := Option.some.inj hl
      exact hfirst
    | succ n =>
      have hlater := ih (List.cons.inj hrest).2 hl
      rw [List.take_succ_cons, List.flatMap_cons, byteLength_append, byteLength_append, ← Nat.add_assoc,
        ← Nat.add_assoc]
      exact hlater

/-- With the line count there is a line for each line of the source: the line itself if no
recognized annotation touches it, and else what is outside of them, or nothing if that is only
blanks. -/
theorem splitOn_stripAnnotations (source : String) :
    (splitOn '\n' (stripAnnotations source true).toList).length = (splitOn '\n' source.toList).length ∧
    ∀ n line, (splitOn '\n' source.toList)[n]? = some line →
      (¬ IsTouched source n → (splitOn '\n' (stripAnnotations source true).toList)[n]? = some line) ∧
      (IsTouched source n → (splitOn '\n' (stripAnnotations source true).toList)[n]? =
        some (if (outside source (lineStart source n) line).all isAsciiBlank then []
          else outside source (lineStart source n) line)) := by
  rw [toList_stripAnnotations, splitOn_stripChars, splitOn_script]
  refine ⟨by rw [List.length_map, List.length_map], ?_⟩
  intro n line hline
  rw [List.getElem?_map, Option.map_eq_some_iff] at hline
  obtain ⟨l, hl, rfl⟩ := hline
  have hleft : ((scriptLines source.toList).map CutLine.left)[n]? = some l.left := by
    rw [List.getElem?_map, hl, Option.map_some]
  have htouched : IsTouched source n ↔ l.isTouched = true := by
    rw [isTouched_iff, hl]
    simp
  have hcuts : cuts source.toList =
      coveredChars (isCovered source) 0 ((cuts source.toList).map Prod.fst) := by
    rw [map_fst_cuts]
    exact cuts_eq source
  have hkept : outside source (lineStart source n) (l.content.map Prod.fst) = l.kept := by
    have hcontent := content_coveredChars hcuts hl
    rw [map_fst_cuts, Nat.zero_add, ← lineStart] at hcontent
    rw [outside, ← hcontent, CutLine.kept]
  rw [htouched, hleft, hkept]
  constructor
  · intro h
    rw [CutLine.left_of_untouched (Bool.not_eq_true _ ▸ h)]
  · intro h
    rw [CutLine.left, h, Bool.true_and]

end UpdaterBootstrap
