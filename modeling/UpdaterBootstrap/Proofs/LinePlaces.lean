import UpdaterBootstrap.Proofs.CoveredBytes
import UpdaterBootstrap.Proofs.LineStructure

/-!
# Characters on their lines

A character of a text stands on the line that as many line feeds come before; a line feed ends its
own line. Whether a character stays when a text is stripped depends on whether an annotation covers
it and on what else is on its line (`stays_iff`).
-/

namespace UpdaterBootstrap

def lineNumber (cs : List Char) (place : Nat) : Nat :=
  (cs.take place).count '\n'

def isCutAt (source : String) (place : Nat) : Bool :=
  isCovered source (byteLength (source.toList.take place))

def IsTouched (source : String) (n : Nat) : Prop :=
  ∃ place c, source.toList[place]? = some c ∧ lineNumber source.toList place = n ∧ isCutAt source place = true

/-- Nothing but blanks is left of a touched line. -/
def IsCleared (source : String) (n : Nat) : Prop :=
  IsTouched source n ∧ ∀ place c, source.toList[place]? = some c → lineNumber source.toList place = n →
    isCutAt source place = false → isAsciiBlank c = true

/-! ## Places on lines -/

theorem getElem?_coveredChars (covered : Nat → Bool) (offset : Nat) (cs : List Char) (place : Nat) :
    (coveredChars covered offset cs)[place]? =
      cs[place]?.map fun c => (c, covered (offset + byteLength (cs.take place))) := by
  induction cs generalizing offset place with
  | nil => rfl
  | cons c cs ih =>
    cases place with
    | zero => rfl
    | succ place =>
      rw [coveredChars, List.getElem?_cons_succ, ih, List.getElem?_cons_succ, List.take_succ_cons,
        byteLength_cons, Nat.add_assoc]

theorem getElem?_cuts (source : String) (place : Nat) :
    (cuts source.toList)[place]? = source.toList[place]?.map fun c => (c, isCutAt source place) := by
  rw [cuts_eq, getElem?_coveredChars, Nat.zero_add]
  rfl

theorem lineNumber_first {a : List Char} (h : '\n' ∉ a) {place : Nat} (hplace : place ≤ a.length)
    (rest : List Char) :
    lineNumber (a ++ rest) place = 0 := by
  rw [lineNumber, List.take_append_of_le_length hplace, List.count_eq_zero]
  intro hmem
  exact h (List.mem_of_mem_take hmem)

theorem lineNumber_later {a : List Char} (h : '\n' ∉ a) (rest : List Char) (place : Nat) :
    lineNumber (a ++ '\n' :: rest) (a.length + 1 + place) = lineNumber rest place + 1 := by
  rw [lineNumber, Nat.add_assoc, List.take_length_add_append, Nat.add_comm 1 place, List.take_succ_cons,
    List.count_append, List.count_eq_zero.2 h, List.count_cons_self, Nat.zero_add]
  rfl

theorem flatMap_linesOf {α : Type} {f : CutLine → List α} (hf : f ⟨[], none⟩ = []) (cs : List Cut) :
    (linesOf cs).flatMap f = (cutLines cs).flatMap f := by
  unfold linesOf
  split
  · rfl
  · rw [List.flatMap_append, List.flatMap_singleton, hf, List.append_nil]

theorem ne_feed_of_mem_linesOf (cs : List Cut) : ∀ l ∈ linesOf cs, ∀ c ∈ l.content, c.1 ≠ '\n' := by
  induction cs using cuts_induction with
  | last a h =>
    rw [linesOf_last h]
    exact List.forall_mem_singleton.2 h
  | line a removed rest h ih =>
    rw [linesOf_line h]
    exact List.forall_mem_cons.2 ⟨h, ih⟩

structure StandsOn (cs : List Cut) (place : Nat) (before : List CutLine) (l : CutLine) (within : Nat) :
    Prop where
  lines : ∃ after, linesOf cs = before ++ l :: after
  number : lineNumber (cs.map Prod.fst) place = before.length
  place_eq : place = (before.flatMap CutLine.whole).length + within
  within_lt : within < l.whole.length

theorem standsOn_last {a : List Cut} (ha : ∀ c ∈ a, c.1 ≠ '\n') {place : Nat} (h : place < a.length) :
    StandsOn a place [] ⟨a, none⟩ place := by
  have hplace : place ≤ (a.map Prod.fst).length := by
    rw [List.length_map]
    exact Nat.le_of_lt h
  have hnumber := lineNumber_first (not_mem_map_fst ha) hplace []
  rw [List.append_nil] at hnumber
  exact ⟨⟨[], linesOf_last ha⟩, hnumber, (Nat.zero_add _).symm, by simpa [CutLine.whole] using h⟩

theorem standsOn_first {a : List Cut} (ha : ∀ c ∈ a, c.1 ≠ '\n') {place : Nat} (h : place ≤ a.length)
    (removed : Bool)
    (rest : List Cut) : StandsOn (a ++ ('\n', removed) :: rest) place [] ⟨a, some removed⟩ place := by
  have hplace : place ≤ (a.map Prod.fst).length := by rwa [List.length_map]
  refine ⟨⟨linesOf rest, linesOf_line ha removed rest⟩, ?_, (Nat.zero_add _).symm, ?_⟩
  · rw [List.map_append]
    exact lineNumber_first (not_mem_map_fst ha) hplace _
  · simpa [CutLine.whole] using Nat.lt_succ_of_le h

theorem StandsOn.later {a rest : List Cut} {place : Nat} {before : List CutLine} {l : CutLine} {within : Nat}
    (h : StandsOn rest place before l within) (ha : ∀ c ∈ a, c.1 ≠ '\n') (removed : Bool) :
    StandsOn (a ++ ('\n', removed) :: rest) (a.length + 1 + place) (⟨a, some removed⟩ :: before) l
      within := by
  obtain ⟨⟨after, hlines⟩, hnumber, hplace, hwithin⟩ := h
  have hlater := lineNumber_later (not_mem_map_fst ha) (rest.map Prod.fst) place
  rw [List.length_map] at hlater
  refine ⟨⟨after, ?_⟩, ?_, ?_, hwithin⟩
  · rw [linesOf_line ha, hlines, List.cons_append]
  · rw [List.map_append, List.map_cons, hlater, hnumber, List.length_cons]
  · rw [List.flatMap_cons, List.length_append, hplace, Nat.add_assoc _ _ within]
    simp [CutLine.whole]

theorem exists_standsOn {cs : List Cut} {place : Nat} (h : place < cs.length) :
    ∃ before l within, StandsOn cs place before l within := by
  induction cs using cuts_induction generalizing place with
  | last a ha => exact ⟨[], _, place, standsOn_last ha h⟩
  | line a removed rest ha ih =>
    by_cases hplace : place ≤ a.length
    · exact ⟨[], _, place, standsOn_first ha hplace removed rest⟩
    · obtain ⟨later, rfl⟩ := Nat.exists_eq_add_of_lt (Nat.lt_of_not_le hplace)
      rw [List.length_append, List.length_cons] at h
      have hlater : later < rest.length := by omega
      obtain ⟨before, l, within, hstands⟩ := ih hlater
      rw [Nat.add_right_comm]
      exact ⟨_, l, within, hstands.later ha removed⟩

theorem exists_place_on {cs : List Cut} {before after : List CutLine} {l : CutLine}
    (hlines : linesOf cs = before ++ l :: after) {within : Nat} (hwithin : within < l.whole.length) :
    ∃ place, StandsOn cs place before l within := by
  induction cs using cuts_induction generalizing before with
  | last a ha =>
    rw [linesOf_last ha] at hlines
    obtain ⟨rfl, hlast⟩ : before = [] ∧ [⟨a, none⟩] = l :: after := by
      cases before with
      | nil => exact ⟨rfl, hlines⟩
      | cons k before => simp at hlines
    obtain ⟨rfl, _⟩ := List.cons.inj hlast
    exact ⟨within, standsOn_last ha (by simpa [CutLine.whole] using hwithin)⟩
  | line a removed rest ha ih =>
    rw [linesOf_line ha] at hlines
    cases before with
    | nil =>
      obtain ⟨rfl, _⟩ := List.cons.inj hlines
      have hle : within ≤ a.length := by simpa [CutLine.whole, Nat.lt_succ_iff] using hwithin
      exact ⟨within, standsOn_first ha hle removed rest⟩
    | cons k before =>
      obtain ⟨rfl, hlater⟩ := List.cons.inj hlines
      obtain ⟨place, hstands⟩ := ih hlater
      exact ⟨_, hstands.later ha removed⟩

namespace StandsOn

variable {cs : List Cut} {place : Nat} {before : List CutLine} {l : CutLine} {within : Nat}
  (h : StandsOn cs place before l within)
include h

theorem getElem?_lines : (linesOf cs)[lineNumber (cs.map Prod.fst) place]? = some l := by
  obtain ⟨after, hlines⟩ := h.lines
  rw [h.number, hlines, List.getElem?_append_right (Nat.le_refl _), Nat.sub_self]
  rfl

/-- What lines have for each of their characters stands at the places of the characters. -/
theorem getElem?_flatMap {α : Type} {f : CutLine → List α} (hf : ∀ k, (f k).length = k.whole.length) :
    ((cutLines cs).flatMap f)[place]? = (f l)[within]? := by
  obtain ⟨after, hlines⟩ := h.lines
  have hlength : (before.flatMap f).length = (before.flatMap CutLine.whole).length := by
    rw [List.length_flatMap, List.length_flatMap]
    simp only [hf]
  have hwithin : within < (f l).length := by
    rw [hf]
    exact h.within_lt
  rw [← flatMap_linesOf (List.eq_nil_of_length_eq_zero (hf _)), hlines, List.flatMap_append,
    List.flatMap_cons, h.place_eq, ← hlength, List.getElem?_append_right (Nat.le_add_right _ _),
      Nat.add_sub_cancel_left, List.getElem?_append_left hwithin]

theorem getElem?_eq : cs[place]? = l.whole[within]? := by
  rw [← h.getElem?_flatMap fun k => rfl, flatMap_whole]

end StandsOn

/-! ## Lines of a text -/

/-- What stands on a line, with its place and whether it is cut out. -/
theorem mem_whole_iff {source : String} {n : Nat} {c : Char} {removed : Bool} :
    (∃ l, (scriptLines source.toList)[n]? = some l ∧ (c, removed) ∈ l.whole) ↔
      ∃ place, source.toList[place]? = some c ∧ lineNumber source.toList place = n ∧
        isCutAt source place = removed := by
  have hchars (place : Nat) : (cuts source.toList)[place]? = some (c, removed) ↔
      source.toList[place]? = some c ∧ isCutAt source place = removed := by
    rw [getElem?_cuts]
    cases source.toList[place]? <;> simp
  have hnumber (place : Nat) : lineNumber ((cuts source.toList).map Prod.fst) place =
      lineNumber source.toList place := by
    rw [map_fst_cuts]
  constructor
  · intro ⟨l, hl, hc⟩
    obtain ⟨hn, rfl⟩ := List.getElem?_eq_some_iff.1 hl
    have hlines := (List.take_append_drop n (scriptLines source.toList)).symm
    rw [List.drop_eq_getElem_cons hn] at hlines
    obtain ⟨within, hwithin, hc⟩ := List.mem_iff_getElem.1 hc
    obtain ⟨place, hstands⟩ := exists_place_on hlines hwithin
    have hplace := hstands.getElem?_eq
    rw [List.getElem?_eq_getElem hwithin, hc, hchars] at hplace
    refine ⟨place, hplace.1, ?_, hplace.2⟩
    rw [← hnumber, hstands.number, List.length_take_of_le (Nat.le_of_lt hn)]
  · rintro ⟨place, hc, rfl, hremoved⟩
    have hplace := (hchars place).2 ⟨hc, hremoved⟩
    obtain ⟨before, l, within, hstands⟩ := exists_standsOn (List.getElem?_eq_some_iff.1 hplace).1
    refine ⟨l, hnumber place ▸ hstands.getElem?_lines, ?_⟩
    exact List.mem_of_getElem? (hstands.getElem?_eq ▸ hplace)

namespace CutLine

def isCleared (l : CutLine) : Bool :=
  l.isTouched && l.kept.all isAsciiBlank

theorem isTouched_iff {l : CutLine} : l.isTouched = true ↔ ∃ c, (c, true) ∈ l.whole := by
  unfold isTouched whole
  cases l.feed with
  | none => simp
  | some removed => cases removed <;> simp

theorem all_kept_iff {l : CutLine} :
    l.kept.all isAsciiBlank = true ↔ ∀ c, (c, false) ∈ l.whole → isAsciiBlank c = true := by
  have hfeed : isAsciiBlank '\n' = true := rfl
  unfold kept whole
  cases l.feed with
  | none => simp
  | some removed => cases removed <;> simp [or_imp, forall_and, hfeed]

theorem stays_eq {l : CutLine} (h : ∀ c ∈ l.content, c.1 ≠ '\n') (keepLineCount : Bool) :
    l.stays keepLineCount = l.whole.map fun c => (keepLineCount && c.1 == '\n') ||
      (!c.2 && !l.isCleared) := by
  unfold stays isCleared
  cases htouched : l.isTouched with
  | false =>
    have hall : ∀ c ∈ l.whole,
        ((keepLineCount && c.1 == '\n') || (!c.2 && !(false && l.kept.all isAsciiBlank))) = true := by
      intro ⟨c, removed⟩ hc
      cases removed with
      | false => simp
      | true => rw [isTouched_iff.2 ⟨c, hc⟩] at htouched; cases htouched
    rw [List.map_congr_left hall, List.map_const']
    rfl
  | true =>
    have hcontent : ∀ c ∈ l.content, (!l.kept.all isAsciiBlank && !c.2) =
        ((keepLineCount && c.1 == '\n') || (!c.2 && !(true && l.kept.all isAsciiBlank))) := by
      intro c hc
      rw [beq_false_of_ne (h c hc), Bool.and_false, Bool.false_or, Bool.true_and, Bool.and_comm]
    rw [whole, List.map_append, ← List.map_congr_left hcontent, List.map_map]
    simp [Function.comp_def, Bool.and_comm]

end CutLine

theorem isTouched_iff {source : String} {n : Nat} :
    IsTouched source n ↔ ∃ l, (scriptLines source.toList)[n]? = some l ∧ l.isTouched = true := by
  constructor
  · intro ⟨place, c, hc, hnumber, hcut⟩
    obtain ⟨l, hl, hmem⟩ := mem_whole_iff.2 ⟨place, hc, hnumber, hcut⟩
    exact ⟨l, hl, CutLine.isTouched_iff.2 ⟨c, hmem⟩⟩
  · intro ⟨l, hl, htouched⟩
    obtain ⟨c, hmem⟩ := CutLine.isTouched_iff.1 htouched
    obtain ⟨place, hc, hnumber, hcut⟩ := mem_whole_iff.1 ⟨l, hl, hmem⟩
    exact ⟨place, c, hc, hnumber, hcut⟩

theorem isCleared_iff {source : String} {n : Nat} :
    IsCleared source n ↔ ∃ l, (scriptLines source.toList)[n]? = some l ∧ l.isCleared = true := by
  rw [IsCleared, isTouched_iff]
  constructor
  · intro ⟨⟨l, hl, htouched⟩, hblank⟩
    refine ⟨l, hl, ?_⟩
    rw [CutLine.isCleared, htouched, Bool.true_and, CutLine.all_kept_iff]
    intro c hmem
    obtain ⟨place, hc, hnumber, huncut⟩ := mem_whole_iff.1 ⟨l, hl, hmem⟩
    exact hblank place c hc hnumber huncut
  · intro ⟨l, hl, hcleared⟩
    obtain ⟨htouched, hblank⟩ := Bool.and_eq_true_iff.1 hcleared
    refine ⟨⟨l, hl, htouched⟩, ?_⟩
    intro place c hc hnumber huncut
    obtain ⟨k, hk, hmem⟩ := mem_whole_iff.2 ⟨place, hc, hnumber, huncut⟩
    obtain rfl : k = l := Option.some.inj (hk.symm.trans hl)
    exact CutLine.all_kept_iff.1 hblank c hmem

/-- A character stays if it is in no annotation and its line is not cleared; line feeds stay as well
if the lines are counted. -/
theorem stays_iff {source : String} {place : Nat} {c : Char} (h : source.toList[place]? = some c)
    (keepLineCount : Bool) :
    (stays keepLineCount source.toList)[place]? = some true ↔
      (keepLineCount = true ∧ c = '\n') ∨
        (isCutAt source place = false ∧ ¬ IsCleared source (lineNumber source.toList place)) := by
  have hcut : (cuts source.toList)[place]? = some (c, isCutAt source place) := by
    rw [getElem?_cuts, h]
    rfl
  obtain ⟨before, l, within, hstands⟩ := exists_standsOn (List.getElem?_eq_some_iff.1 hcut).1
  have hline : (scriptLines source.toList)[lineNumber source.toList place]? = some l := by
    have := hstands.getElem?_lines
    rwa [map_fst_cuts] at this
  have hcontent : ∀ c ∈ l.content, c.1 ≠ '\n' := ne_feed_of_mem_linesOf _ l (List.mem_of_getElem? hline)
  have hcleared : IsCleared source (lineNumber source.toList place) ↔ l.isCleared = true := by
    rw [isCleared_iff, hline]
    simp
  rw [stays, hstands.getElem?_flatMap fun k => k.length_stays keepLineCount, CutLine.stays_eq hcontent,
    List.getElem?_map, ← hstands.getElem?_eq, hcut, hcleared]
  simp

end UpdaterBootstrap
