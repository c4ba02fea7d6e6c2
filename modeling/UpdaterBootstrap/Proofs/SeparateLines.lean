import UpdaterBootstrap.Proofs.LinePlaces

/-!
# Lines that stay apart

Without the line count a line feed goes with the line that it ends, if only blanks are left of that
line. What stands on the line before then comes to stand before what follows, if its own line feed
is in an annotation. So two characters stay on lines of their own exactly if one of the line feeds
between them ends a line that is not cleared (`staysApart_iff`).
-/

namespace UpdaterBootstrap

def IsCodeAt (source : String) (place : Nat) : Prop :=
  isCutAt source place = false ∧ ∃ c, source.toList[place]? = some c ∧ isAsciiBlank c = false

def IsFeedAt (source : String) (place : Nat) : Prop :=
  isCutAt source place = false ∧ source.toList[place]? = some '\n'

/-- Between what two characters of the source become, the stripped text has a line feed. -/
def StaysApart (source : String) (i j : Nat) : Prop :=
  ∃ place, placeAfter false source.toList i < place ∧ place < placeAfter false source.toList j ∧
    (stripAnnotations source false).toList[place]? = some '\n'

/-! ## Places in the result -/

theorem getElem?_select {mask : List Bool} {cs : List Char} {i : Nat} (h : mask[i]? = some true) :
    (select mask cs)[(mask.take i).count true]? = cs[i]? := by
  induction mask generalizing cs i with
  | nil => cases h
  | cons m mask ih =>
    cases cs with
    | nil => simp [select]
    | cons c cs =>
      cases i with
      | zero =>
        obtain rfl := Option.some.inj h
        simp [select]
      | succ i =>
        have hrest : (select mask cs)[(mask.take i).count true]? = cs[i]? := ih h
        cases m <;> simpa [select] using hrest

theorem placeAfter_le {keepLineCount : Bool} {cs : List Char} {i j : Nat} (h : i ≤ j) :
    placeAfter keepLineCount cs i ≤ placeAfter keepLineCount cs j :=
  (List.take_sublist_take_left h).count_le true

theorem lt_of_placeAfter_lt {keepLineCount : Bool} {cs : List Char} {i j : Nat}
    (h : placeAfter keepLineCount cs i < placeAfter keepLineCount cs j) : i < j := by
  by_contra hle
  exact Nat.not_lt_of_le (placeAfter_le (Nat.le_of_not_lt hle)) h

theorem placeAfter_lt {keepLineCount : Bool} {cs : List Char} {i j : Nat}
    (hstay : (stays keepLineCount cs)[i]? = some true) (h : i < j) :
    placeAfter keepLineCount cs i < placeAfter keepLineCount cs j := by
  have hnext : placeAfter keepLineCount cs (i + 1) = placeAfter keepLineCount cs i + 1 := by
    rw [placeAfter, List.take_add_one, hstay, List.count_append]
    rfl
  exact Nat.lt_of_lt_of_le (hnext ▸ Nat.lt_succ_self _) (placeAfter_le h)

theorem getElem?_placeAfter {source : String} {keepLineCount : Bool} {place : Nat}
    (h : (stays keepLineCount source.toList)[place]? = some true) :
    (stripAnnotations source keepLineCount).toList[placeAfter keepLineCount source.toList place]? =
      source.toList[place]? := by
  rw [toList_stripAnnotations, stripChars_eq_select, placeAfter, getElem?_select h]

/-! ## Line numbers -/

theorem lineNumber_succ (cs : List Char) (place : Nat) :
    lineNumber cs (place + 1) = lineNumber cs place + if cs[place]? = some '\n' then 1 else 0 := by
  rw [lineNumber, List.take_add_one, List.count_append]
  cases cs[place]? with
  | none => rfl
  | some c => simp [lineNumber, List.count_singleton]

/-- Up to a place the line goes on, or it has ended. -/
theorem lineNumber_eq_or_ended (cs : List Char) {i place : Nat} (h : i ≤ place) :
    lineNumber cs place = lineNumber cs i ∨
      ∃ p, i ≤ p ∧ p < place ∧ cs[p]? = some '\n' ∧ lineNumber cs p = lineNumber cs i := by
  induction place, h using Nat.le_induction with
  | base => exact .inl rfl
  | succ place hle ih =>
    rcases ih with hsame | ⟨p, hlow, hhigh, hfeed, hnumber⟩
    · by_cases hfeed : cs[place]? = some '\n'
      · exact .inr ⟨place, hle, Nat.lt_succ_self place, hfeed, hsame⟩
      · refine .inl ?_
        rw [lineNumber_succ, if_neg hfeed, Nat.add_zero, hsame]
    · exact .inr ⟨p, hlow, Nat.lt_succ_of_lt hhigh, hfeed, hnumber⟩

/-! ## Code and its lines -/

theorem IsCodeAt.not_isCleared {source : String} {place : Nat} (h : IsCodeAt source place) :
    ¬ IsCleared source (lineNumber source.toList place) := by
  obtain ⟨huncut, c, hc, hsolid⟩ := h
  intro hcleared
  rw [hcleared.2 place c hc rfl huncut] at hsolid
  cases hsolid

theorem IsCodeAt.stays {source : String} {place : Nat} (h : IsCodeAt source place) :
    (UpdaterBootstrap.stays false source.toList)[place]? = some true := by
  obtain ⟨c, hc, _⟩ := h.2
  exact (stays_iff hc false).2 (.inr ⟨h.1, h.not_isCleared⟩)

theorem IsCodeAt.exists_feed {source : String} {i p : Nat} (h : IsCodeAt source i) (hip : i < p)
    (hp : source.toList[p]? = some '\n') :
    ∃ q, i < q ∧ q ≤ p ∧ source.toList[q]? = some '\n' ∧
      lineNumber source.toList q = lineNumber source.toList i := by
  rcases lineNumber_eq_or_ended source.toList (Nat.le_of_lt hip) with hsame | ⟨q, hlow, hhigh, hfeed, hnumber⟩
  · exact ⟨p, hip, Nat.le_refl p, hp, hsame⟩
  · refine ⟨q, Nat.lt_of_le_of_ne hlow ?_, Nat.le_of_lt hhigh, hfeed, hnumber⟩
    rintro rfl
    obtain ⟨_, c, hc, hsolid⟩ := h
    obtain rfl : c = '\n' := Option.some.inj (hc.symm.trans hfeed)
    cases hsolid

theorem exists_feed_of_staysApart {source : String} {i j : Nat} (h : StaysApart source i j) :
    ∃ p, i < p ∧ p < j ∧ IsFeedAt source p ∧ ¬ IsCleared source (lineNumber source.toList p) := by
  obtain ⟨place, hlow, hhigh, hfeed⟩ := h
  rw [toList_stripAnnotations, stripChars_eq_select] at hfeed
  obtain ⟨p, hstay, hp, rfl⟩ := exists_place hfeed
  have hleft : i < p := lt_of_placeAfter_lt hlow
  have hright : p < j := lt_of_placeAfter_lt hhigh
  rcases (stays_iff hp false).1 hstay with ⟨hkeep, _⟩ | ⟨huncut, hkept⟩
  · cases hkeep
  · exact ⟨p, hleft, hright, ⟨huncut, hp⟩, hkept⟩

theorem IsCodeAt.staysApart {source : String} {i j p : Nat} (hi : IsCodeAt source i) (hip : i < p)
    (hpj : p < j)
    (hfeed : IsFeedAt source p) (hkept : ¬ IsCleared source (lineNumber source.toList p)) :
    StaysApart source i j := by
  have hstay := (stays_iff hfeed.2 false).2 (.inr ⟨hfeed.1, hkept⟩)
  refine ⟨placeAfter false source.toList p, placeAfter_lt hi.stays hip, placeAfter_lt hstay hpj, ?_⟩
  rw [getElem?_placeAfter hstay, hfeed.2]

/-- Of the line feeds between two characters outside the annotations one must end a line that is not
cleared for them to stay apart. That is so if there is any and if no line with code ends within an
annotation. -/
theorem staysApart_iff {source : String} {i j : Nat} (hi : IsCodeAt source i) (hj : IsCodeAt source j) :
    (stripAnnotations source false).toList[placeAfter false source.toList i]? = source.toList[i]? ∧
    (stripAnnotations source false).toList[placeAfter false source.toList j]? = source.toList[j]? ∧
    (StaysApart source i j ↔
      ∃ p, i < p ∧ p < j ∧ IsFeedAt source p ∧ ¬ IsCleared source (lineNumber source.toList p)) ∧
    ((∀ p, source.toList[p]? = some '\n' → isCutAt source p = true →
        ∀ place, IsCodeAt source place → lineNumber source.toList place ≠ lineNumber source.toList p) →
      (∃ p, i < p ∧ p < j ∧ IsFeedAt source p) → StaysApart source i j) := by
  refine ⟨getElem?_placeAfter hi.stays, getElem?_placeAfter hj.stays, ⟨exists_feed_of_staysApart, ?_⟩, ?_⟩
  · intro ⟨p, hip, hpj, hfeed, hkept⟩
    exact hi.staysApart hip hpj hfeed hkept
  · intro hends ⟨p, hip, hpj, hfeed⟩
    obtain ⟨q, hiq, hqp, hq, hnumber⟩ := hi.exists_feed hip hfeed.2
    have huncut : isCutAt source q = false := by
      rw [← Bool.not_eq_true]
      intro hcut
      exact hends q hq hcut i hi hnumber.symm
    exact hi.staysApart hiq (Nat.lt_of_le_of_lt hqp hpj) ⟨huncut, hq⟩ (hnumber ▸ hi.not_isCleared)

/-- An annotation over several lines with code after it. -/
theorem staysApart_after :
    IsCodeAt "@Updater(name = 'A'\n) x\nclass A \x7b\x7d\n" 22 ∧
      IsCodeAt "@Updater(name = 'A'\n) x\nclass A \x7b\x7d\n" 24 ∧
      StaysApart "@Updater(name = 'A'\n) x\nclass A \x7b\x7d\n" 22 24 := by
  have hi : IsCodeAt "@Updater(name = 'A'\n) x\nclass A \x7b\x7d\n" 22 :=
    ⟨by decide +kernel, 'x', by decide +kernel, by decide⟩
  have hj : IsCodeAt "@Updater(name = 'A'\n) x\nclass A \x7b\x7d\n" 24 :=
    ⟨by decide +kernel, 'c', by decide +kernel, by decide⟩
  obtain ⟨_, _, hiff, _⟩ := staysApart_iff hi hj
  refine ⟨hi, hj, hiff.2 ⟨23, by decide, by decide, ⟨by decide +kernel, by decide +kernel⟩, ?_⟩⟩
  have hline : lineNumber "@Updater(name = 'A'\n) x\nclass A \x7b\x7d\n".toList 22 =
      lineNumber "@Updater(name = 'A'\n) x\nclass A \x7b\x7d\n".toList 23 := by decide +kernel
  exact hline ▸ hi.not_isCleared

/-- Code before an annotation over several lines is joined to the line after it. -/
theorem not_staysApart_joined :
    stripAnnotations "x@Updater(name = 'A'\n)\nclass A \x7b\x7d\n" false = "xclass A \x7b\x7d\n" ∧
      IsCodeAt "x@Updater(name = 'A'\n)\nclass A \x7b\x7d\n" 0 ∧
      IsCodeAt "x@Updater(name = 'A'\n)\nclass A \x7b\x7d\n" 23 ∧
      (∃ p, 0 < p ∧ p < 23 ∧ IsFeedAt "x@Updater(name = 'A'\n)\nclass A \x7b\x7d\n" p) ∧
      ¬ StaysApart "x@Updater(name = 'A'\n)\nclass A \x7b\x7d\n" 0 23 := by
  refine ⟨by decide +kernel, ⟨by decide +kernel, 'x', by decide +kernel, by decide⟩,
    ⟨by decide +kernel, 'c', by decide +kernel, by decide⟩,
    ⟨22, by decide, by decide, by decide +kernel, by decide +kernel⟩, ?_⟩
  intro ⟨place, hlow, hhigh, _⟩
  have hfirst : placeAfter false "x@Updater(name = 'A'\n)\nclass A \x7b\x7d\n".toList 0 = 0 := by
    decide +kernel
  have hsecond : placeAfter false "x@Updater(name = 'A'\n)\nclass A \x7b\x7d\n".toList 23 = 1 := by
    decide +kernel
  omega

end UpdaterBootstrap
