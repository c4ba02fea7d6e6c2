import UpdaterBootstrap.Proofs.Remainder

/-!
# Annotations that come about by stripping

What stays of a text can have a recognized annotation that the text did not have. Its `@` stood in
a comment or a quoted text, after a point or within another annotation, or another name followed.
-/

namespace UpdaterBootstrap

def BeginsAt (cs : List Char) (place : Nat) (name : List Char) : Prop :=
  ∃ before arguments after, pieces cs = before ++ .occurrence name arguments :: after ∧
    (before.flatMap Piece.text).length = place

def IsWithin (ps : List Piece) (place : Nat) : Prop :=
  ∃ before name arguments after, ps = before ++ .occurrence name arguments :: after ∧
    (before.flatMap Piece.text).length < place ∧
    place < (before.flatMap Piece.text).length + (Piece.occurrence name arguments).text.length

/-- Why no recognized annotation begins at a place. -/
inductive Inactive (cs : List Char) (place : Nat) : Prop
  | covered (h : (marked cs)[place]? = some ('@', false))
  | afterPoint (h : pointAfter false (cs.take place) = true)
  | within (h : IsWithin (pieces cs) place)
  | unrecognized (h : isRecognized (dottedName (cs.drop (place + 1))) = false)

/-- The `@` at a place of the text begins no recognized annotation, and begins one in what stays. -/
structure Emerges (keepLineCount : Bool) (cs : List Char) (place : Nat) (name : List Char) : Prop where
  stays : (stays keepLineCount cs)[place]? = some true
  inactive : Inactive cs place
  begins : BeginsAt (stripChars keepLineCount cs) (placeAfter keepLineCount cs place) name
  recognized : isRecognized name = true

/-! ## Within a scan -/

theorem pointAfter_append (afterPoint : Bool) (a b : List Char) :
    pointAfter afterPoint (a ++ b) = pointAfter (pointAfter afterPoint a) b := by
  rw [pointAfter, pointAfter, pointAfter, List.getLast?_append]
  cases b.getLast? <;> rfl

theorem IsWithin.append {ps : List Piece} {place : Nat} (h : IsWithin ps place) (p : Piece) :
    IsWithin (p :: ps) (p.text.length + place) := by
  obtain ⟨before, name, arguments, after, rfl, hafter, hbefore⟩ := h
  refine ⟨p :: before, name, arguments, after, rfl, ?_, ?_⟩ <;>
    · rw [List.flatMap_cons, List.length_append]
      omega

theorem isRecognized_of_empty : isRecognized [] = false := by decide

theorem isRecognized_interface : isRecognized "interface".toList = false := by decide

inductive InactiveFrom (afterPoint : Bool) (r : Reading) (cs : List Char) (place : Nat) : Prop
  | covered (h : (markedFrom r cs)[place]? = some ('@', false))
  | afterPoint (h : pointAfter afterPoint (cs.take place) = true)
  | within (h : IsWithin (piecesFrom 0 afterPoint (markedFrom r cs)) place)
  | unrecognized (h : isRecognized (dottedName (cs.drop (place + 1))) = false)

theorem inactiveFrom_zero {afterPoint : Bool} {r : Reading} {cs : List Char}
    (h : annotation? afterPoint (markedFrom r ('@' :: cs)) = none) :
    InactiveFrom afterPoint r ('@' :: cs) 0 := by
  rw [markedFrom_cons, annotation?] at h
  split at h
  · dsimp only at h
    split at h
    · rename_i hname
      rw [map_fst_markedFrom, Bool.or_eq_true, List.isEmpty_iff, beq_iff_eq] at hname
      refine .unrecognized ?_
      rw [List.drop_succ_cons, List.drop_zero]
      rcases hname with hname | hname
      · rw [hname, isRecognized_of_empty]
      · rw [hname, isRecognized_interface]
    · cases h
  · rename_i hcode
    cases hmark : (r.step '@' cs).1 with
    | false =>
      refine .covered ?_
      rw [markedFrom_cons, hmark]
      rfl
    | true =>
      have hpoint : afterPoint = true := by simpa [hmark] using hcode
      exact .afterPoint hpoint

structure SplitsOff (afterPoint : Bool) (r : Reading) (p : Piece) (afterPoint' : Bool) (r' : Reading)
    (rest : List Char) : Prop where
  marks : ∃ ms, ms.length = p.text.length ∧ markedFrom r (p.text ++ rest) = ms ++ markedFrom r' rest
  point : pointAfter afterPoint p.text = afterPoint'
  pieces : piecesFrom 0 afterPoint (markedFrom r (p.text ++ rest)) =
    p :: piecesFrom 0 afterPoint' (markedFrom r' rest)

theorem splitsOff_plain {afterPoint : Bool} {r : Reading} {c : Char} {cs : List Char}
    (h : piecesFrom 0 afterPoint (markedFrom r (c :: cs)) =
      .plain c :: piecesFrom 0 (c == '.') (markedFrom (r.step c cs).2 cs)) :
    SplitsOff afterPoint r (.plain c) (c == '.') (r.step c cs).2 cs :=
  ⟨⟨[(c, (r.step c cs).1)], rfl, rfl⟩, rfl, h⟩

theorem text_occurrence_append (name arguments rest : List Char) :
    (Piece.occurrence name arguments).text ++ rest = '@' :: (name ++ (arguments ++ rest)) := by
  simp [Piece.text]

theorem CapturedFrom.splitsOff {name arguments rest : List Char}
    (h : CapturedFrom (name ++ (arguments ++ rest)) name arguments) :
    SplitsOff false .code (.occurrence name arguments) false .code rest := by
  have hpassed : Passed (Piece.occurrence name arguments).text := h.passed.at
  obtain ⟨ms, hfst, hms, _⟩ := hpassed rest
  refine ⟨⟨ms, by rw [← hfst, List.length_map], hms⟩, ?_, ?_⟩
  · rw [Piece.text, List.cons_append, ← List.singleton_append, pointAfter_append]
    exact pointAfter_of_getLast? h.getLast?_ne
  · rw [text_occurrence_append]
    exact piecesFrom_captured h

theorem SplitsOff.inactiveFrom {afterPoint afterPoint' : Bool} {r r' : Reading} {p : Piece} {rest : List Char}
    {place : Nat} (hs : SplitsOff afterPoint r p afterPoint' r' rest)
    (h : InactiveFrom afterPoint' r' rest place) :
    InactiveFrom afterPoint r (p.text ++ rest) (p.text.length + place) := by
  cases h with
  | covered h =>
    obtain ⟨ms, hlength, hms⟩ := hs.marks
    refine .covered ?_
    rw [hms, ← hlength, List.getElem?_append_right (Nat.le_add_right _ _), Nat.add_sub_cancel_left]
    exact h
  | afterPoint h =>
    refine .afterPoint ?_
    rw [List.take_length_add_append, pointAfter_append, hs.point]
    exact h
  | within h =>
    refine .within ?_
    rw [hs.pieces]
    exact h.append p
  | unrecognized h =>
    refine .unrecognized ?_
    rw [Nat.add_assoc, List.drop_length_add_append]
    exact h

theorem CapturedFrom.inactiveFrom {name arguments rest : List Char} {place : Nat}
    (h : CapturedFrom (name ++ (arguments ++ rest)) name arguments)
    (hunrecognized : isRecognized name = false)
    (hplace : place < (Piece.occurrence name arguments).text.length) :
    InactiveFrom false .code ('@' :: (name ++ (arguments ++ rest))) place := by
  cases place with
  | zero =>
    refine .unrecognized ?_
    rw [List.drop_succ_cons, List.drop_zero, h.hname]
    exact hunrecognized
  | succ place =>
    refine .within ⟨[], name, arguments, _, piecesFrom_captured h, Nat.succ_pos place, ?_⟩
    rw [List.flatMap_nil, List.length_nil, Nat.zero_add]
    exact hplace

/-- An `@` that is not cut out begins no recognized annotation. -/
theorem inactiveFrom_of_uncut {afterPoint : Bool} {r : Reading} {cs : List Char} {place : Nat}
    (h : ((piecesFrom 0 afterPoint (markedFrom r cs)).flatMap Piece.cuts)[place]? = some ('@', false)) :
    InactiveFrom afterPoint r cs place := by
  induction hn : cs.length using Nat.strongRecOn generalizing afterPoint r cs place with
  | ind n ih =>
    subst hn
    cases cs with
    | nil => cases h
    | cons c cs =>
      rcases piecesFrom_cases afterPoint r c cs with ⟨hnone, hplain⟩ |
        ⟨name, arguments, rest, rfl, rfl, rfl, rfl, hcaptured, hoccurrence⟩
      · rw [hplain, List.flatMap_cons] at h
        cases place with
        | zero =>
          obtain ⟨rfl, _⟩ := Prod.mk.inj (Option.some.inj h)
          exact inactiveFrom_zero hnone
        | succ place =>
          rw [Nat.add_comm]
          exact (splitsOff_plain hplain).inactiveFrom (ih cs.length (by simp) h rfl)
      · rw [hoccurrence, List.flatMap_cons] at h
        have hlength : (Piece.occurrence name arguments).cuts.length =
            (Piece.occurrence name arguments).text.length :=
          List.length_map _
        -- the place is in an annotation that stays, or beyond it
        by_cases hplace : place < (Piece.occurrence name arguments).text.length
        · refine hcaptured.inactiveFrom ?_ hplace
          rw [List.getElem?_append_left (by omega), Piece.cuts, List.getElem?_map,
            Option.map_eq_some_iff] at h
          obtain ⟨_, _, heq⟩ := h
          exact (Prod.mk.inj heq).2
        · obtain ⟨place, rfl⟩ := Nat.exists_eq_add_of_le (Nat.le_of_not_lt hplace)
          rw [List.getElem?_append_right (by omega), hlength, Nat.add_sub_cancel_left] at h
          have hinactive := hcaptured.splitsOff.inactiveFrom (ih rest.length (by simp; omega) h rfl)
          rwa [text_occurrence_append] at hinactive

theorem inactive_of_uncut {cs : List Char} {place : Nat} (h : (cuts cs)[place]? = some ('@', false)) :
    Inactive cs place := by
  cases inactiveFrom_of_uncut h with
  | covered h => exact .covered h
  | afterPoint h => exact .afterPoint h
  | within h => exact .within h
  | unrecognized h => exact .unrecognized h

/-! ## In what stays -/

/-- Every recognized annotation in what stays has emerged. -/
theorem exists_emerges {keepLineCount : Bool} {cs name arguments : List Char}
    (h : .occurrence name arguments ∈ pieces (stripChars keepLineCount cs))
    (hname : isRecognized name = true) :
    ∃ place, Emerges keepLineCount cs place name := by
  obtain ⟨before, after, hpieces⟩ := List.append_of_mem h
  have hat : (stripChars keepLineCount cs)[(before.flatMap Piece.text).length]? = some '@' := by
    have htext : (pieces (stripChars keepLineCount cs)).flatMap Piece.text = stripChars keepLineCount cs :=
      flatMap_text_piecesFrom false _ _
    rw [← htext, hpieces, List.flatMap_append, List.getElem?_append_right (Nat.le_refl _), Nat.sub_self]
    rfl
  rw [stripChars_eq_select] at hat
  obtain ⟨place, hstay, hc, hplace⟩ := exists_place hat
  refine ⟨place, hstay, ?_, ⟨before, arguments, after, hpieces, hplace.symm⟩, hname⟩
  rw [← map_fst_cuts cs, List.getElem?_map, Option.map_eq_some_iff] at hc
  obtain ⟨⟨c, removed⟩, hcut, rfl⟩ := hc
  cases removed with
  | false => exact inactive_of_uncut hcut
  | true => exact absurd (eq_feed_of_stays hcut hstay) (by decide)

/-- What stays of a text is clean exactly if no annotation emerges in it. -/
theorem isClean_stripChars_iff {keepLineCount : Bool} {cs : List Char} :
    IsClean (stripChars keepLineCount cs) ↔ ∀ place name, ¬ Emerges keepLineCount cs place name := by
  constructor
  · intro h place name hemerges
    obtain ⟨before, arguments, after, hpieces, _⟩ := hemerges.begins
    have := h name arguments (by rw [hpieces]; simp)
    rw [hemerges.recognized] at this
    cases this
  · intro h name arguments hmem
    rw [← Bool.not_eq_true]
    intro hname
    obtain ⟨place, hemerges⟩ := exists_emerges hmem hname
    exact h place name hemerges

end UpdaterBootstrap
