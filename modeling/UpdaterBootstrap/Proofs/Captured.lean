import UpdaterBootstrap.Proofs.ArgumentList
import UpdaterBootstrap.Script.Excerpt

/-!
# Captured annotations

What the scan takes for an annotation: a dotted name, and an argument list that is closed within it.
-/

namespace UpdaterBootstrap

/-! ## Names -/

theorem dottedRest_isPrefix (cs : List Char) : dottedRest cs <+: cs := by
  induction cs with
  | nil => exact List.nil_prefix
  | cons c cs ih =>
    unfold dottedRest
    split
    · exact (List.prefix_cons_inj c).2 ih
    · exact List.nil_prefix

theorem dottedName_isPrefix (cs : List Char) : dottedName cs <+: cs := by
  cases cs with
  | nil => exact List.nil_prefix
  | cons c cs =>
    rw [dottedName]
    split
    · exact (List.prefix_cons_inj c).2 (dottedRest_isPrefix cs)
    · exact List.nil_prefix

theorem mem_dottedRest {c : Char} {cs : List Char} (h : c ∈ dottedRest cs) :
    isIdentPart c = true ∨ c = '.' := by
  induction cs with
  | nil => cases h
  | cons d cs ih =>
    rw [dottedRest] at h
    split at h
    · rename_i hd
      simp only [Bool.or_eq_true, Bool.and_eq_true, beq_iff_eq] at hd
      rcases List.mem_cons.1 h with rfl | h
      · exact hd.imp_right And.left
      · exact ih h
    · cases h

theorem mem_dottedName {c : Char} {cs : List Char} (h : c ∈ dottedName cs) :
    isIdentPart c = true ∨ c = '.' := by
  cases cs with
  | nil => cases h
  | cons d cs =>
    rw [dottedName] at h
    split at h
    · rename_i hd
      rcases List.mem_cons.1 h with rfl | h
      · exact .inl (isIdentPart_of_isIdentStart hd)
      · exact mem_dottedRest h
    · cases h

theorem dottedName_word {w rest : List Char} (hw : isWord w = true) (hr : EndsWord rest)
    (hp : rest.head? ≠ some '.') : dottedName (w ++ rest) = w := by
  have hend : dottedRest rest = [] := by
    cases rest with
    | nil => rfl
    | cons d rest =>
      have hd : isIdentPart d = false := hr d rfl
      have hpoint : d ≠ '.' := fun e => hp (congrArg some e)
      simp [dottedRest, hd, hpoint]
  cases w with
  | nil => cases hw
  | cons c cs =>
    obtain ⟨hc, hcs⟩ := isWord_cons.1 hw
    rw [List.cons_append, dottedName, if_pos hc]
    refine congrArg (c :: ·) ?_
    clear hw
    induction cs with
    | nil => exact hend
    | cons d cs ih =>
      obtain ⟨hd, hcs⟩ := List.forall_mem_cons.1 hcs
      rw [List.cons_append, dottedRest, hd, Bool.true_or, if_pos rfl, ih hcs]

theorem isInert_of_mem_dottedName {c : Char} {cs : List Char} (h : c ∈ dottedName cs) : isInert c = true := by
  rcases mem_dottedName h with h | rfl
  · exact isInert_of_isIdentPart h
  · decide

/-! ## Argument lists -/

theorem step_code {r : Reading} {c : Char} {next : List Char} (h : (r.step c next).1 = true) :
    (r.step c next).2 = .code := by
  obtain ⟨n, region⟩ := r
  cases n with
  | succ n => cases h
  | zero =>
    revert h
    cases region <;> simp only [Reading.step] <;> (repeat' split) <;> intro h <;> first | rfl | cases h

/-- Spaces and tabs, a parenthesis, and text that closes it whatever comes next. -/
def Enclosed (arguments : List Char) : Prop :=
  ∃ gap inner, arguments = gap ++ '(' :: inner ∧ (∀ c ∈ gap, c = ' ' ∨ c = '\t') ∧
    ∀ post, closing? 0 (markedFrom .code (inner ++ post)) = some inner

theorem argumentList_blank {c : Char} (h : c = ' ' ∨ c = '\t') {cs : List Char}
    (hne : argumentList (markedFrom .code cs) ≠ []) :
    argumentList (markedFrom .code (c :: cs)) = c :: argumentList (markedFrom .code cs) := by
  have hstep : Reading.code.step c cs = (true, .code) := by
    rcases h with rfl | rfl <;> exact step_inert (by decide) cs
  have hc : (c == ' ' || c == '\t') = true := by simpa using h
  rw [markedFrom_cons, argumentList, if_pos hc, hstep]
  cases heq : argumentList (markedFrom .code cs) with
  | nil => exact absurd heq hne
  | cons d ds => rfl

theorem argumentList_open {cs inner : List Char} (h : closing? 0 (markedFrom .code cs) = some inner) :
    argumentList (markedFrom .code ('(' :: cs)) = '(' :: inner := by
  rw [markedFrom_cons, step_inert (by decide), argumentList, if_neg (by decide)]
  simp [h]

theorem argumentList_cases {c : Char} {cs : List Char} (h : argumentList (markedFrom .code (c :: cs)) ≠ []) :
    ((c = ' ' ∨ c = '\t') ∧ argumentList (markedFrom .code cs) ≠ []) ∨
      c = '(' ∧ ∃ inner, closing? 0 (markedFrom .code cs) = some inner := by
  rw [markedFrom_cons, argumentList] at h
  split at h
  · rename_i hblank
    have hblank : c = ' ' ∨ c = '\t' := by simpa using hblank
    have hstep : Reading.code.step c cs = (true, .code) := by
      rcases hblank with rfl | rfl <;> exact step_inert (by decide) cs
    rw [hstep] at h
    refine .inl ⟨hblank, fun hnil => h ?_⟩
    simp only [hnil]
  · split at h
    · rename_i hopen
      simp only [Bool.and_eq_true, beq_iff_eq] at hopen
      rw [step_code hopen.2] at h
      refine .inr ⟨hopen.1, Option.ne_none_iff_exists'.1 fun hnone => h ?_⟩
      simp only [hnone]
    · exact absurd rfl h

theorem argumentList_enclosed {cs : List Char} (h : argumentList (markedFrom .code cs) ≠ []) :
    argumentList (markedFrom .code cs) <+: cs ∧ Enclosed (argumentList (markedFrom .code cs)) := by
  induction cs with
  | nil => exact absurd rfl h
  | cons c cs ih =>
    rcases argumentList_cases h with ⟨hblank, hne⟩ | ⟨rfl, inner, hinner⟩
    · obtain ⟨hpre, gap, inner, heq, hgap, hinner⟩ := ih hne
      rw [argumentList_blank hblank hne]
      exact ⟨(List.prefix_cons_inj c).2 hpre, c :: gap, inner, by rw [heq]; rfl,
        List.forall_mem_cons.2 ⟨hblank, hgap⟩, hinner⟩
    · rw [argumentList_open hinner]
      have hpre := closing?_isPrefix hinner
      rw [map_fst_markedFrom] at hpre
      obtain ⟨post, rfl⟩ := hpre
      exact ⟨(List.prefix_cons_inj _).2 (List.prefix_append inner post), [], inner, rfl, nofun,
        closing?_before (Reading.reached_code _) hinner⟩

/-! ## Annotations -/

structure CapturedFrom (after name arguments : List Char) : Prop where
  hname : dottedName after = name
  proper : name ≠ [] ∧ name ≠ "interface".toList
  harguments : argumentList (markedFrom .code (after.drop name.length)) = arguments

theorem CapturedFrom.enclosed {after name arguments : List Char} (h : CapturedFrom after name arguments) :
    arguments = [] ∨ Enclosed arguments := by
  by_cases hne : arguments = []
  · exact .inl hne
  · rw [← h.harguments] at hne ⊢
    exact .inr (argumentList_enclosed hne).2

theorem markedFrom_dottedName (after : List Char) :
    (markedFrom .code after).drop (dottedName after).length =
      markedFrom .code (after.drop (dottedName after).length) := by
  obtain ⟨rest, hrest⟩ := dottedName_isPrefix after
  have hmarks : markedFrom .code after = (dottedName after).map (·, true) ++ markedFrom .code rest := by
    rw [← markedFrom_inert (fun c => isInert_of_mem_dottedName), hrest]
  have hdrop : after.drop (dottedName after).length = rest := by
    have : (dottedName after ++ rest).drop (dottedName after).length = rest := List.drop_left
    rwa [hrest] at this
  rw [hdrop, hmarks, List.drop_left' (by rw [List.length_map])]

theorem captured_of_annotation? {afterPoint : Bool} {r : Reading} {c : Char} {cs name arguments : List Char}
    (h : annotation? afterPoint (markedFrom r (c :: cs)) = some (name, arguments)) :
    c = '@' ∧ CapturedFrom cs name arguments := by
  rw [markedFrom_cons, annotation?] at h
  split at h
  · rename_i hc
    simp only [Bool.and_eq_true, beq_iff_eq] at hc
    obtain ⟨⟨hat, hcode⟩, _⟩ := hc
    dsimp only at h
    split at h
    · cases h
    · rename_i hproper
      obtain ⟨rfl, rfl⟩ := Prod.mk.inj (Option.some.inj h)
      simp only [step_code hcode, map_fst_markedFrom, Bool.or_eq_true, List.isEmpty_iff, beq_iff_eq,
        not_or] at hproper ⊢
      exact ⟨hat, rfl, hproper, by rw [markedFrom_dottedName]⟩
  · cases h

theorem captured_of_mem {skip : Nat} {afterPoint : Bool} {r : Reading} {cs name arguments : List Char}
    (h : .occurrence name arguments ∈ piecesFrom skip afterPoint (markedFrom r cs)) :
    ∃ after, CapturedFrom after name arguments := by
  induction cs generalizing skip afterPoint r with
  | nil => cases h
  | cons c cs ih =>
    rw [markedFrom_cons] at h
    cases skip with
    | succ n => exact ih h
    | zero =>
      rw [piecesFrom] at h
      split at h
      · rename_i name' arguments' ha
        rcases List.mem_cons.1 h with heq | h
        · obtain ⟨rfl, rfl⟩ := Piece.occurrence.inj heq
          exact ⟨cs, (captured_of_annotation? ha).2⟩
        · exact ih h
      · rcases List.mem_cons.1 h with heq | h
        · cases heq
        · exact ih h

/-- The annotations are the pieces that are one, each at the byte where it begins. -/
theorem mem_occurrencesFrom {offset : Nat} {ps : List Piece} {o : Occurrence} :
    o ∈ occurrencesFrom offset ps ↔ ∃ before name arguments after,
      ps = before ++ .occurrence name arguments :: after ∧
      o = ⟨.ofList name, .ofList arguments, offset + byteLength (before.flatMap Piece.text)⟩ := by
  constructor
  · intro h
    induction ps generalizing offset with
    | nil => cases h
    | cons p ps ih =>
      have later (h : o ∈ occurrencesFrom (offset + byteLength p.text) ps) : ∃ before name arguments after,
          p :: ps = before ++ .occurrence name arguments :: after ∧
            o = ⟨.ofList name, .ofList arguments, offset + byteLength (before.flatMap Piece.text)⟩ := by
        obtain ⟨before, name, arguments, after, rfl, rfl⟩ := ih h
        refine ⟨p :: before, name, arguments, after, rfl, ?_⟩
        rw [List.flatMap_cons, byteLength_append, Nat.add_assoc]
      cases p with
      | plain c => exact later h
      | occurrence name arguments =>
        rcases List.mem_cons.1 h with rfl | h
        · exact ⟨[], name, arguments, ps, rfl, rfl⟩
        · exact later h
  · rintro ⟨before, name, arguments, after, rfl, rfl⟩
    induction before generalizing offset with
    | nil => exact List.mem_cons_self ..
    | cons p before ih =>
      have hlater := @ih (offset + byteLength p.text)
      rw [List.flatMap_cons, byteLength_append, ← Nat.add_assoc]
      cases p with
      | plain c => exact hlater
      | occurrence name' arguments' => exact List.mem_cons_of_mem _ hlater

/-- Every annotation of a text is one that the scan captures after an `@`. -/
theorem captured_of_mem_findAnnotations {source : String} {o : Occurrence}
    (h : o ∈ findAnnotations source) : ∃ after, CapturedFrom after o.name.toList o.arguments.toList := by
  obtain ⟨before, name, arguments, after, hpieces, rfl⟩ := mem_occurrencesFrom.1 h
  have hmem : .occurrence name arguments ∈ pieces source.toList := by rw [hpieces]; simp
  rw [String.toList_ofList, String.toList_ofList]
  exact captured_of_mem hmem

end UpdaterBootstrap
