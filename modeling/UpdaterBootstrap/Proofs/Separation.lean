import UpdaterBootstrap.Proofs.Emergence
import UpdaterBootstrap.Proofs.Thinning

/-!
# Stripping texts with separated cuts

Where every cut follows a character that joins nothing, what stays is read as it was in the text, and
no annotation emerges. An annotation that stays may take in an argument list that comes to follow
it, but only as a whole.
-/

namespace UpdaterBootstrap

/-! ## Scans without recognized annotations -/

def Unrecognized (ps : List Piece) : Prop :=
  ∀ name arguments, .occurrence name arguments ∈ ps → isRecognized name = false

theorem unrecognized_plain {c : Char} {ps : List Piece} (h : Unrecognized ps) :
    Unrecognized (.plain c :: ps) := by
  intro name arguments hmem
  rcases List.mem_cons.1 hmem with heq | hmem
  · cases heq
  · exact h name arguments hmem

theorem unrecognized_occurrence {name arguments : List Char} {ps : List Piece}
    (hname : isRecognized name = false)
    (h : Unrecognized ps) : Unrecognized (.occurrence name arguments :: ps) := by
  intro name' arguments' hmem
  rcases List.mem_cons.1 hmem with heq | hmem
  · obtain ⟨rfl, _⟩ := Piece.occurrence.inj heq
    exact hname
  · exact h name' arguments' hmem

/-- The next `n` characters are what is left of an argument list, or of the blanks and the list. -/
def Pending (n : Nat) (ms : List Marked) : Prop :=
  n = 0 ∨ n = (argumentList ms).length ∨ ∃ depth inner, closing? depth ms = some inner ∧ n = inner.length

theorem Pending.tail {n : Nat} {m : Marked} {ms : List Marked} (h : Pending (n + 1) (m :: ms)) :
    Pending n ms := by
  obtain ⟨c, code⟩ := m
  -- the list is still to come, or its parenthesis has been passed
  rcases h with h | h | ⟨depth, inner, hinner, h⟩
  · cases h
  · rw [argumentList] at h
    split at h
    · cases harguments : argumentList ms with
      | nil =>
        rw [harguments] at h
        cases h
      | cons d ds =>
        rw [harguments] at h
        refine .inr (.inl ?_)
        rw [harguments]
        exact Nat.succ.inj h
    · split at h
      · cases hinner : closing? 0 ms with
        | none =>
          rw [hinner] at h
          cases h
        | some inner =>
          rw [hinner] at h
          exact .inr (.inr ⟨0, inner, hinner, Nat.succ.inj h⟩)
      · cases h
  · rcases closing?_cons hinner with ⟨_, _, _, rfl⟩ | ⟨depth', rest, rfl, hrest, _⟩
    · exact .inl (Nat.succ.inj h)
    · exact .inr (.inr ⟨depth', rest, hrest, Nat.succ.inj h⟩)

theorem Pending.passed {n : Nat} {ms rest : List Marked} {a : List Char}
    (h : Pending (n + 1) (('@', true) :: (ms ++ rest))) (hlength : ms.length = a.length)
    (hclosing : ∀ depth rest, closing? depth (ms ++ rest) = (closing? depth rest).map (a ++ ·)) :
    ∃ more, n = ms.length + more ∧ Pending more rest := by
  rcases h with h | h | ⟨depth, inner, hinner, h⟩
  · cases h
  · rw [argumentList, if_neg (by decide), if_neg (by decide)] at h
    cases h
  · rw [closing?_other (by decide), hclosing] at hinner
    obtain ⟨inner', hinner', rfl⟩ := Option.map_eq_some_iff.1 hinner
    obtain ⟨inner, hrest, rfl⟩ := Option.map_eq_some_iff.1 hinner'
    rw [List.length_cons, List.length_append] at h
    exact ⟨inner.length, by omega, .inr (.inr ⟨depth, inner, hrest, rfl⟩)⟩

/-- No recognized annotation is found in the text from the position on, no matter how much of it
belongs to an argument list that began before. -/
def CleanFrom (afterPoint : Bool) (r : Reading) (cs : List Char) : Prop :=
  ∀ n, Pending n (markedFrom r cs) → Unrecognized (piecesFrom n afterPoint (markedFrom r cs))

theorem CleanFrom.plain {afterPoint : Bool} {r : Reading} {c : Char} {cs : List Char}
    (hnone : annotation? afterPoint (markedFrom r (c :: cs)) = none)
    (h : CleanFrom (c == '.') (r.step c cs).2 cs) : CleanFrom afterPoint r (c :: cs) := by
  intro n hn
  rw [markedFrom_cons] at hnone hn ⊢
  cases n with
  | zero =>
    rw [piecesFrom_of_none hnone]
    exact unrecognized_plain (h 0 (.inl rfl))
  | succ n =>
    rw [piecesFrom]
    exact h n hn.tail

theorem CleanFrom.feeds {fs cs : List Char} (hfs : ∀ c ∈ fs, c = '\n') (h : CleanFrom false .code cs) :
    CleanFrom false .code (fs ++ cs) := by
  induction fs with
  | nil => exact h
  | cons c fs ih =>
    obtain ⟨rfl, hrest⟩ := List.forall_mem_cons.1 hfs
    refine .plain ?_ ?_
    · rw [List.append_eq, markedFrom_cons, annotation?_of_ne (by decide)]
    · rw [step_inert (by decide)]
      exact ih hrest

theorem CleanFrom.occurrence {after name arguments cs : List Char}
    (hcaptured : CapturedFrom after name arguments)
    (hunrecognized : isRecognized name = false) (hname : dottedName (name ++ (arguments ++ cs)) = name)
    (h : CleanFrom false .code cs) : CleanFrom false .code ('@' :: (name ++ (arguments ++ cs))) := by
  intro n hn
  obtain ⟨ms, hfst, hms, hclosing⟩ := hcaptured.passed cs
  rw [List.append_assoc] at hms
  have hlength : ms.length = name.length + arguments.length := by
    rw [← List.length_append, ← hfst, List.length_map]
  have hskip (more : Nat) : piecesFrom (ms.length + more) false (ms ++ markedFrom .code cs) =
      piecesFrom more false (markedFrom .code cs) := by
    rw [piecesFrom_skip, hfst, pointAfter_of_getLast? hcaptured.getLast?_ne]
  have hmarked : markedFrom .code ('@' :: (name ++ (arguments ++ cs))) =
      ('@', true) :: (ms ++ markedFrom .code cs) := by
    rw [markedFrom_cons, step_inert (by decide), hms]
  rw [hmarked] at hn ⊢
  cases n with
  | succ n =>
    obtain ⟨more, rfl, hmore⟩ := hn.passed (by rw [← hfst, List.length_map]) hclosing
    rw [piecesFrom]
    have hpoint : ('@' == '.') = false := rfl
    rw [hpoint, hskip]
    exact h more hmore
  | zero =>
    -- without arguments of its own the annotation takes in those that come to follow it
    obtain ⟨arguments', more, harguments, hlonger, hmore⟩ : ∃ arguments' more,
        argumentList (markedFrom .code (arguments ++ cs)) = arguments' ∧
          arguments'.length = arguments.length + more ∧ Pending more (markedFrom .code cs) := by
      rcases hcaptured.enclosed with rfl | henclosed
      · exact ⟨_, _, rfl, (Nat.zero_add _).symm, .inr (.inl rfl)⟩
      · exact ⟨arguments, 0, henclosed.argumentList_eq cs, rfl, .inl rfl⟩
    have hcaptured' : CapturedFrom (name ++ (arguments ++ cs)) name arguments' :=
      ⟨hname, hcaptured.proper, by rw [List.drop_left]; exact harguments⟩
    have hfound := annotation?_captured hcaptured'
    rw [hms] at hfound
    rw [piecesFrom, hfound]
    dsimp only
    rw [hlonger, ← Nat.add_assoc, ← hlength, hskip]
    exact unrecognized_occurrence hunrecognized (h more hmore)

/-! ## Scanning what stays -/

theorem annotation?_agrees {afterPoint : Bool} {r : Reading} {c : Char} {cs ds : List Char} (h : Agrees cs ds)
    (hr : r.Reached (c :: cs)) (hnone : annotation? afterPoint (markedFrom r (c :: cs)) = none) :
    annotation? afterPoint (markedFrom r (c :: ds)) = none := by
  rw [markedFrom_cons, annotation?] at hnone ⊢
  rw [← h.step_eq hr]
  split at hnone
  · rename_i hc
    rw [if_pos hc]
    dsimp only at hnone ⊢
    rw [map_fst_markedFrom] at hnone ⊢
    rw [← h.dottedName_eq]
    split at hnone
    · rename_i hname
      rw [if_pos hname]
    · cases hnone
  · rename_i hc
    rw [if_neg hc]

theorem eq_code_of_leadsToCut {afterPoint : Bool} {r : Reading} {cs : List Char} (hr : r.Reached cs)
    (h : LeadsToCut ((piecesFrom 0 afterPoint (markedFrom r cs)).flatMap Piece.cuts)) : r = .code := by
  obtain ⟨blanks, d, rest, heq, hblanks⟩ := h
  induction blanks generalizing afterPoint r cs with
  | nil =>
    cases cs with
    | nil => cases heq
    | cons c cs =>
      rcases piecesFrom_cases afterPoint r c cs with ⟨_, hplain⟩ | ⟨_, _, _, _, _, hcode, _⟩
      · rw [hplain] at heq
        cases (List.cons.inj heq).1
      · exact hcode
  | cons e blanks ih =>
    obtain ⟨⟨he, hfeed⟩, hmore⟩ := List.forall_mem_cons.1 hblanks
    cases cs with
    | nil => cases heq
    | cons c cs =>
      rcases piecesFrom_cases afterPoint r c cs with ⟨_, hplain⟩ | ⟨_, _, _, _, _, hcode, _⟩
      · rw [hplain] at heq
        obtain ⟨hc, hrest⟩ := List.cons.inj heq
        obtain rfl : c = e := (Prod.mk.inj hc).1
        exact eq_code_of_blank hr he hfeed (ih hr.step hrest hmore)
      · exact hcode

theorem isJoining_of_isIdentPart {c : Char} (h : isIdentPart c = true) : isJoining c = true := by
  simp [isJoining, h]

theorem CapturedFrom.afterText_name {after name : List Char} (h : CapturedFrom after name [])
    (before : Before) :
    before.afterText name = .joining := by
  have hlast := List.getLast?_eq_some_getLast h.proper.1
  have hpoint := h.getLast?_ne
  rw [List.append_nil, hlast] at hpoint
  have hmem : name.getLast h.proper.1 ∈ dottedName after := by
    rw [h.hname]
    exact List.getLast_mem _
  have hpart : isIdentPart (name.getLast h.proper.1) = true :=
    (mem_dottedName hmem).resolve_right fun e => hpoint (congrArg some e)
  rw [Before.afterText, hlast]
  exact Before.after_eq_joining.2 (isJoining_of_isIdentPart hpart)

theorem CapturedFrom.dottedName_eq {name arguments rest ds : List Char} {before : Before} {cs : List Cut}
    (h : CapturedFrom (name ++ (arguments ++ rest)) name arguments) (hcs : cs.map Prod.fst = rest)
    (hds : Thins (before.afterText (name ++ arguments)) cs ds) :
    dottedName (name ++ (arguments ++ ds)) = name := by
  have hagrees : Agrees (arguments ++ rest) (arguments ++ ds) := by
    rcases h.enclosed with rfl | ⟨gap, inner, rfl, hgap, _⟩
    · rw [List.append_nil, h.afterText_name] at hds
      rw [← hcs]
      exact hds.agrees.append []
    · cases gap with
      | nil => exact .apart (by decide) _ _
      | cons c gap =>
        refine .apart ?_ _ _
        rcases hgap c (by simp) with rfl | rfl <;> decide
  rw [← (hagrees.append name).dottedName_eq]
  exact h.hname

theorem CapturedFrom.isAsciiBlank_getLast? {after name arguments : List Char}
    (h : CapturedFrom after name arguments) :
    ∀ c, (name ++ arguments).getLast? = some c → isAsciiBlank c = false := by
  intro c hc
  rw [← Bool.not_eq_true]
  intro hblank
  rcases h.enclosed with rfl | harguments
  · have hjoining := h.afterText_name .gap
    rw [List.append_nil] at hc
    rw [Before.afterText, hc] at hjoining
    have := Before.after_eq_joining.1 hjoining
    rw [isJoining_of_isAsciiBlank hblank] at this
    cases this
  · rw [List.getLast?_append, harguments.getLast?] at hc
    rw [← Option.some.inj hc] at hblank
    cases hblank

theorem beq_point_of_apart {c : Char} (h : isJoining c = false) : (c == '.') = false :=
  beq_false_of_ne (isJoining_eq_false h).2.2.2.1

/-- A character is read as before where it stays. -/
theorem Thins.step_eq {r : Reading} {c : Char} {cuts : List Cut} {ds : List Char}
    (hr : r.Reached (c :: cuts.map Prod.fst)) (h : Thins (.after c) cuts ds) :
    r.step c (cuts.map Prod.fst) = r.step c ds := by
  by_cases hc : isJoining c = true
  · rw [Before.after_eq_joining.2 hc] at h
    exact h.agrees.step_eq hr
  · exact step_apart hr (by simpa using hc) ds

/-- A character that begins no annotation begins none where it stays. -/
theorem annotation?_of_kept {afterPoint : Bool} {r : Reading} {c : Char} {cs ds : List Char} {cuts : List Cut}
    (hr : r.Reached (c :: cs)) (hnone : annotation? afterPoint (markedFrom r (c :: cs)) = none)
    (hcuts : cuts.map Prod.fst = cs) (h : Thins (.after c) cuts ds) :
    annotation? afterPoint (markedFrom r (c :: ds)) = none := by
  by_cases hc : isJoining c = true
  · rw [Before.after_eq_joining.2 hc] at h
    have hagrees : Agrees cs ds := hcuts ▸ h.agrees
    exact annotation?_agrees hagrees hr hnone
  · have hc : isJoining c = false := by simpa using hc
    rw [markedFrom_cons, annotation?_of_ne (isJoining_eq_false hc).2.2.1]

theorem CapturedFrom.of_thins {before : Before} {after name arguments ds : List Char} {cs : List Cut}
    (h : CapturedFrom after name arguments)
    (hthins : Thins before (('@', false) :: ((name ++ arguments).map (·, false) ++ cs)) ds) :
    ∃ ds', ds = '@' :: (name ++ arguments ++ ds') ∧
      Thins (Before.joining.afterText (name ++ arguments)) cs ds' := by
  have hsolid : Before.joining ≠ .gap := by decide
  cases hthins with
  | keep hthins =>
    have hat : Before.after '@' = .joining := by decide
    rw [hat] at hthins
    obtain ⟨ds, rfl, hds⟩ := hthins.of_kept hsolid h.isAsciiBlank_getLast?
    exact ⟨ds, rfl, hds⟩
  | blank hblank => cases hblank
  | lead hblank => cases hblank

/-- In what stays of a text with separated cuts no recognized annotation is found. -/
theorem cleanFrom_of_thins {before : Before} {afterPoint : Bool} {r : Reading} {cs ds : List Char}
    (hr : r.Reached cs) (hgap : before = .gap → r = .code) (hpoint : before ≠ .joining → afterPoint = false)
    (h : Thins before ((piecesFrom 0 afterPoint (markedFrom r cs)).flatMap Piece.cuts) ds) :
    CleanFrom afterPoint r ds := by
  -- on the pieces of the text: what begins no annotation, and what an annotation takes as a whole
  induction hn : cs.length using Nat.strongRecOn generalizing before afterPoint r cs ds with
  | ind n ih =>
    subst hn
    cases cs with
    | nil =>
      cases h
      exact fun n _ name arguments hmem => by cases hmem
    | cons c cs =>
      rcases piecesFrom_cases afterPoint r c cs with ⟨hnone, hplain⟩ |
        ⟨name, arguments, rest, rfl, rfl, rfl, rfl, hcaptured, hoccurrence⟩
      · have hcuts : (Piece.plain c).cuts = [(c, false)] := rfl
        rw [hplain, List.flatMap_cons, hcuts, List.singleton_append] at h
        -- the blank goes, and code is read on from code
        have dropped (hblank : isAsciiBlank c = true) (hcode : r = .code) (hpoint : afterPoint = false)
            (h : Thins .gap ((piecesFrom 0 (c == '.') (markedFrom (r.step c cs).2 cs)).flatMap
              Piece.cuts) ds) :
            CleanFrom afterPoint r ds := by
          have hstep : (r.step c cs).2 = .code := by
            rw [hcode, step_inert (isInert_of_isBlank (isBlank_of_isAsciiBlank hblank))]
          rw [beq_point_of_apart (isJoining_of_isAsciiBlank hblank), hstep] at h
          rw [hcode, hpoint]
          exact ih cs.length (by simp) (Reading.reached_code cs) (fun _ => rfl) (fun _ => rfl) h rfl
        cases h with
        | @keep _ _ _ ds h =>
          have hfst := map_fst_flatMap_cuts (c == '.') (r.step c cs).2 cs
          have hnone := annotation?_of_kept hr hnone hfst h
          have hstep : r.step c cs = r.step c ds := by
            rw [← hfst] at hr
            have := h.step_eq hr
            rwa [hfst] at this
          have hdot (hafter : Before.after c ≠ .joining) : (c == '.') = false :=
            beq_point_of_apart (by simpa [Before.after_eq_joining] using hafter)
          refine .plain hnone ?_
          rw [← hstep]
          exact ih cs.length (by simp) hr.step (fun e => absurd e (Before.after_ne_gap c)) hdot h rfl
        | blank hblank h => exact dropped hblank (hgap rfl) (hpoint (by decide)) h
        | lead hblank hfeed hlead h =>
          have hcode := eq_code_of_blank hr hblank hfeed (eq_code_of_leadsToCut hr.step hlead)
          exact dropped hblank hcode (hpoint (by decide)) h
      · rw [hoccurrence, List.flatMap_cons] at h
        have hcuts : (Piece.occurrence name arguments).cuts =
            ('@', isRecognized name) :: (name ++ arguments).map (·, isRecognized name) := rfl
        rw [hcuts, List.cons_append] at h
        cases hrecognized : isRecognized name with
        | true =>
          rw [hrecognized] at h
          cases h with
          | cut _ h =>
            obtain ⟨fs, ds, rfl, hfs, hds⟩ := h.of_gap
            refine .feeds hfs ?_
            exact ih rest.length (by simp; omega) (Reading.reached_code rest) (fun _ => rfl)
              (fun _ => rfl) hds rfl
        | false =>
          rw [hrecognized] at h
          obtain ⟨ds, rfl, hds⟩ := hcaptured.of_thins h
          have hclean : CleanFrom false .code ds := by
            refine ih rest.length (by simp; omega) (Reading.reached_code rest) (fun e => ?_)
              (fun _ => rfl) hds rfl
            exact absurd e (Before.afterText_ne_gap (by decide) _)
          rw [List.append_assoc]
          exact .occurrence hcaptured hrecognized
            (hcaptured.dottedName_eq (map_fst_flatMap_cuts false .code rest) hds) hclean

/-! ## Texts with separated cuts -/

/-- Every cut of the text follows another cut, a character that joins nothing, or nothing, and no
first line comes about that names an interpreter. -/
structure IsSeparated (keepLineCount : Bool) (cs : List Char) : Prop where
  cuts : isSeparatedFrom true (cuts cs) = true
  start : (stripChars keepLineCount cs).take 2 = ['#', '!'] → cs.take 2 = ['#', '!']

namespace IsSeparated

variable {keepLineCount : Bool} {cs : List Char} (h : IsSeparated keepLineCount cs)
include h

theorem thins : Thins .apart (UpdaterBootstrap.cuts cs) (stripChars keepLineCount cs) :=
  have hcuts : isSeparatedFrom Before.apart.isApart (UpdaterBootstrap.cuts cs) = true := h.cuts
  thins_cutLines (by decide) hcuts keepLineCount

/-- What stays is read from the same position. -/
theorem start_eq : Reading.start (stripChars keepLineCount cs) = .start cs := by
  have hthins := h.thins
  have hkept : cs.take 2 = ['#', '!'] → (stripChars keepLineCount cs).take 2 = ['#', '!'] := by
    intro htake
    obtain ⟨rest, rfl⟩ : ∃ rest, cs = '#' :: '!' :: rest :=
      ⟨cs.drop 2, by rw [← List.take_append_drop 2 cs, htake]; rfl⟩
    have hplain : UpdaterBootstrap.cuts ('#' :: '!' :: rest) = ['#', '!'].map (·, false) ++
        (piecesFrom 0 false (markedFrom ⟨0, .lineComment⟩ rest)).flatMap Piece.cuts := rfl
    have hapart : Before.apart ≠ .gap := by decide
    rw [hplain] at hthins
    obtain ⟨ds, hds, _⟩ := hthins.of_kept hapart fun c hc => by
      rw [← Option.some.inj hc]
      decide
    rw [hds]
    rfl
  have hiff : (stripChars keepLineCount cs).take 2 = ['#', '!'] ↔ cs.take 2 = ['#', '!'] := ⟨h.start, hkept⟩
  simp only [Reading.start, beq_iff_eq, hiff]

theorem isClean : IsClean (stripChars keepLineCount cs) := by
  have hclean : CleanFrom false (.start cs) (stripChars keepLineCount cs) :=
    cleanFrom_of_thins (Reading.reached_start cs) (fun e => by cases e) (fun _ => rfl) h.thins
  rw [IsClean, pieces, marked_eq, h.start_eq]
  exact hclean 0 (.inl rfl)

end IsSeparated

/-! ## Stripping again -/

/-- What stays of a text is clean, and is left as it is when it is stripped again, exactly if no
annotation emerges in it. None does if the cuts are separated. -/
theorem stripAnnotations_idempotent_iff (source : String) (keepLineCount : Bool) :
    ((∀ o ∈ findAnnotations (stripAnnotations source keepLineCount), AnnotationKind.ofName? o.name = none) ↔
      ∀ place name, ¬ Emerges keepLineCount source.toList place name) ∧
    (stripAnnotations (stripAnnotations source keepLineCount) keepLineCount =
      stripAnnotations source keepLineCount ↔
      ∀ place name, ¬ Emerges keepLineCount source.toList place name) ∧
    (IsSeparated keepLineCount source.toList →
      ∀ place name, ¬ Emerges keepLineCount source.toList place name) := by
  have htext : (stripAnnotations source keepLineCount).toList = stripChars keepLineCount source.toList := by
    rw [stripAnnotations, String.toList_ofList]
  refine ⟨?_, ?_, fun h => ?_⟩
  · rw [← isClean_iff, htext, isClean_stripChars_iff]
  · rw [stripAnnotations_eq_self_iff, htext, isClean_stripChars_iff]
  · rw [← isClean_stripChars_iff]
    exact h.isClean

theorem stripAnnotations_idempotent_inline :
    stripAnnotations (stripAnnotations "def a = 1 @Updater(name = 'x') def b = 2\n" false) false =
      stripAnnotations "def a = 1 @Updater(name = 'x') def b = 2\n" false := by
  have h := stripAnnotations_idempotent_iff "def a = 1 @Updater(name = 'x') def b = 2\n" false
  exact h.2.1.2 (h.2.2 ⟨by decide +kernel, by decide +kernel⟩)

/-- What stands around the cut comes together to an annotation. -/
theorem stripAnnotations_not_idempotent :
    (∃ o ∈ findAnnotations (stripAnnotations "@Upd@Updater()ater" false),
      AnnotationKind.ofName? o.name = some .updater) ∧
      stripAnnotations (stripAnnotations "@Upd@Updater()ater" false) false ≠
        stripAnnotations "@Upd@Updater()ater" false := by
  have hstrip : stripAnnotations "@Upd@Updater()ater" false = "@Updater" := by decide +kernel
  have hfound : findAnnotations "@Updater" = [⟨"Updater", "", 0⟩] := by decide +kernel
  rw [hstrip, hfound]
  exact ⟨⟨_, List.mem_singleton_self _, by decide +kernel⟩, by decide +kernel⟩

end UpdaterBootstrap
