import UpdaterBootstrap.Proofs.Borders
import UpdaterBootstrap.Proofs.Separation

/-!
# The class of a text with separated cuts

Where every cut follows a character that joins nothing, the class declared in what stays does not
depend on the blanks that go with the cuts (`declaredClass?_of_thins`).
-/

namespace UpdaterBootstrap

/-! ## Declared names -/

def declaredClass? (inWord : Bool) (r : Reading) (cs : List Char) : Option String :=
  (classHeaderFrom 0 inWord (markedFrom r cs)).map ClassHeader.name

theorem map_name_classHeaderFrom (offset offset' : Nat) (inWord : Bool) (ms : List Marked) :
    (classHeaderFrom offset inWord ms).map ClassHeader.name =
      (classHeaderFrom offset' inWord ms).map ClassHeader.name := by
  induction ms generalizing offset offset' inWord with
  | nil => rfl
  | cons m ms ih =>
    obtain ⟨c, code⟩ := m
    rw [classHeaderFrom_cons, classHeaderFrom_cons]
    split
    · rfl
    · exact ih _ _ _

theorem declaredClass?_cons (inWord : Bool) (r : Reading) (c : Char) (cs : List Char) :
    declaredClass? inWord r (c :: cs) =
      ((if (r.step c cs).1 && c == 'c' && !inWord then declaredAfter? cs else none).map fun p =>
        String.ofList p.2).or
        (declaredClass? (isIdentPart c || c == '.') (r.step c cs).2 cs) := by
  rw [declaredClass?, markedFrom_cons, classHeaderFrom_cons, map_fst_markedFrom]
  split
  · rename_i gap name hdeclared
    rw [hdeclared]
    rfl
  · rename_i hnone
    rw [hnone, map_name_classHeaderFrom _ 0]
    rfl

/-- In code a blank is no part of a declaration that begins after it. -/
theorem declaredClass?_blank {c : Char} (hc : isAsciiBlank c = true) (inWord : Bool) (cs : List Char) :
    declaredClass? inWord .code (c :: cs) = declaredClass? false .code cs := by
  obtain ⟨hpart, -, -, hpoint, -⟩ := isJoining_eq_false (isJoining_of_isAsciiBlank hc)
  have hkeyword : c ≠ 'c' := by
    rintro rfl
    cases hc
  rw [declaredClass?_cons, step_inert (isInert_of_isBlank (isBlank_of_isAsciiBlank hc)), hpart,
    beq_false_of_ne hpoint, beq_false_of_ne hkeyword]
  rfl

theorem declaredName?_congr {cs ds : List Char}
    (hgap : (cs.takeWhile isBlank).isEmpty = (ds.takeWhile isBlank).isEmpty)
    (hname : identifier (cs.dropWhile isBlank) = identifier (ds.dropWhile isBlank)) :
    (declaredName? cs).map Prod.snd = (declaredName? ds).map Prod.snd := by
  unfold declaredName?
  dsimp only
  rw [hgap, hname]
  split <;> rfl

/-! ## Texts with gaps -/

def uncut (cs : List Cut) : List Char :=
  (cs.filter fun c => !c.2).map Prod.fst

theorem uncut_kept (a : List Char) (cs : List Cut) : uncut (a.map (·, false) ++ cs) = a ++ uncut cs := by
  induction a with
  | nil => rfl
  | cons c a ih => exact congrArg (c :: ·) ih

theorem uncut_cut (a : List Char) (cs : List Cut) : uncut (a.map (·, true) ++ cs) = uncut cs := by
  induction a with
  | nil => rfl
  | cons c a ih => exact ih

namespace Thins

variable {before : Before} {cs : List Cut} {ds : List Char}

theorem isSeparated (h : Thins before cs ds) : isSeparatedFrom before.isApart cs = true := by
  induction h with
  | nil => rfl
  | @keep _ c cs ds _ ih =>
    rw [isSeparatedFrom]
    cases hc : isJoining c with
    | true =>
      rw [Before.after_eq_joining.2 hc] at ih
      exact ih
    | false =>
      have hafter : (Before.after c).isApart = true := by
        rw [Before.isApart_iff, ne_eq, Before.after_eq_joining, hc]
        exact Bool.false_ne_true
      rw [hafter] at ih
      exact ih
  | cut hb _ ih => exact Bool.and_eq_true_iff.2 ⟨Before.isApart_iff.2 hb, ih⟩
  | feed hb _ ih => exact Bool.and_eq_true_iff.2 ⟨Before.isApart_iff.2 hb, ih⟩
  | blank hc _ ih =>
    rw [isSeparatedFrom, isJoining_of_isAsciiBlank hc]
    exact ih
  | lead hc _ _ _ ih =>
    rw [isSeparatedFrom, isJoining_of_isAsciiBlank hc]
    exact ih

theorem uncut (h : Thins before cs ds) : Thins before cs (UpdaterBootstrap.uncut cs) := by
  have hkept : Thins before (cs ++ []) (UpdaterBootstrap.uncut cs ++ []) :=
    Thins.kept (by rw [List.append_nil]; exact h.isSeparated) fun before _ => .nil before
  rwa [List.append_nil, List.append_nil] at hkept

theorem exists_kept {w : List Char} (hw : ∀ c ∈ w, isJoining c = true) (h : Thins .joining cs (w ++ ds)) :
    ∃ cs', cs = w.map (·, false) ++ cs' ∧ Thins .joining cs' ds := by
  induction w generalizing cs with
  | nil => exact ⟨cs, rfl, h⟩
  | cons c w ih =>
    obtain ⟨hc, hw⟩ := List.forall_mem_cons.1 hw
    rw [List.cons_append] at h
    generalize hjoining : Before.joining = before, hds : c :: (w ++ ds) = es at h
    cases h with
    | nil => cases hds
    | keep h =>
      obtain ⟨rfl, rfl⟩ := List.cons.inj hds
      rw [Before.after_eq_joining.2 hc] at h
      obtain ⟨cs', rfl, hrest⟩ := ih hw h
      exact ⟨cs', rfl, hjoining ▸ hrest⟩
    | cut hb => exact absurd hjoining.symm hb
    | feed hb => exact absurd hjoining.symm hb
    | blank => cases hjoining
    | lead => cases hjoining

theorem isEmpty_gap (h : Thins .joining cs ds) :
    (ds.takeWhile isBlank).isEmpty = ((UpdaterBootstrap.uncut cs).takeWhile isBlank).isEmpty := by
  generalize hjoining : Before.joining = before at h
  cases h with
  | nil => rfl
  | @keep _ c cs ds h =>
    have hcons : UpdaterBootstrap.uncut ((c, false) :: cs) = c :: UpdaterBootstrap.uncut cs := rfl
    rw [hcons, List.takeWhile_cons, List.takeWhile_cons]
    cases isBlank c <;> rfl
  | cut hb => exact absurd hjoining.symm hb
  | feed hb => exact absurd hjoining.symm hb
  | blank => cases hjoining
  | lead => cases hjoining

/-- After its blanks a text begins with the same word. -/
theorem identifier_eq (h : Thins before cs ds) :
    identifier (ds.dropWhile isBlank) = identifier ((UpdaterBootstrap.uncut cs).dropWhile isBlank) := by
  have dropped {c : Char} (hc : isAsciiBlank c = true) (cs : List Char) :
      (c :: cs).dropWhile isBlank = cs.dropWhile isBlank :=
    List.dropWhile_cons_of_pos (isBlank_of_isAsciiBlank hc)
  induction h with
  | nil => rfl
  | @keep _ c cs ds h ih =>
    have hcons : UpdaterBootstrap.uncut ((c, false) :: cs) = c :: UpdaterBootstrap.uncut cs := rfl
    rw [hcons, List.dropWhile_cons, List.dropWhile_cons]
    split
    · exact ih
    · rw [identifier, identifier]
      split
      · rename_i hstart
        -- a word has begun, so nothing more is dropped until it ends
        rw [Before.after_eq_joining.2 (isJoining_of_isIdentPart (isIdentPart_of_isIdentStart hstart))] at h
        rw [← h.agrees.takeWhile_eq, h.uncut.agrees.takeWhile_eq]
      · rfl
  | cut _ _ ih => exact ih
  | feed _ _ ih =>
    rw [dropped (by decide)]
    exact ih
  | blank hc _ ih =>
    rw [ih]
    exact (congrArg identifier (dropped hc _)).symm
  | lead hc _ _ _ ih =>
    rw [ih]
    exact (congrArg identifier (dropped hc _)).symm

theorem declaredAfter?_eq (h : Thins .joining cs ds) :
    (declaredAfter? ds).map Prod.snd = (declaredAfter? (UpdaterBootstrap.uncut cs)).map Prod.snd := by
  have hjoining : ∀ c ∈ "lass".toList, isJoining c = true := List.all_eq_true.1 (by decide)
  have hlast : ∀ c, "lass".toList.getLast? = some c → isAsciiBlank c = false := by
    intro c hc
    rw [← Option.some.inj (hc : some 's' = some c)]
    rfl
  have keyword {ds : List Char} (h : Thins .joining cs ds) (hds : ds.take 4 = "lass".toList) :
      ∃ cs', cs = "lass".toList.map (·, false) ++ cs' ∧ Thins .joining cs' (ds.drop 4) := by
    rw [← List.take_append_drop 4 ds, hds] at h
    exact h.exists_kept hjoining
  unfold declaredAfter?
  by_cases hds : ds.take 4 = "lass".toList
  · obtain ⟨cs', rfl, hrest⟩ := keyword h hds
    rw [if_pos (by simpa using hds), uncut_kept]
    exact declaredName?_congr hrest.isEmpty_gap hrest.identifier_eq
  · have huncut : (UpdaterBootstrap.uncut cs).take 4 ≠ "lass".toList := by
      intro huncut
      obtain ⟨cs', rfl, -⟩ := keyword h.uncut huncut
      obtain ⟨ds', rfl, -⟩ := h.of_kept (by decide) hlast
      exact hds rfl
    rw [if_neg (by simpa using hds), if_neg (by simpa using huncut)]

end Thins

/-! ## Cuts between code -/

/-- Where the scan stands after a text that others follow. -/
def Reading.over (r : Reading) : List Char → List Char → Reading
  | [], _ => r
  | c :: a, post => (r.step c (a ++ post)).2.over a post

theorem over_append (r : Reading) (a b post : List Char) :
    r.over (a ++ b) post = (r.over a (b ++ post)).over b post := by
  induction a generalizing r with
  | nil => rfl
  | cons c a ih =>
    rw [List.cons_append, Reading.over, Reading.over, ih, List.append_assoc]

theorem over_inert {a : List Char} (h : ∀ c ∈ a, isInert c = true) (post : List Char) :
    Reading.code.over a post = .code := by
  induction a with
  | nil => rfl
  | cons c a ih =>
    obtain ⟨hc, ha⟩ := List.forall_mem_cons.1 h
    rw [Reading.over, step_inert hc]
    exact ih ha

theorem over_closing? {depth : Nat} {r : Reading} {inner post : List Char}
    (h : closing? depth (markedFrom r (inner ++ post)) = some inner) : r.over inner post = .code := by
  induction inner generalizing depth r with
  | nil => cases getLast?_of_closing? h
  | cons c inner ih =>
    rw [List.cons_append, markedFrom_cons] at h
    rw [Reading.over]
    obtain ⟨-, hcode, -, hinner⟩ | ⟨depth', rest, hinner, hrest, -⟩ := closing?_cons h
    · obtain ⟨-, rfl⟩ := List.cons.inj hinner
      exact step_code hcode
    · obtain ⟨-, rfl⟩ := List.cons.inj hinner
      exact ih hrest

theorem CapturedFrom.over {name arguments rest : List Char}
    (h : CapturedFrom (name ++ (arguments ++ rest)) name arguments) :
    Reading.code.over ('@' :: (name ++ arguments)) rest = .code := by
  have hname : ∀ c ∈ name, isInert c = true := by
    intro c hc
    rw [← h.hname] at hc
    exact isInert_of_mem_dottedName hc
  have hat : ∀ c ∈ '@' :: name, isInert c = true := List.forall_mem_cons.2 ⟨by decide, hname⟩
  rw [← List.cons_append, over_append, over_inert hat]
  rcases h.enclosed with rfl | ⟨gap, inner, rfl, hgap, hinner⟩
  · rfl
  · have hopen : ∀ c ∈ gap ++ ['('], isInert c = true := by
      intro c hc
      rcases List.mem_append.1 hc with hc | hc
      · rcases hgap c hc with rfl | rfl <;> decide
      · rw [List.mem_singleton.1 hc]
        decide
    have hparts : gap ++ '(' :: inner = gap ++ ['('] ++ inner := by simp
    rw [hparts, over_append, over_inert hopen]
    exact over_closing? (hinner rest)

/-- Every cut begins where the scan stands in code, and it does so again after the cut. -/
inductive CutsInCode : Reading → List Cut → Prop
  | nil (r : Reading) : CutsInCode r []
  | keep {r : Reading} {c : Char} {cs : List Cut} (h : CutsInCode (r.step c (cs.map Prod.fst)).2 cs) :
      CutsInCode r ((c, false) :: cs)
  | cut {a : List Char} {cs : List Cut} (ha : a ≠ []) (h : CutsInCode .code cs) :
      CutsInCode .code (a.map (·, true) ++ cs)

theorem CutsInCode.over {r : Reading} {a : List Char} {cs : List Cut}
    (h : CutsInCode (r.over a (cs.map Prod.fst)) cs) :
    CutsInCode r (a.map (·, false) ++ cs) := by
  induction a generalizing r with
  | nil => exact h
  | cons c a ih =>
    rw [List.map_cons, List.cons_append]
    apply CutsInCode.keep
    rw [List.map_append, map_fst_mark]
    exact ih h

theorem cutsInCode_pieces (afterPoint : Bool) (r : Reading) (cs : List Char) :
    CutsInCode r ((piecesFrom 0 afterPoint (markedFrom r cs)).flatMap Piece.cuts) := by
  induction hn : cs.length using Nat.strongRecOn generalizing afterPoint r cs with
  | ind n ih =>
    subst hn
    cases cs with
    | nil => exact .nil r
    | cons c cs =>
      rcases piecesFrom_cases afterPoint r c cs with ⟨_, hplain⟩ |
        ⟨name, arguments, rest, rfl, rfl, rfl, rfl, hcaptured, hoccurrence⟩
      · have hcuts : (Piece.plain c).cuts = [(c, false)] := rfl
        rw [hplain, List.flatMap_cons, hcuts, List.singleton_append]
        apply CutsInCode.keep
        rw [map_fst_flatMap_cuts]
        exact ih cs.length (by simp) _ _ cs rfl
      · have hrest := ih rest.length (by simp; omega) false .code rest rfl
        rw [hoccurrence, List.flatMap_cons]
        have hcuts : (Piece.occurrence name arguments).cuts =
            ('@' :: (name ++ arguments)).map (·, isRecognized name) := rfl
        rw [hcuts]
        cases isRecognized name with
        | true => exact .cut (List.cons_ne_nil _ _) hrest
        | false =>
          apply CutsInCode.over
          rw [map_fst_flatMap_cuts, hcaptured.over]
          exact hrest

theorem CutsInCode.eq_code {r : Reading} {cs : List Cut} (h : CutsInCode r cs)
    (hr : r.Reached (cs.map Prod.fst)) (hlead : LeadsToCut cs) : r = .code := by
  obtain ⟨blanks, d, rest, rfl, hblanks⟩ := hlead
  induction blanks generalizing r with
  | nil =>
    generalize hcs : ([] : List Char).map (·, false) ++ (d, true) :: rest = cs at h
    cases h with
    | nil => cases hcs
    | keep => cases hcs
    | cut => rfl
  | cons e blanks ih =>
    obtain ⟨⟨he, hfeed⟩, hmore⟩ := List.forall_mem_cons.1 hblanks
    generalize hcs : (e :: blanks).map (·, false) ++ (d, true) :: rest = cs at h hr
    cases h with
    | nil => cases hcs
    | keep h =>
      obtain ⟨heq, rfl⟩ := List.cons.inj hcs
      obtain ⟨rfl, -⟩ := Prod.mk.inj heq
      exact eq_code_of_blank hr he hfeed (ih hmore h hr.step)
    | cut => rfl

/-- In code, line feeds declare nothing. -/
theorem declaredClass?_feeds {fs : List Char} (hfs : ∀ c ∈ fs, c = '\n') {inWord : Bool}
    (hword : inWord = false)
    (cs : List Char) : declaredClass? inWord .code (fs ++ cs) = declaredClass? false .code cs := by
  subst hword
  induction fs with
  | nil => rfl
  | cons c fs ih =>
    obtain ⟨hc, hmore⟩ := List.forall_mem_cons.1 hfs
    rw [hc, List.cons_append, declaredClass?_blank (by decide)]
    exact ih hmore

/-- What stays of a text declares the class that is declared where the blanks next to the cuts stay
as well. -/
theorem declaredClass?_of_thins {before : Before} {inWord : Bool} {r : Reading} {cs : List Cut}
    {ds : List Char}
    (hcuts : CutsInCode r cs) (hr : r.Reached (cs.map Prod.fst)) (hgap : before = .gap → r = .code)
    (hword : before ≠ .joining → inWord = false) (h : Thins before cs ds) :
    declaredClass? inWord r ds = declaredClass? inWord r (uncut cs) := by
  induction hcuts generalizing before inWord ds with
  | nil =>
    cases h
    rfl
  | @keep r c cs hcuts ih =>
    have hcons : uncut ((c, false) :: cs) = c :: uncut cs := rfl
    -- a blank that goes stands in code, where blanks declare nothing
    have dropped (hb : before ≠ .joining) (hblank : isAsciiBlank c = true) (hcode : r = .code)
      (h : Thins .gap cs ds) :
        declaredClass? inWord r ds = declaredClass? inWord r (uncut ((c, false) :: cs)) := by
      have hstep : (r.step c (cs.map Prod.fst)).2 = .code := by
        rw [hcode, step_inert (isInert_of_isBlank (isBlank_of_isAsciiBlank hblank))]
      have hrest := ih hr.step (fun _ => hstep) (fun _ => rfl) h
      rw [hstep] at hrest
      rw [hcode, hword hb, hcons, declaredClass?_blank hblank]
      exact hrest
    cases h with
    | @keep _ _ _ ds h =>
      have hafter : Before.after c ≠ .joining → (isIdentPart c || c == '.') = false := by
        intro hne
        have hc : isJoining c = false := by simpa [Before.after_eq_joining] using hne
        rw [(isJoining_eq_false hc).1, beq_point_of_apart hc]
        rfl
      have hrest := ih hr.step (fun e => absurd e (Before.after_ne_gap c)) hafter h
      rw [hcons, declaredClass?_cons, declaredClass?_cons, ← h.step_eq hr, ← h.uncut.step_eq hr, hrest]
      congr 1
      split
      -- a header can only begin at this character, and what follows agrees as far as names go
      · rename_i hkeyword
        obtain rfl : c = 'c' := by
          simp only [Bool.and_eq_true, beq_iff_eq] at hkeyword
          exact hkeyword.1.2
        have hjoining : Before.after 'c' = .joining := by decide
        rw [hjoining] at h
        have hnames := congrArg (Option.map String.ofList) h.declaredAfter?_eq
        rwa [Option.map_map, Option.map_map] at hnames
      · rfl
    | blank hblank h => exact dropped (by decide) hblank (hgap rfl) h
    | lead hblank hfeed hlead h =>
      exact dropped (by decide) hblank (eq_code_of_blank hr hblank hfeed (hcuts.eq_code hr.step hlead)) h
  | @cut a cs ha hcuts ih =>
    -- behind a cut nothing but line feeds come before what stays
    have after {a : List Char} {ds : List Char} (h : Thins .gap (a.map (·, true) ++ cs) ds) :
        ∃ fs ds', ds = fs ++ ds' ∧ (∀ c ∈ fs, c = '\n') ∧
          declaredClass? false .code ds' = declaredClass? false .code (uncut cs) := by
      obtain ⟨fs, ds', rfl, hfs, hrest⟩ := h.of_gap
      exact ⟨fs, ds', rfl, hfs, ih (Reading.reached_code _) (fun _ => rfl) (fun _ => rfl) hrest⟩
    rw [uncut_cut]
    obtain ⟨c, a, rfl⟩ := List.exists_cons_of_ne_nil ha
    cases h with
    | cut hb h =>
      obtain ⟨fs, ds', rfl, hfs, hrest⟩ := after h
      rw [declaredClass?_feeds hfs (hword hb), hrest, hword hb]
    | feed hb h =>
      obtain ⟨fs, ds', rfl, hfs, hrest⟩ := after h
      rw [declaredClass?_blank (by decide), declaredClass?_feeds hfs rfl, hrest, hword hb]

/-- The class declared in a text with separated cuts does not depend on the line count. -/
theorem IsSeparated.map_name_findClassHeader {source : String} {keepLineCount : Bool}
    (h : IsSeparated keepLineCount source.toList) :
    (findClassHeader (stripAnnotations source keepLineCount)).map ClassHeader.name =
      declaredClass? false (.start source.toList) (uncut (UpdaterBootstrap.cuts source.toList)) := by
  have hcuts : CutsInCode (.start source.toList) (UpdaterBootstrap.cuts source.toList) :=
    cutsInCode_pieces false _ source.toList
  have hreached : (Reading.start source.toList).Reached
      ((UpdaterBootstrap.cuts source.toList).map Prod.fst) := by
    rw [map_fst_cuts]
    exact Reading.reached_start _
  rw [← declaredClass?_of_thins hcuts hreached (fun e => by cases e) (fun _ => rfl) h.thins,
    findClassHeader, stripAnnotations, String.toList_ofList, marked_eq, h.start_eq]
  rfl

end UpdaterBootstrap
