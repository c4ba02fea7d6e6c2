import UpdaterBootstrap.Document.OfModel
import UpdaterBootstrap.Proofs.Collapsing
import UpdaterBootstrap.Proofs.LineStructure
import UpdaterBootstrap.Proofs.Outcome
import UpdaterBootstrap.Proofs.Properties
import UpdaterBootstrap.Updater.Interpretation

/-!
# Line numbers in the stored script

Stripping with the line count kept leaves every line that no annotation touches at its number. The
script in the document is collapsed after that, so the numbers are those of the source exactly if no
two blank lines follow each other in what is left and no untouched line consists of blanks
(`storedScript_keepsLines_iff`).
-/

namespace UpdaterBootstrap

/-! ## The script of a document -/

namespace ClassModel

theorem get?_script (m : ClassModel) :
    m.writtenDocument.get? "hipposys:script" = some (.text m.scriptContent) := by
  unfold writtenDocument
  dsimp only
  rw [Document.get?_insert, if_neg (by decide), Document.get?_insert, if_pos rfl]

theorem get?_script_of_document? {m : ClassModel} {d : Document} (h : m.document? = some d) :
    d.get? "hipposys:script" = some (.text m.scriptContent) := by
  obtain ⟨-, rfl⟩ := document?_eq_some.1 h
  exact m.get?_script

theorem script_of_ofUnit {ns : Namespaces} {unit : ParsedUnit} {script : String} {m : ClassModel}
    (h : ofUnit ns unit script = .ok m) : m.script = script ∧ m.className = unit.className := by
  obtain ⟨found, _, hend⟩ := bind_eq_ok.1 h
  dsimp only at hend
  split at hend
  · obtain ⟨_, _, hend⟩ := bind_eq_ok.1 hend
    rw [← pure_eq_ok.1 hend]
    exact ⟨rfl, rfl⟩
  · rw [← pure_eq_ok.1 hend]
    exact ⟨rfl, rfl⟩

end ClassModel

namespace Interpreter

/-- Without its history, what a script is read as. -/
theorem fst_interpret (i : Interpreter) (path content : String) :
    (i.interpret path content).1 =
      if (extract (normalizeLines content) i.keepLineCount).isAnnotated then
        i.outcome path (extract (normalizeLines content) i.keepLineCount)
          (parseUnit (extract (normalizeLines content) i.keepLineCount).unit.render)
      else .ok (.skipped .notAnnotated) := by
  unfold interpret interpretText
  dsimp only
  cases (extract (normalizeLines content) i.keepLineCount).isAnnotated with
  | false => rfl
  | true =>
    rw [Bool.not_true, if_neg Bool.false_ne_true, if_pos rfl]
    cases hunit : parseUnit (extract (normalizeLines content) i.keepLineCount).unit.render <;>
      simp [UnitHistory.parse, hunit]

theorem exists_unit_of_model {i : Interpreter} {path content : String} {m : ClassModel}
    (h : (i.interpret path content).1 = .ok (.model m)) :
    ∃ u, parseUnit (extract (normalizeLines content) i.keepLineCount).unit.render = .ok u ∧
      ClassModel.ofUnit i.namespaces u (stripAnnotations (normalizeLines content) i.keepLineCount) =
        .ok m := by
  rw [fst_interpret] at h
  split at h
  · unfold outcome at h
    split at h
    · cases Except.ok.inj h
    · rename_i u hu
      refine ⟨u, hu, ?_⟩
      split at h
      · rename_i hm
        obtain rfl := Interpretation.model.inj (Except.ok.inj h)
        exact hm
      · cases Except.ok.inj h
      · cases h
  · cases Except.ok.inj h

theorem script_of_model {i : Interpreter} {path content : String} {m : ClassModel}
    (h : (i.interpret path content).1 = .ok (.model m)) :
    m.script = stripAnnotations (normalizeLines content) i.keepLineCount := by
  obtain ⟨u, -, hm⟩ := exists_unit_of_model h
  exact (ClassModel.script_of_ofUnit hm).1

end Interpreter

/-! ## Lines that keep their numbers -/

/-- A text made from a source has its lines one for one, and those that no annotation touches as
they are. -/
structure KeepsLines (source text : List Char) : Prop where
  length : (splitOn '\n' text).length = (splitOn '\n' source).length
  untouched : ∀ (n : Nat) (l : CutLine), (scriptLines source)[n]? = some l → l.isTouched = false →
    (splitOn '\n' text)[n]? = (splitOn '\n' source)[n]?

def IsBlankInside (ls : List CutLine) (n : Nat) : Prop :=
  0 < n ∧ n + 1 < ls.length ∧ ∃ l, ls[n]? = some l ∧ l.kept.all isLineBlank = true

theorem isLineBlank_of_isAsciiBlank {c : Char} (h : isAsciiBlank c = true) : isLineBlank c = true := by
  simp only [isAsciiBlank, Bool.or_eq_true, beq_iff_eq] at h
  rcases h with (((rfl | rfl) | rfl) | rfl) | rfl <;> decide

theorem CutLine.all_left (l : CutLine) : l.left.all isLineBlank = l.kept.all isLineBlank := by
  unfold left
  split
  · rename_i hblank
    have hkept := (Bool.and_eq_true_iff.1 hblank).2
    symm
    rw [List.all_nil, List.all_eq_true]
    intro c hc
    exact isLineBlank_of_isAsciiBlank (List.all_eq_true.1 hkept c hc)
  · rfl

theorem blankAt_left {l : CutLine} {ls : List CutLine} {n : Nat} :
    BlankAt (ls.map CutLine.left) n ↔ IsBlankInside (l :: ls) (n + 1) := by
  simp only [BlankAt, IsBlankInside, List.length_map, List.length_cons, Nat.zero_lt_succ, true_and,
    Nat.add_lt_add_iff_right, List.getElem?_map, List.getElem?_cons_succ, Option.map_eq_some_iff]
  refine and_congr_right fun _ => ⟨?_, ?_⟩
  · rintro ⟨_, ⟨k, hk, rfl⟩, hblank⟩
    exact ⟨k, hk, k.all_left ▸ hblank⟩
  · rintro ⟨k, hk, hblank⟩
    exact ⟨_, ⟨k, hk, rfl⟩, k.all_left.trans hblank⟩

theorem keepsLines_stripChars (source : List Char) : KeepsLines source (stripChars true source) := by
  constructor
  · rw [splitOn_stripChars, splitOn_script, List.length_map, List.length_map]
  · intro n l hl huntouched
    rw [splitOn_stripChars, splitOn_script, List.getElem?_map, List.getElem?_map, hl]
    exact congrArg some (CutLine.left_of_untouched huntouched)

/-- Only blank lines between others are in danger: two that follow each other become one, and one
that no annotation touches becomes empty. -/
theorem keepsLines_collapseFrom_iff (source : List Char) :
    KeepsLines source (collapseFrom 0 (stripChars true source)) ↔
      ∀ n, IsBlankInside (scriptLines source) n → ¬ IsBlankInside (scriptLines source) (n + 1) ∧
        ∀ l, (scriptLines source)[n]? = some l → l.isTouched = false → l.content = [] := by
  -- the first line is never collapsed, so it is taken apart from the others
  obtain ⟨first, ls, hlines⟩ := List.exists_cons_of_ne_nil (linesOf_ne_nil (cuts source))
  have hscript : scriptLines source = first :: ls := hlines
  have hstored : splitOn '\n' (collapseFrom 0 (stripChars true source)) =
      first.left :: collapseInner (ls.map CutLine.left) := by
    rw [splitOn_collapseFrom, splitOn_stripChars, hscript]
    rfl
  have hsource : splitOn '\n' source = first.content.map Prod.fst :: ls.map fun l =>
    l.content.map Prod.fst := by
    rw [splitOn_script, hscript]
    rfl
  constructor
  · intro h n hn
    -- no line is lost, so no two blank ones follow each other
    have hlength := h.length
    rw [hstored, hsource, List.length_cons, List.length_cons, List.length_map, Nat.succ.injEq,
      ← List.length_map CutLine.left, length_collapseInner_iff] at hlength
    obtain ⟨n, rfl⟩ := Nat.exists_eq_succ_of_ne_zero (Nat.ne_of_gt hn.1)
    have hblank : BlankAt (ls.map CutLine.left) n := blankAt_left.2 (hscript ▸ hn)
    constructor
    · rw [hscript, ← blankAt_left]
      exact hlength n hblank
    · intro l hl huntouched
      have hsame := h.untouched _ l hl huntouched
      rw [hstored, hsource, List.getElem?_cons_succ, List.getElem?_cons_succ, List.getElem?_map,
        (getElem?_collapseInner hlength n).1 hblank] at hsame
      rw [hscript, List.getElem?_cons_succ] at hl
      rw [hl, Option.map_some, Option.some.injEq] at hsame
      exact List.map_eq_nil_iff.1 hsame.symm
  · intro h
    rw [hscript] at h
    have hapart : BlanksApart (ls.map CutLine.left) := by
      intro n hn
      rw [blankAt_left (l := first)] at hn ⊢
      exact (h _ hn).1
    constructor
    · rw [hstored, hsource, List.length_cons, List.length_cons, List.length_map,
        length_collapseInner_iff.2 hapart, List.length_map]
    · intro n l hl huntouched
      rw [hscript] at hl
      rw [hstored, hsource]
      cases n with
      | zero =>
        obtain rfl : first = l := Option.some.inj hl
        exact congrArg some (CutLine.left_of_untouched huntouched)
      | succ n =>
        obtain ⟨hemptied, hkept⟩ := getElem?_collapseInner hapart n
        rw [List.getElem?_cons_succ] at hl ⊢
        rw [List.getElem?_cons_succ, List.getElem?_map, hl]
        by_cases hblank : BlankAt (ls.map CutLine.left) n
        · have hempty := (h _ (blankAt_left.1 hblank)).2 l hl huntouched
          rw [hemptied hblank, Option.map_some, hempty, List.map_nil]
        · rw [hkept hblank, List.getElem?_map, hl]
          exact congrArg some (CutLine.left_of_untouched huntouched)

/-! ## In the document -/

/-- Where the script of a class is stored, the stripped script keeps the lines of its source, and
the stored one does exactly if what is left of the source has no two blank lines in a row inside it,
and no line of blanks that no annotation touches. -/
theorem storedScript_keepsLines_iff {i : Interpreter} {path content : String} {m : ClassModel} {d : Document}
    (hkeep : i.keepLineCount = true) (hmodel : (i.interpret path content).1 = .ok (.model m))
    (hdocument : m.document? = some d) :
    let source := (normalizeLines content).toList
    ∃ stored, d.get? "hipposys:script" = some (.text stored) ∧ KeepsLines source m.script.toList ∧
      (KeepsLines source stored.toList ↔
        ∀ n, IsBlankInside (scriptLines source) n → ¬ IsBlankInside (scriptLines source) (n + 1) ∧
          ∀ l, (scriptLines source)[n]? = some l → l.isTouched = false → l.content = []) := by
  intro source
  have hscript : m.script.toList = stripChars true source := by
    rw [Interpreter.script_of_model hmodel, hkeep, stripAnnotations, String.toList_ofList]
  have hstored : m.scriptContent.toList = collapseFrom 0 (stripChars true source) := by
    rw [ClassModel.scriptContent, collapseBlankLines, String.toList_ofList, hscript]
  refine ⟨m.scriptContent, ClassModel.get?_script_of_document? hdocument, ?_, ?_⟩
  · rw [hscript]
    exact keepsLines_stripChars source
  · rw [hstored]
    exact keepsLines_collapseFrom_iff source

def classOf? : Except InvalidUpdaterName Interpretation → Option ClassModel
  | .ok (.model m) => some m
  | _ => none

theorem eq_model_of_classOf? {x : Except InvalidUpdaterName Interpretation} {m : ClassModel}
    (h : classOf? x = some m) :
    x = .ok (.model m) := by
  unfold classOf? at h
  split at h
  · rw [Option.some.inj h]
  · cases h

theorem storedScript_keepsLines_single :
    ∃ m d stored, ((Interpreter.new true).interpret "/A" "@Updater(name = 'A')\nclass A \x7b\x7d\n").1 =
      .ok (.model m) ∧
      m.document? = some d ∧ d.get? "hipposys:script" = some (.text stored) ∧
      KeepsLines (normalizeLines "@Updater(name = 'A')\nclass A \x7b\x7d\n").toList stored.toList := by
  have hclass : (classOf? ((Interpreter.new true).interpret "/A"
    "@Updater(name = 'A')\nclass A \x7b\x7d\n").1).map
      (fun m => (m.isValid, m.isExcluded)) = some (true, false) := by decide +kernel
  obtain ⟨m, hm, hfacts⟩ := Option.map_eq_some_iff.1 hclass
  obtain ⟨hvalid, hincluded⟩ := Prod.mk.inj hfacts
  have hmodel := eq_model_of_classOf? hm
  have hdocument := ClassModel.document?_eq_some.2 ⟨⟨hvalid, hincluded⟩, rfl⟩
  obtain ⟨stored, hstored, -, hkeeps⟩ := storedScript_keepsLines_iff rfl hmodel hdocument
  refine ⟨m, _, stored, hmodel, hdocument, hstored, hkeeps.2 ?_⟩
  have hlines : (scriptLines (normalizeLines
    "@Updater(name = 'A')\nclass A \x7b\x7d\n").toList).length = 3 := by decide +kernel
  have hsecond : ((scriptLines (normalizeLines "@Updater(name = 'A')\nclass A \x7b\x7d\n").toList)[1]?).map
      (fun l => l.kept.all isLineBlank) = some false := by decide +kernel
  rintro n ⟨hpos, hinner, l, hl, hblank⟩
  obtain rfl : n = 1 := by omega
  rw [hl, Option.map_some, hblank] at hsecond
  cases hsecond

/-- The blank line that an annotation leaves is collapsed with the one after it. -/
theorem storedScript_loses_line :
    ∃ m d stored,
      ((Interpreter.new true).interpret "/A"
        "@Bootstrap\n@Updater(name = 'A')\n\nclass A \x7b\x7d\n").1 = .ok (.model m) ∧
      m.document? = some d ∧ d.get? "hipposys:script" = some (.text stored) ∧
      ¬ KeepsLines (normalizeLines "@Bootstrap\n@Updater(name = 'A')\n\nclass A \x7b\x7d\n").toList
        stored.toList := by
  have hclass : (classOf? ((Interpreter.new true).interpret "/A"
        "@Bootstrap\n@Updater(name = 'A')\n\nclass A \x7b\x7d\n").1).map
      (fun m => (m.isValid, m.isExcluded, m.scriptContent)) =
        some (true, false, "\n\nclass A \x7b\x7d\n") := by
    decide +kernel
  obtain ⟨m, hm, hfacts⟩ := Option.map_eq_some_iff.1 hclass
  obtain ⟨hvalid, hfacts⟩ := Prod.mk.inj hfacts
  obtain ⟨hincluded, hstored⟩ := Prod.mk.inj hfacts
  have hdocument := ClassModel.document?_eq_some.2 ⟨⟨hvalid, hincluded⟩, rfl⟩
  refine ⟨m, _, m.scriptContent, eq_model_of_classOf? hm, hdocument,
    ClassModel.get?_script_of_document? hdocument, ?_⟩
  intro hkeeps
  have hlength := hkeeps.length
  rw [hstored] at hlength
  revert hlength
  decide +kernel

end UpdaterBootstrap
