import UpdaterBootstrap.Proofs.DeclaredClass
import UpdaterBootstrap.Proofs.SameUnit
import UpdaterBootstrap.Proofs.StoredScript

/-!
# Scripts with and without the line count

The line count decides over line feeds of the stripped text and nothing else. But the class is
looked for in that text, so the outcomes are the same but for the layout exactly if both texts
declare the same class, or if the script is no class either way (`interpret_sameButLayout_iff`).
-/

namespace UpdaterBootstrap

/-! ## Layout -/

def withoutBlanks (s : String) : List Char :=
  s.toList.filter fun c => !isBlank c

/-- Texts stripped with and without the line count differ in line feeds only. -/
theorem filter_stripChars {p : Char → Bool} (hp : p '\n' = false) (k k' : Bool) (cs : List Char) :
    (stripChars k cs).filter p = (stripChars k' cs).filter p := by
  have hfeed (l : CutLine) (b : Bool) : (if b then l.feedText else []).filter p = [] := by
    cases b with
    | false => rfl
    | true =>
      unfold CutLine.feedText
      split
      · simp [hp]
      · rfl
  have hrest (l : CutLine) : (l.rest k).filter p = (l.rest k').filter p := by
    unfold CutLine.rest
    split
    · rfl
    · rw [List.filter_append, List.filter_append, hfeed, hfeed]
  rw [stripChars, stripChars, List.filter_flatMap, List.filter_flatMap]
  simp only [hrest]

theorem withoutBlanks_stripAnnotations (source : String) (k k' : Bool) :
    withoutBlanks (stripAnnotations source k) = withoutBlanks (stripAnnotations source k') := by
  rw [withoutBlanks, withoutBlanks, stripAnnotations, stripAnnotations, String.toList_ofList,
    String.toList_ofList]
  exact filter_stripChars (by decide) k k' source.toList

/-- The same fault, the same reason to skip the script, or classes with the same name and values and
with scripts that are equal once blanks are removed. -/
inductive SameButLayout :
    Except InvalidUpdaterName Interpretation → Except InvalidUpdaterName Interpretation → Prop
  | fault (e : InvalidUpdaterName) : SameButLayout (.error e) (.error e)
  | skipped (reason : SkipReason) : SameButLayout (.ok (.skipped reason)) (.ok (.skipped reason))
  | model {m m' : ClassModel} (className : m.className = m'.className)
      (bootstrap : m.bootstrap? = m'.bootstrap?)
      (updater : m.updater? = m'.updater?) (script : withoutBlanks m.script = withoutBlanks m'.script) :
      SameButLayout (.ok (.model m)) (.ok (.model m'))

theorem sameButLayout_refl (x : Except InvalidUpdaterName Interpretation) : SameButLayout x x := by
  rcases x with e | m | reason
  · exact .fault e
  · exact .model rfl rfl rfl rfl
  · exact .skipped reason

/-! ## Units -/

theorem ofUnit_classLine (ns : Namespaces) (u : ParsedUnit) (line : Nat) (script script' : String) :
    ClassModel.ofUnit ns { u with classLine := line } script' =
      (ClassModel.ofUnit ns u script).map fun m => { m with script := script' } := by
  unfold ClassModel.ofUnit
  dsimp only
  cases u.annotations.foldlM (addValues u.imports) ⟨none, none⟩ with
  | error fault => rfl
  | ok found =>
    rw [mapError_ok, ok_bind, ok_bind]
    cases found.updater? with
    | none => rfl
    | some info =>
      dsimp only
      cases validateName ns info.name <;> rfl

theorem outcome_same {i i' : Interpreter} (hns : i.namespaces = i'.namespaces) (path : String)
    {e e' : Excerpt}
    (hbody : withoutBlanks e.strippedBody = withoutBlanks e'.strippedBody) {x y : Except UnitError ParsedUnit}
    (h : SameUnit x y) : SameButLayout (i.outcome path e x) (i'.outcome path e' y) := by
  cases h with
  | fault fault => exact .skipped (.unit fault)
  | unit u line =>
    unfold Interpreter.outcome
    rw [← hns]
    dsimp only
    rw [ofUnit_classLine i.namespaces u line e.strippedBody]
    cases hmodel : ClassModel.ofUnit i.namespaces u e.strippedBody with
    | error fault =>
      cases fault with
      | evaluation fault => exact .skipped (.evaluation fault)
      | invalidName name fault => exact .fault ⟨path, name, fault⟩
    | ok m =>
      have hscript := (ClassModel.script_of_ofUnit hmodel).1
      refine .model rfl rfl rfl ?_
      rw [hscript, hbody]

/-! ## Scripts -/

namespace Interpreter

def outcomeWith (i : Interpreter) (path content : String) (keepLineCount : Bool) :
    Except InvalidUpdaterName Interpretation :=
  (interpretFile { i with keepLineCount } path (.ok content)).1

end Interpreter

def declaredName (content : String) (keepLineCount : Bool) : Option String :=
  (findClassHeader (stripAnnotations (normalizeLines content) keepLineCount)).map ClassHeader.name

theorem declaredName_of_model {i : Interpreter} {path content : String} {k : Bool} {m : ClassModel}
    (h : i.outcomeWith path content k = .ok (.model m)) : declaredName content k = some m.className := by
  obtain ⟨u, hu, hm⟩ := Interpreter.exists_unit_of_model h
  rw [(ClassModel.script_of_ofUnit hm).2]
  exact (parseUnit_parts hu).2.2.2

theorem isAnnotated_extract (source : String) (k k' : Bool) :
    (extract source k).isAnnotated = (extract source k').isAnnotated := by
  rw [Excerpt.isAnnotated, Excerpt.isAnnotated, extract, extract]

theorem withoutBlanks_strippedBody (source : String) (k k' : Bool) :
    withoutBlanks (extract source k).strippedBody = withoutBlanks (extract source k').strippedBody := by
  rw [extract, extract]
  exact withoutBlanks_stripAnnotations source k k'

theorem outcomeWith_same (i : Interpreter) (path : String) {content : String} {k k' : Bool}
    (h : declaredName content k = declaredName content k') :
    SameButLayout (i.outcomeWith path content k) (i.outcomeWith path content k') := by
  have hunit : SameUnit (parseUnit (extract (normalizeLines content) k).unit.render)
      (parseUnit (extract (normalizeLines content) k').unit.render) := parseUnit_same h
  have hfst (k : Bool) := Interpreter.fst_interpret { i with keepLineCount := k } path content
  dsimp only at hfst
  rw [Interpreter.outcomeWith, Interpreter.outcomeWith, Interpreter.interpretFile,
    Interpreter.interpretFile, hfst, hfst, isAnnotated_extract _ k k']
  have hbody := withoutBlanks_strippedBody (normalizeLines content) k k'
  generalize extract (normalizeLines content) k = e, extract (normalizeLines content) k' = e' at hunit hbody ⊢
  split
  · exact outcome_same rfl path hbody hunit
  · exact .skipped .notAnnotated

/-- With and without the line count a script has the same outcome but for layout exactly if the
stripped texts declare the same class, or if it is no class for the same reason. Where every cut
follows a character that joins nothing, they declare the same class. -/
theorem interpret_sameButLayout_iff (i : Interpreter) (path content : String) :
    (SameButLayout (i.outcomeWith path content false) (i.outcomeWith path content true) ↔
      declaredName content false = declaredName content true ∨
        (i.outcomeWith path content false = i.outcomeWith path content true ∧
          ∀ m, i.outcomeWith path content true ≠ .ok (.model m))) ∧
    ((∀ k, IsSeparated k (normalizeLines content).toList) →
      declaredName content false = declaredName content true) := by
  refine ⟨⟨fun h => ?_, fun h => ?_⟩, fun h => ?_⟩
  · generalize hx : i.outcomeWith path content false = x, hy : i.outcomeWith path content true = y at h
    cases h with
    | fault e => exact .inr ⟨rfl, nofun⟩
    | skipped reason => exact .inr ⟨rfl, nofun⟩
    | model className =>
      rw [declaredName_of_model hx, declaredName_of_model hy, className]
      exact .inl rfl
  · rcases h with hname | ⟨hsame, -⟩
    · exact outcomeWith_same i path hname
    · rw [hsame]
      exact sameButLayout_refl _
  · rw [declaredName, declaredName, (h false).map_name_findClassHeader, (h true).map_name_findClassHeader]

/-- An annotation on lines of its own. -/
theorem interpret_sameButLayout_lines :
    (∀ k, IsSeparated k (normalizeLines "@Updater(\n  name = 'A'\n)\nclass A \x7b\x7d\n").toList) ∧
      declaredName "@Updater(\n  name = 'A'\n)\nclass A \x7b\x7d\n" true = some "A" ∧
      SameButLayout ((Interpreter.new false).outcomeWith "/A.groovy"
        "@Updater(\n  name = 'A'\n)\nclass A \x7b\x7d\n" false)
        ((Interpreter.new false).outcomeWith "/A.groovy"
          "@Updater(\n  name = 'A'\n)\nclass A \x7b\x7d\n" true) := by
  have hseparated : ∀ k, IsSeparated k
      (normalizeLines "@Updater(\n  name = 'A'\n)\nclass A \x7b\x7d\n").toList := by
    intro k
    cases k with
    | false => exact ⟨by decide +kernel, by decide +kernel⟩
    | true => exact ⟨by decide +kernel, by decide +kernel⟩
  obtain ⟨hiff, hname⟩ := interpret_sameButLayout_iff (Interpreter.new false) "/A.groovy"
    "@Updater(\n  name = 'A'\n)\nclass A \x7b\x7d\n"
  exact ⟨hseparated, by decide +kernel, hiff.2 (.inl (hname hseparated))⟩

theorem SameButLayout.isSome_classOf? {x y : Except InvalidUpdaterName Interpretation}
    (h : SameButLayout x y) :
    (classOf? x).isSome = (classOf? y).isSome := by
  cases h <;> rfl

/-- Without the line count the keyword is joined to the line before it. -/
theorem not_sameButLayout_joined :
    let outcome :=
      (Interpreter.new false).outcomeWith "/A.groovy" "x@Updater(name = 'A'\n)\nclass A \x7b\x7d\n"
    declaredName "x@Updater(name = 'A'\n)\nclass A \x7b\x7d\n" false = none ∧
      (classOf? (outcome true)).map ClassModel.script = some "x\n\nclass A \x7b\x7d\n" ∧
      ¬ SameButLayout (outcome false) (outcome true) := by
  intro outcome
  have hnone : declaredName "x@Updater(name = 'A'\n)\nclass A \x7b\x7d\n" false = none := by decide +kernel
  have hscript : (classOf? (outcome true)).map ClassModel.script = some "x\n\nclass A \x7b\x7d\n" := by
    decide +kernel
  refine ⟨hnone, hscript, ?_⟩
  intro hsame
  have hfalse : (classOf? (outcome false)).isSome = false := by decide +kernel
  have htrue : (classOf? (outcome true)).isSome = true := by decide +kernel
  rw [hsame.isSome_classOf?, htrue] at hfalse
  cases hfalse

end UpdaterBootstrap
