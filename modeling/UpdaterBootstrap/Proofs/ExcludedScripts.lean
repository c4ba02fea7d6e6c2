import UpdaterBootstrap.Proofs.FailedRun
import UpdaterBootstrap.Proofs.StoredScript
import UpdaterBootstrap.Proofs.UnitText

/-!
# Scripts that are excluded

A script that is excluded leaves no trace in a run: it has no document and no entry, and the run
goes on with the other scripts as without it (`build_excluded_iff`). But its updater name is checked
before anyone asks whether it is excluded, so a name that is refused stops the run all the same.
-/

namespace UpdaterBootstrap

/-! ## What annotations say -/

def annotationValues? (imports : List Import) (annotations : List AnnotationTerm) (kind : AnnotationKind) :
    Option FieldValues :=
  annotations.findSome? fun a =>
    match resolveKind imports a.name with
    | .ok kind' => if kind' = kind then (kind.evaluate a.arguments).toOption else none
    | .error _ => none

section
variable {imports : List Import} {a : AnnotationTerm} {annotations : List AnnotationTerm}
  {kind kind' : AnnotationKind}

theorem annotationValues?_cons (h : resolveKind imports a.name = .ok kind) :
    annotationValues? imports (a :: annotations) kind =
      (kind.evaluate a.arguments).toOption.or (annotationValues? imports annotations kind) := by
  unfold annotationValues?
  rw [List.findSome?_cons, h]
  dsimp only
  rw [if_pos rfl]
  cases kind.evaluate a.arguments <;> rfl

theorem annotationValues?_cons_ne (h : resolveKind imports a.name = .ok kind) (hne : kind' ≠ kind) :
    annotationValues? imports (a :: annotations) kind' = annotationValues? imports annotations kind' := by
  unfold annotationValues?
  rw [List.findSome?_cons, h]
  dsimp only
  rw [if_neg (Ne.symm hne)]

end

section
variable {imports : List Import} {annotations : List AnnotationTerm} {kinds : List AnnotationKind}
  (hkinds : annotations.map (resolveKind imports ∘ AnnotationTerm.name) = kinds.map .ok)
include hkinds

theorem annotationValues?_of_not_mem {kind : AnnotationKind} (h : kind ∉ kinds) :
    annotationValues? imports annotations kind = none := by
  induction annotations generalizing kinds with
  | nil => rfl
  | cons a annotations ih =>
    cases kinds with
    | nil => cases hkinds
    | cons kind' kinds =>
      obtain ⟨hkind, hkinds⟩ := List.cons.inj hkinds
      rw [List.mem_cons, not_or] at h
      rw [annotationValues?_cons_ne hkind h.1]
      exact ih hkinds h.2

/-- Annotations of different kinds give the values of each kind, or else those of one kind cannot be
evaluated. -/
theorem foldlM_addValues (hnodup : kinds.Nodup) {found : AnnotationValues}
    (hnew : ∀ kind ∈ kinds, found.has kind = false) :
    (∃ kind ∈ kinds, annotationValues? imports annotations kind = none ∧
      ∃ e, annotations.foldlM (addValues imports) found = .error e) ∨
    annotations.foldlM (addValues imports) found =
      .ok ⟨((annotationValues? imports annotations .bootstrap).map .ofValues).or found.bootstrap?,
        ((annotationValues? imports annotations .updater).map .ofValues).or found.updater?⟩ := by
  induction annotations generalizing kinds found with
  | nil => exact .inr rfl
  | cons a annotations ih =>
    cases kinds with
    | nil => cases hkinds
    | cons kind kinds =>
      obtain ⟨hkind, hkinds⟩ := List.cons.inj hkinds
      obtain ⟨hnotin, hnodup⟩ := List.nodup_cons.1 hnodup
      have hfirst := annotationValues?_of_not_mem hkinds hnotin
      rw [List.foldlM_cons, addValues_eq hkind (hnew kind List.mem_cons_self)]
      -- an annotation that cannot be evaluated stops the fold and has no values
      cases hvalues : kind.evaluate a.arguments with
      | error e =>
        refine .inl ⟨kind, List.mem_cons_self, ?_, e, rfl⟩
        rw [annotationValues?_cons hkind, hvalues, hfirst]
        rfl
      | ok values =>
        have hother : ∀ k ∈ kinds, k ≠ kind := fun k hk e => hnotin (e ▸ hk)
        have hnew' : ∀ k ∈ kinds, (found.add values kind).has k = false := by
          intro k hk
          rw [AnnotationValues.has_add (hother k hk)]
          exact hnew k (List.mem_cons_of_mem kind hk)
        rcases ih hkinds hnodup hnew' with ⟨k, hk, hnone, hfault⟩ | hrest
        · refine .inl ⟨k, List.mem_cons_of_mem kind hk, ?_, hfault⟩
          rw [annotationValues?_cons_ne hkind (hother k hk)]
          exact hnone
        · refine .inr (hrest.trans ?_)
          cases kind with
          | bootstrap =>
            rw [annotationValues?_cons hkind, annotationValues?_cons_ne hkind (by decide), hvalues, hfirst]
            rfl
          | updater =>
            rw [annotationValues?_cons hkind, annotationValues?_cons_ne hkind (by decide), hvalues, hfirst]
            rfl

end

/-! ## The class of a unit -/

namespace ParsedUnit

def values? (u : ParsedUnit) (kind : AnnotationKind) : Option FieldValues :=
  annotationValues? u.imports u.annotations kind

def isExcluded (u : ParsedUnit) : Bool :=
  (u.values? .bootstrap).any fun values => values.boolean "exclude"

def updaterName? (u : ParsedUnit) : Option String :=
  (u.values? .updater).map fun values => values.text "name"

def refusedName? (ns : Namespaces) (u : ParsedUnit) : Option (String × NameFault) :=
  u.updaterName?.bind fun name =>
    match validateName ns name with
    | .ok _ => none
    | .error fault => some (name, fault)

def classModel (u : ParsedUnit) (script : String) : ClassModel :=
  ⟨u.className, (u.values? .bootstrap).map .ofValues, (u.values? .updater).map .ofValues, script⟩

theorem isExcluded_classModel {u : ParsedUnit} (h : u.isExcluded = true) (script : String) :
    (u.classModel script).isExcluded = true := by
  obtain ⟨values, hvalues, hexclude⟩ := (Option.any_eq_true _ _).1 h
  unfold ClassModel.isExcluded ClassModel.bootstrap classModel
  rw [hvalues]
  exact hexclude

end ParsedUnit

/-- A unit whose annotations are of different kinds gives the class with their values, unless the
updater name is refused or the arguments of an annotation cannot be evaluated. -/
theorem ofUnit_spec {u : ParsedUnit} {kinds : List AnnotationKind}
    (hkinds : u.annotations.map (resolveKind u.imports ∘ AnnotationTerm.name) = kinds.map .ok)
    (hnodup : kinds.Nodup) (ns : Namespaces) (script : String) :
    (∃ kind ∈ kinds, u.values? kind = none ∧
      ∃ e, ClassModel.ofUnit ns u script = .error (.evaluation e)) ∨
    ClassModel.ofUnit ns u script = (u.refusedName? ns).elim (.ok (u.classModel script))
      fun refused => .error (.invalidName refused.1 refused.2) := by
  have hnew : ∀ kind ∈ kinds, AnnotationValues.has ⟨none, none⟩ kind = false := fun kind _ => by
    cases kind <;> rfl
  unfold ClassModel.ofUnit
  rcases foldlM_addValues hkinds hnodup hnew with ⟨kind, hkind, hnone, e, he⟩ | hfold
  · refine .inl ⟨kind, hkind, hnone, e, ?_⟩
    rw [he]
    rfl
  · refine .inr ?_
    rw [hfold, mapError_ok, ok_bind]
    unfold ParsedUnit.refusedName? ParsedUnit.updaterName? ParsedUnit.classModel ParsedUnit.values?
    simp only [Option.or_none]
    cases hvalues : annotationValues? u.imports u.annotations .updater with
    | none => rfl
    | some values =>
      have hname : (UpdaterInfo.ofValues values).name = values.text "name" := rfl
      simp only [Option.map_some, Option.bind_some, hname]
      cases validateName ns (values.text "name") <;> rfl

/-! ## Building -/

namespace Interpreter

theorem fst_build (i : Interpreter) (base source absolute : String) (key : SequenceKey)
    (content : Except FileFault String) :
    (i.build base source absolute key content).1 =
      match (i.interpretFile absolute content).1 with
      | .error e => .error e
      | .ok (.skipped _) => .ok none
      | .ok (.model m) => .ok (m.build? base source key) := by
  unfold build
  rcases i.interpretFile absolute content with ⟨e | (m | reason), i'⟩ <;> rfl

theorem build_history (i : Interpreter) (h : UnitHistory) (base source absolute : String) (key : SequenceKey)
    (content : Except FileFault String) :
    ∃ h', { i with history := h }.build base source absolute key content =
      ((i.build base source absolute key content).1, { i with history := h' }) := by
  obtain ⟨h', hinterpret⟩ := i.interpretFile_history h absolute content
  refine ⟨h', ?_⟩
  rw [fst_build]
  unfold build
  rw [hinterpret]
  rcases (i.interpretFile absolute content).1 with e | (m | reason) <;> rfl

/-- Building changes nothing of an interpreter but its history. -/
theorem build_eq (i : Interpreter) (base source absolute : String) (key : SequenceKey)
    (content : Except FileFault String) :
    ∃ h, i.build base source absolute key content =
      ((i.build base source absolute key content).1, { i with history := h }) :=
  i.build_history i.history base source absolute key content

end Interpreter

theorem ClassModel.build?_of_isExcluded {m : ClassModel} (h : m.isExcluded = true) (base source : String)
    (key : SequenceKey) : m.build? base source key = none := by
  have hnone : m.document? = none := by
    unfold document?
    rw [h, if_neg (by simp)]
  unfold build?
  rw [hnone]
  rfl

theorem bootstrapText_extract (source : String) (keepLineCount : Bool) :
    (extract source keepLineCount).bootstrapText =
      (firstOccurrence? .bootstrap source).map Occurrence.text := rfl

section
variable {i : Interpreter} {content : String} {u : ParsedUnit}
  (hunit : parseUnit (extract (normalizeLines content) i.keepLineCount).unit.render = .ok u)
  (hexcluded : u.isExcluded = true)
include hunit hexcluded

theorem bootstrap_mem_capturedKinds : .bootstrap ∈ capturedKinds (normalizeLines content) := by
  by_contra hnotin
  have hnone : u.values? .bootstrap = none :=
    annotationValues?_of_not_mem (resolveKind_annotations hunit) hnotin
  unfold ParsedUnit.isExcluded at hexcluded
  rw [hnone] at hexcluded
  cases hexcluded

theorem isAnnotated_of_isExcluded :
    (extract (normalizeLines content) i.keepLineCount).isAnnotated = true := by
  have hsome := (List.mem_filter.1 (bootstrap_mem_capturedKinds hunit hexcluded)).2
  unfold Excerpt.isAnnotated
  rw [bootstrapText_extract, Option.isSome_map, hsome]
  rfl

/-- What is built of a script that is excluded: nothing, unless its updater name is refused. -/
theorem build_of_isExcluded (base source absolute : String) (key : SequenceKey) :
    (i.build base source absolute key (.ok content)).1 = (u.refusedName? i.namespaces).elim (.ok none)
      fun refused => .error ⟨absolute, refused.1, refused.2⟩ := by
  have hnodup : (capturedKinds (normalizeLines content)).Nodup := .filter _ (by decide)
  rw [Interpreter.fst_build, Interpreter.interpretFile, Interpreter.fst_interpret,
    if_pos (isAnnotated_of_isExcluded hunit hexcluded), hunit, Interpreter.outcome]
  generalize (extract (normalizeLines content) i.keepLineCount).strippedBody = script
  rcases ofUnit_spec (resolveKind_annotations hunit) hnodup i.namespaces script
    with ⟨kind, -, hnone, e, he⟩ | hmodel
  · -- the annotation that cannot be evaluated is the updater, which then declares no name
    have hupdater : u.values? .updater = none := by
      cases kind with
      | updater => exact hnone
      | bootstrap =>
        unfold ParsedUnit.isExcluded at hexcluded
        rw [hnone] at hexcluded
        cases hexcluded
    unfold ParsedUnit.refusedName? ParsedUnit.updaterName?
    rw [he, hupdater]
    rfl
  · rw [hmodel]
    cases u.refusedName? i.namespaces with
    | some refused => rfl
    | none =>
      have hclass := ParsedUnit.isExcluded_classModel hexcluded script
      exact congrArg Except.ok (ClassModel.build?_of_isExcluded hclass base source key)

end

/-! ## Running -/

/-- Two states of a generation that differ in nothing but what has been interpreted so far. -/
def Generation.SameOutput (g g' : Generation) : Prop :=
  ∃ history processed, g' = { g with interpreter := { g.interpreter with history }, processed }

namespace Generation

theorem SameOutput.emit {g g' : Generation} (h : g.SameOutput g') (o : GenerateOptions) (b : BuiltScript) :
    (g'.emit o b).1 = (g.emit o b).1 ∧ (g.emit o b).2.SameOutput (g'.emit o b).2 := by
  obtain ⟨history, processed, rfl⟩ := h
  unfold Generation.emit
  dsimp only
  split
  · exact ⟨rfl, history, processed, rfl⟩
  · refine ⟨rfl, history, processed, ?_⟩
    unfold addReload
    split <;> rfl

/-- One script is processed in the same way in two such states. -/
theorem SameOutput.processScript {g g' : Generation} (h : g.SameOutput g') (o : GenerateOptions)
    (s : FoundScript) :
    (g'.processScript o s).1 = (g.processScript o s).1 ∧
      (g.processScript o s).2.SameOutput (g'.processScript o s).2 := by
  obtain ⟨history, processed, rfl⟩ := h
  obtain ⟨h', hbuild'⟩ := g.interpreter.build_history history o.sourceDir s.path (g.tree.absolutePath s.path)
    o.actionKey (g.tree.readAt s.location)
  obtain ⟨h, hbuild⟩ := g.interpreter.build_eq o.sourceDir s.path (g.tree.absolutePath s.path) o.actionKey
    (g.tree.readAt s.location)
  unfold Generation.processScript
  dsimp only
  rw [hbuild', hbuild]
  rcases (g.interpreter.build o.sourceDir s.path (g.tree.absolutePath s.path) o.actionKey
    (g.tree.readAt s.location)).1 with e | (_ | built)
  · exact ⟨rfl, h', processed ++ [s.path], rfl⟩
  · exact ⟨rfl, h', processed ++ [s.path], rfl⟩
  · apply SameOutput.emit
    exact ⟨h', processed ++ [s.path], rfl⟩

/-- So is a list of scripts. -/
theorem SameOutput.processScripts {o : GenerateOptions} {ss : List FoundScript} {g g' : Generation}
    (h : g.SameOutput g') : (g'.processScripts o ss).1 = (g.processScripts o ss).1 ∧
      (g.processScripts o ss).2.SameOutput (g'.processScripts o ss).2 := by
  induction ss generalizing g g' with
  | nil => exact ⟨rfl, h⟩
  | cons s ss ih =>
    obtain ⟨hresult, hafter⟩ := h.processScript o s
    rw [Generation.processScripts, Generation.processScripts]
    rcases hs : g.processScript o s with ⟨fault | ⟨⟩, m⟩
    all_goals
      rcases hs' : g'.processScript o s with ⟨result, m'⟩
      rw [hs, hs'] at hresult hafter
      dsimp only at hresult hafter
      subst hresult
    · exact ⟨rfl, hafter⟩
    · exact ih hafter

end Generation

section
variable {g : Generation} {o : GenerateOptions} {s : FoundScript} {content : String} {u : ParsedUnit}
  (hread : g.tree.readAt s.location = .ok content)
  (hunit : parseUnit (extract (normalizeLines content) g.interpreter.keepLineCount).unit.render = .ok u)
  (hexcluded : u.isExcluded = true)
include hread hunit hexcluded

theorem processScript_of_isExcluded : ∃ g', g.SameOutput g' ∧
    g.processScript o s = ((u.refusedName? g.interpreter.namespaces).elim (.ok ())
      fun refused => .error (.updaterName ⟨g.tree.absolutePath s.path, refused.1, refused.2⟩), g') := by
  have hresult :=
    build_of_isExcluded hunit hexcluded o.sourceDir s.path (g.tree.absolutePath s.path) o.actionKey
  obtain ⟨h, hbuild⟩ := g.interpreter.build_eq o.sourceDir s.path (g.tree.absolutePath s.path) o.actionKey
    (g.tree.readAt s.location)
  refine ⟨{ g with interpreter := { g.interpreter with history := h }, processed := g.processed ++ [s.path] },
    ⟨_, _, rfl⟩, ?_⟩
  unfold Generation.processScript
  dsimp only
  rw [hbuild, hread, hresult]
  cases u.refusedName? g.interpreter.namespaces <;> rfl

end

/-- A script whose unit is excluded builds nothing exactly if its updater annotation declares no
name that is refused. A run then goes on with the other scripts as without it, and no document and
no entry comes of it. A name that is refused stops the run all the same. -/
theorem build_excluded_iff {i : Interpreter} {content : String} {u : ParsedUnit}
    (hunit : parseUnit (extract (normalizeLines content) i.keepLineCount).unit.render = .ok u)
    (hexcluded : u.isExcluded = true) :
    (∀ base source absolute key,
      ((i.build base source absolute key (.ok content)).1 = .ok none ↔ u.refusedName? i.namespaces = none) ∧
      ∀ name fault, u.refusedName? i.namespaces = some (name, fault) →
        (i.build base source absolute key (.ok content)).1 = .error ⟨absolute, name, fault⟩) ∧
    ∀ (o : GenerateOptions) (g : Generation) (s : FoundScript) (ss : List FoundScript), g.interpreter = i →
      g.tree.readAt s.location = .ok content →
      (u.refusedName? i.namespaces = none →
        (g.processScripts o (s :: ss)).1 = (g.processScripts o ss).1 ∧
        (g.processScripts o ss).2.SameOutput (g.processScripts o (s :: ss)).2) ∧
      ∀ name fault, u.refusedName? i.namespaces = some (name, fault) →
        (g.processScripts o (s :: ss)).1 = .error (.updaterName ⟨g.tree.absolutePath s.path, name, fault⟩) ∧
        g.SameOutput (g.processScripts o (s :: ss)).2 := by
  refine ⟨fun base source absolute key => ?_, fun o g s ss hinterpreter hread => ?_⟩
  · rw [build_of_isExcluded hunit hexcluded]
    cases u.refusedName? i.namespaces with
    | none => exact ⟨⟨fun _ => rfl, fun _ => rfl⟩, nofun⟩
    | some refused => exact ⟨⟨nofun, nofun⟩, fun name fault h => by rw [Option.some.inj h]; rfl⟩
  · subst hinterpreter
    obtain ⟨g', hsame, hstep⟩ := processScript_of_isExcluded (o := o) hread hunit hexcluded
    rw [Generation.processScripts, hstep]
    cases u.refusedName? g.interpreter.namespaces with
    | none => exact ⟨fun _ => hsame.processScripts, nofun⟩
    | some refused =>
      refine ⟨nofun, fun name fault h => ?_⟩
      rw [Option.some.inj h]
      exact ⟨rfl, hsame⟩

/-! ## Two scripts that are excluded -/

def excludedScript (name : String) : String :=
  "@Bootstrap(exclude=true)@Updater(name='" ++ name ++ "')class A\x7b\x7d"

def excludedUnit (name : String) : ParsedUnit :=
  ⟨none, bothImports, [⟨"Bootstrap", [("exclude", .boolean true)], 3⟩,
    ⟨"Updater", [("name", .text name)], 4⟩], "A", 5⟩

theorem parseUnit_excludedScript {name : String} (h : (tokens
    (extract (normalizeLines (excludedScript name)) false).unit.render).toOption =
      some (importTokens 1 .bootstrap ++ (importTokens 2 .updater ++
        [⟨.symbol '@', 3⟩, ⟨.word "Bootstrap", 3⟩, ⟨.symbol '(', 3⟩, ⟨.word "exclude", 3⟩,
          ⟨.symbol '=', 3⟩, ⟨.word "true", 3⟩, ⟨.symbol ')', 3⟩,
          ⟨.symbol '@', 4⟩, ⟨.word "Updater", 4⟩, ⟨.symbol '(', 4⟩, ⟨.word "name", 4⟩,
          ⟨.symbol '=', 4⟩, ⟨.text name, 4⟩, ⟨.symbol ')', 4⟩,
          ⟨.word "class", 5⟩, ⟨.word "A", 5⟩, ⟨.symbol '\x7b', 5⟩, ⟨.symbol '\x7d', 5⟩, ⟨.finish, 5⟩]))) :
    parseUnit (extract (normalizeLines (excludedScript name)) false).unit.render =
      .ok (excludedUnit name) := by
  rw [parseUnit, eq_ok_of_toOption h]
  rfl

theorem build_excluded_accepted :
    parseUnit (extract (normalizeLines (excludedScript "A")) false).unit.render = .ok (excludedUnit "A") ∧
    (excludedUnit "A").isExcluded = true ∧
    ((Interpreter.new false).build "src" "src/A.groovy" "/src/A.groovy" .default
      (.ok (excludedScript "A"))).1 = .ok none := by
  have hunit : parseUnit (extract (normalizeLines (excludedScript "A")) false).unit.render =
      .ok (excludedUnit "A") :=
    parseUnit_excludedScript (by decide +kernel)
  have hexcluded : (excludedUnit "A").isExcluded = true := by decide +kernel
  obtain ⟨hbuild, -⟩ := build_excluded_iff (i := .new false) hunit hexcluded
  exact ⟨hunit, hexcluded, (hbuild _ _ _ _).1.2 (by decide +kernel)⟩

/-- A script that is excluded stops a run if its updater name is refused. -/
theorem build_excluded_refused :
    parseUnit (extract (normalizeLines (excludedScript "a//b")) false).unit.render =
      .ok (excludedUnit "a//b") ∧
    (excludedUnit "a//b").isExcluded = true ∧
    ((Interpreter.new false).build "src" "src/A.groovy" "/src/A.groovy" .default
      (.ok (excludedScript "a//b"))).1 =
      .error ⟨"/src/A.groovy", "a//b", .emptySegment 1⟩ ∧
    (generate sampleOptions
      (((FileTree.bare []).put ["src"] .directory).put ["src", "A.groovy"]
        (.file (excludedScript "a//b").toUTF8))).1 =
      .error (.updaterName ⟨"/src/A.groovy", "a//b", .emptySegment 1⟩) := by
  have hunit : parseUnit (extract (normalizeLines (excludedScript "a//b")) false).unit.render =
      .ok (excludedUnit "a//b") := parseUnit_excludedScript (by decide +kernel)
  have hexcluded : (excludedUnit "a//b").isExcluded = true := by decide +kernel
  have hrefused : (excludedUnit "a//b").refusedName? (Interpreter.new false).namespaces =
      some ("a//b", .emptySegment 1) := by
    decide +kernel
  have hbuild :=
    build_of_isExcluded (i := .new false) hunit hexcluded "src" "src/A.groovy" "/src/A.groovy" .default
  rw [hrefused] at hbuild
  exact ⟨hunit, hexcluded, hbuild, eq_error_of_failedName? (by decide +kernel)⟩

end UpdaterBootstrap
