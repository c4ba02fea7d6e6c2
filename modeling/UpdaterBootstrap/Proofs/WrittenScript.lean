import UpdaterBootstrap.Proofs.ScriptText
import UpdaterBootstrap.Proofs.WrittenUnit
import UpdaterBootstrap.Updater.Interpretation

/-!
# Written scripts

A script that is written for given values is interpreted as a class with those values: they get
through the normalization of lines, the scan, the stripping, the tokenizer, the parser and the schema
as they are.
-/

namespace UpdaterBootstrap

/-! ## The unit of the script -/

namespace WrittenArguments

def annotation (kind : AnnotationKind) (as : WrittenArguments) : WrittenAnnotation :=
  ⟨kind.simpleName, some as.fields⟩

def term (line : Nat) (kind : AnnotationKind) (as : WrittenArguments) : AnnotationTerm :=
  (as.annotation kind).term line

theorem IsWritable.annotation {as : WrittenArguments} (has : as.IsWritable) (kind : AnnotationKind) :
    (as.annotation kind).IsWritable := by
  refine ⟨⟨_, [], rfl, List.forall_mem_singleton.2 kind.isWord_simpleName⟩, ?_⟩
  intro fields hfields
  obtain rfl : as.fields = fields := Option.some.inj hfields
  exact has.fields

theorem write_annotation (style : QuoteStyle) (kind : AnnotationKind) (as : WrittenArguments) :
    (as.annotation kind).write style = annotationChars style kind as := by
  rw [annotationChars, argumentText, writeArguments_eq]
  rfl

def unit (b u : WrittenArguments) (name : String) : WrittenUnit :=
  ⟨none, bothImports, [b.annotation .bootstrap, u.annotation .updater], name⟩

theorem isWritable_unit {b u : WrittenArguments} (hb : b.IsWritable) (hu : u.IsWritable) {name : String}
    (hname : isWord name.toList = true) : (unit b u name).IsWritable := by
  refine ⟨nofun, isWritable_bothImports, ?_, hname⟩
  exact List.forall_mem_cons.2 ⟨hb.annotation _, List.forall_mem_singleton.2 (hu.annotation _)⟩

end WrittenArguments

theorem firstText?_annotationChars (style : QuoteStyle) (kind : AnnotationKind) (as : WrittenArguments)
    (offset : Nat) (os : List Occurrence) :
    firstText? kind (⟨kind.simpleName, .ofList (argumentText style as), offset⟩ :: os) =
      some (.ofList (annotationChars style kind as)) := by
  have hname : AnnotationKind.ofName? kind.simpleName = some kind := by cases kind <;> decide +kernel
  simp [firstText?, hname, Occurrence.text, String.ext_iff, annotationChars]

section
variable {style : QuoteStyle} (hq : isQuote style.quote = true) {b u : WrittenArguments} (hb : b.IsWritable)
  (hu : u.IsWritable) {name : String} (hname : isWord name.toList = true)
include hq hb hu hname

theorem toList_render_scriptChars (keepLineCount : Bool) : ∃ start,
    (extract (.ofList (scriptChars style b u name)) keepLineCount).unit.render.toList =
      AnnotationKind.bootstrap.importStatement.toList ++ ['\n'] ++
        (AnnotationKind.updater.importStatement.toList ++ ['\n'] ++
          (annotationChars style .bootstrap b ++ ['\n'] ++
            (annotationChars style .updater u ++ ['\n'] ++
              (ClassHeader.text ⟨start, " ", name⟩ ++ " \x7b\x7d").toList))) := by
  obtain ⟨offset, hfound⟩ := findAnnotations_scriptChars hq hb hu hname
  obtain ⟨start, hheader⟩ := findClassHeader_classChars hname keepLineCount
  have hstripped : stripAnnotations (.ofList (scriptChars style b u name)) keepLineCount =
      .ofList ((if keepLineCount then ['\n', '\n'] else []) ++ classChars name) := by
    rw [stripAnnotations, String.toList_ofList, stripChars_scriptChars hq hb hu hname]
  have hbody : bareDeclaration (stripAnnotations (.ofList (scriptChars style b u name)) keepLineCount) =
      ClassHeader.text ⟨start, " ", name⟩ ++ " \x7b\x7d" := by
    rw [bareDeclaration, hstripped, hheader]
  have hbootstrap (os : List Occurrence) :
      firstText? .bootstrap (⟨"Bootstrap", .ofList (argumentText style b), 0⟩ :: os) =
      some (.ofList (annotationChars style .bootstrap b)) :=
    firstText?_annotationChars style .bootstrap b 0 os
  have hupdater : firstText? .updater [⟨"Bootstrap", .ofList (argumentText style b), 0⟩,
      ⟨"Updater", .ofList (argumentText style u), offset⟩] =
        some (.ofList (annotationChars style .updater u)) :=
    firstText?_annotationChars style .updater u offset []
  refine ⟨start, ?_⟩
  simp only [extract, hfound, hbootstrap, hupdater, hbody]
  simp [UnitText.render, AnnotationKind.all]

theorem parseUnit_scriptChars (_ : b ≠ []) (_ : u ≠ []) (keepLineCount : Bool) : ∃ line,
    parseUnit (extract (.ofList (scriptChars style b u name)) keepLineCount).unit.render =
      .ok ⟨none, bothImports, [b.term 3 .bootstrap, u.term 4 .updater], name, line⟩ := by
  obtain ⟨start, htext⟩ := toList_render_scriptChars hq hb hu hname keepLineCount
  have hwrite : (extract (.ofList (scriptChars style b u name)) keepLineCount).unit.render =
      .ofList ((WrittenArguments.unit b u name).write style ++ []) := by
    rw [String.ext_iff, htext, String.toList_ofList]
    simp [WrittenArguments.unit, WrittenUnit.write, writeLines, bothImports, AnnotationKind.all,
      WrittenArguments.write_annotation, WrittenUnit.writeClass, ClassHeader.text, importStatement_write,
      AnnotationKind.imported]
  refine ⟨5, ?_⟩
  rw [hwrite]
  exact WrittenUnit.parseUnit_write hq (WrittenArguments.isWritable_unit hb hu hname) (List.forall_mem_nil _)

end

/-! ## The values of the script -/

theorem evaluate_bootstrapArguments (b : BootstrapInfo) (hsequence : b.sequence = 99999.0) (line : Nat) :
    ∃ values, AnnotationKind.evaluate .bootstrap (b.arguments.term line .bootstrap).arguments = .ok values ∧
      BootstrapInfo.ofValues values = b := by
  obtain ⟨contentRoot, reload, sequence, version, exclude⟩ := b
  obtain rfl : sequence = 99999.0 := hsequence
  refine ⟨_, rfl, ?_⟩
  cases contentRoot <;> rfl

theorem evaluate_updaterArguments (u : UpdaterInfo) (line : Nat) :
    ∃ values, AnnotationKind.evaluate .updater (u.arguments.term line .updater).arguments = .ok values ∧
      UpdaterInfo.ofValues values = u :=
  ⟨_, rfl, rfl⟩

theorem resolveKind_term (as : WrittenArguments) (line : Nat) (kind : AnnotationKind) :
    resolveKind bothImports (as.term line kind).name = .ok kind := by
  have hkind : AnnotationKind.ofName? kind.simpleName = some kind := by cases kind <;> decide
  exact resolveKind_bothImports hkind

theorem ofUnit_arguments {b : BootstrapInfo} {u : UpdaterInfo} {ns : Namespaces}
    (hsequence : b.sequence = 99999.0)
    (hvalid : ∃ path, validateName ns u.name = .ok path) (name : String) (line : Nat) (script : String) :
    ClassModel.ofUnit ns ⟨none, bothImports,
      [b.arguments.term 3 .bootstrap, u.arguments.term 4 .updater], name, line⟩
      script = .ok ⟨name, some b, some u, script⟩ := by
  obtain ⟨bootstrapValues, hbootstrap, hb⟩ := evaluate_bootstrapArguments b hsequence 3
  obtain ⟨updaterValues, hupdater, hu⟩ := evaluate_updaterArguments u 4
  obtain ⟨path, hpath⟩ := hvalid
  have hfirst : addValues bothImports ⟨none, none⟩ (b.arguments.term 3 .bootstrap) =
      .ok ⟨some b, none⟩ := by
    rw [addValues_eq (resolveKind_term _ _ _) rfl, hbootstrap, ← hb]
    rfl
  have hsecond : addValues bothImports ⟨some b, none⟩ (u.arguments.term 4 .updater) =
      .ok ⟨some b, some u⟩ := by
    rw [addValues_eq (resolveKind_term _ _ _) rfl, hupdater, ← hu]
    rfl
  have hfold : [b.arguments.term 3 .bootstrap, u.arguments.term 4 .updater].foldlM
    (addValues bothImports) ⟨none, none⟩ =
      .ok ⟨some b, some u⟩ := by
    rw [List.foldlM_cons, hfirst, ok_bind, List.foldlM_cons, hsecond]
    rfl
  simp only [ClassModel.ofUnit, hfold, hpath, mapError_ok, ok_bind]
  rfl

/-- A script written for an updater with a valid name gives a class with the values it was written
for, whatever has been interpreted before. -/
theorem interpretFile_writeScript (i : Interpreter) (path : String) {style : QuoteStyle} {b : BootstrapInfo}
    {u : UpdaterInfo} {name : String} (hq : isQuote style.quote = true) (hsequence : b.sequence = 99999.0)
    (hbatch : Int64.minValue < u.batchSize) (hthrottle : Int64.minValue < u.throttle)
    (hvalid : ∃ segments, validateName i.namespaces u.name = .ok segments)
    (hname : isWord name.toList = true) :
    ∃ m, (i.interpretFile path (.ok (writeScript style b u name))).1 = .ok (.model m) ∧
      m.className = name ∧ m.bootstrap? = some b ∧ m.updater? = some u := by
  have hb := b.isWritable_arguments
  have hu := UpdaterInfo.isWritable_arguments hbatch hthrottle
  obtain ⟨offset, hfound⟩ := findAnnotations_scriptChars hq hb hu hname
  obtain ⟨line, hunit⟩ := parseUnit_scriptChars hq hb hu hname (by simp [BootstrapInfo.arguments])
    (by simp [UpdaterInfo.arguments]) i.keepLineCount
  have hannotated : (extract (writeScript style b u name) i.keepLineCount).isAnnotated = true := by
    rw [Excerpt.isAnnotated, extract, writeScript, hfound]
    rfl
  have hmodel := ofUnit_arguments hsequence hvalid name line
    (extract (writeScript style b u name) i.keepLineCount).strippedBody
  refine ⟨⟨name, some b, some u, (extract (writeScript style b u name) i.keepLineCount).strippedBody⟩,
    ?_, rfl, rfl, rfl⟩
  rw [Interpreter.interpretFile, Interpreter.interpret, writeScript,
    normalizeLines_scriptChars hq hb hu hname, ← writeScript, Interpreter.interpretText]
  dsimp only
  rw [hannotated, UnitHistory.parse, writeScript, hunit, ← writeScript]
  simp only [Bool.not_true, Bool.false_eq_true, if_false, Interpreter.outcome, hmodel]

theorem interpretFile_writeScript_dollar :
    ∃ m, ((Interpreter.new true).interpretFile "/scripts/Fix.groovy"
        (.ok (writeScript ⟨'"', false⟩ ⟨.registry, true, 99999.0, "1.0", false⟩
          ⟨"fix/titles", "@Updater(\"\")\n$x", "/content", "", "", 10, -5, true⟩ "Fix"))).1 = .ok (.model m) ∧
      m.className = "Fix" ∧ m.bootstrap? = some ⟨.registry, true, 99999.0, "1.0", false⟩ ∧
      m.updater? = some ⟨"fix/titles", "@Updater(\"\")\n$x", "/content", "", "", 10, -5, true⟩ :=
  interpretFile_writeScript _ _ (by decide) rfl (by decide) (by decide)
    ⟨[⟨none, "fix", some ""⟩, ⟨none, "titles", some ""⟩], eq_ok_of_toOption (by decide +kernel)⟩
      (by decide)

end UpdaterBootstrap
