import Mathlib.Data.List.TakeWhile
import UpdaterBootstrap.Proofs.Borders
import UpdaterBootstrap.Proofs.StoredScript
import UpdaterBootstrap.Proofs.UnitText

/-!
# What is left out of a document

A document holds the values of its class in a fixed order. Left out are a dry run that is off and
the optional texts that are blank; the script is never blank, as the class it declares outlasts
stripping and collapsing (`properties_of_interpretation`).
-/

namespace UpdaterBootstrap

/-! ## Blank texts -/

theorem trim_eq_nil_iff {cs : List Char} : trim cs = [] ↔ cs.all isBlank = true := by
  rw [trim, trimEnd, trimStart, List.reverse_eq_nil_iff, List.dropWhile_eq_nil_iff, List.all_eq_true]
  simp only [List.mem_reverse]
  constructor
  · intro h c hc
    rw [← List.takeWhile_append_dropWhile (p := isBlank) (l := cs), List.mem_append] at hc
    rcases hc with hc | hc
    · exact List.all_eq_true.1 List.all_takeWhile c hc
    · exact h c hc
  · intro h c hc
    exact h c ((List.dropWhile_suffix isBlank).subset hc)

theorem Property.isEmpty_text (s : String) : (Property.text s).isEmpty = (trim s.toList).isEmpty := by
  rw [Bool.eq_iff_iff, List.isEmpty_iff, trim_eq_nil_iff]
  rfl

/-! ## A declared class outlasts collapsing -/

theorem mem_of_classHeaderFrom {offset : Nat} {inWord : Bool} {ms : List Marked}
    (hfound : (classHeaderFrom offset inWord ms).isSome = true) : 'c' ∈ ms.map Prod.fst := by
  induction ms generalizing offset inWord with
  | nil => cases hfound
  | cons m ms ih =>
    obtain ⟨c, code⟩ := m
    rw [List.map_cons, List.mem_cons]
    by_cases hc : 'c' = c
    · exact .inl hc
    · rw [classHeaderFrom_cons, beq_false_of_ne (Ne.symm hc)] at hfound
      exact .inr (ih (by simpa using hfound))

theorem mem_of_findClassHeader {source : String} (hfound : (findClassHeader source).isSome = true) :
    'c' ∈ source.toList := by
  have hmem := mem_of_classHeaderFrom hfound
  rwa [map_fst_marked] at hmem

theorem mem_collapseBlankLines {c : Char} (hc : isLineBlank c = false) (source : String) :
    c ∈ (collapseBlankLines source).toList ↔ c ∈ source.toList := by
  have hkept (cs : List Char) : c ∈ cs.filter (fun c => !isLineBlank c) ↔ c ∈ cs := by simp [hc]
  rw [collapseBlankLines, String.toList_ofList, ← hkept, filter_collapseFrom, hkept, List.drop_zero]

theorem scriptContent_not_blank {i : Interpreter} {path content : String} {m : ClassModel}
    (h : (i.interpret path content).1 = .ok (.model m)) : trim m.scriptContent.toList ≠ [] := by
  obtain ⟨u, hu, -⟩ := Interpreter.exists_unit_of_model h
  have hclass := (parseUnit_parts hu).2.2.2
  have hmem : 'c' ∈ m.scriptContent.toList := by
    rw [ClassModel.scriptContent, mem_collapseBlankLines (by decide), Interpreter.script_of_model h]
    apply mem_of_findClassHeader
    rw [← Option.isSome_map, hclass, Option.isSome_some]
  intro hblank
  have hc : isBlank 'c' = true := List.all_eq_true.1 (trim_eq_nil_iff.1 hblank) 'c' hmem
  revert hc
  decide

/-! ## Properties of a class -/

namespace ClassModel

def fields (m : ClassModel) : List (String × Property) :=
  [("jcr:primaryType", .text "hipposys:updaterinfo"),
    ("hipposys:batchsize", .integer m.updater.batchSize),
    ("hipposys:description", .text m.updater.description),
    ("hipposys:dryrun", .boolean m.updater.dryRun),
    ("hipposys:parameters", .text m.updater.parameters),
    ("hipposys:path", .text m.updater.path),
    ("hipposys:query", .text m.updater.xpath),
    ("hipposys:script", .text m.scriptContent),
    ("hipposys:throttle", .integer m.updater.throttle)]

def optionalNames : List String :=
  ["hipposys:description", "hipposys:parameters", "hipposys:path", "hipposys:query"]

/-- A dry run that is off, or an optional text that is blank. -/
def isLeftOut : String × Property → Bool
  | (_, .boolean b) => !b
  | (name, .text s) => optionalNames.contains name && (trim s.toList).isEmpty
  | _ => false

def writtenFields (m : ClassModel) : List (String × Property) :=
  m.fields.filter fun p => !isLeftOut p

theorem nodup_writtenFields (m : ClassModel) : (m.writtenFields.map Prod.fst).Nodup := by
  have hnames : (m.fields.map Prod.fst).Nodup := by simp [fields]
  exact (List.filter_sublist.map _).nodup hnames

theorem not_blank_of_mem_writtenFields {m : ClassModel} (hscript : trim m.scriptContent.toList ≠ [])
    {name s : String} (h : (name, .text s) ∈ m.writtenFields) : trim s.toList ≠ [] := by
  obtain ⟨hfield, hkept⟩ := List.mem_filter.1 h
  by_cases hoptional : name ∈ optionalNames
  · simpa [isLeftOut, hoptional] using hkept
  · simp only [optionalNames, List.mem_cons, List.not_mem_nil, not_or] at hoptional
    have hrequired : name = "jcr:primaryType" ∧ s = "hipposys:updaterinfo" ∨
        name = "hipposys:script" ∧ s = m.scriptContent := by
      simpa [fields, hoptional] using hfield
    rcases hrequired with ⟨-, rfl⟩ | ⟨-, rfl⟩
    · decide
    · exact hscript

theorem insertNonEmpty_text {name : String} (h : name ∈ optionalNames) (d : Document) (s : String) :
    d.insertNonEmpty name (.text s) = if !isLeftOut (name, .text s) then d.insert name (.text s) else d := by
  have hleftOut : isLeftOut (name, .text s) = (trim s.toList).isEmpty := by simp [isLeftOut, h]
  rw [Document.insertNonEmpty, Property.isEmpty_text, hleftOut]
  cases (trim s.toList).isEmpty <;> rfl

theorem insert_dryRun (d : Document) (name : String) (b : Bool) :
    (if b then d.insert name (.boolean true) else d) =
      if !isLeftOut (name, .boolean b) then d.insert name (.boolean b) else d := by
  cases b <;> rfl

theorem writtenDocument_eq (m : ClassModel) :
    m.writtenDocument = (Document.empty m.nodePath).insertAll m.writtenFields := by
  unfold writtenFields Document.insertAll
  rw [List.foldl_filter]
  unfold writtenDocument
  dsimp only
  rw [insert_dryRun]
  repeat rw [insertNonEmpty_text (by simp [optionalNames])]
  rfl

theorem properties_writtenDocument (m : ClassModel) : m.writtenDocument.properties = m.writtenFields := by
  rw [writtenDocument_eq]
  exact Document.properties_insertAll m.nodup_writtenFields

theorem nodePath_writtenDocument (m : ClassModel) : m.writtenDocument.nodePath = m.nodePath := by
  rw [writtenDocument_eq, Document.nodePath_insertAll]
  rfl

theorem validateName_of_ofUnit {ns : Namespaces} {unit : ParsedUnit} {script : String} {m : ClassModel}
    (h : ofUnit ns unit script = .ok m) (hvalid : m.isValid = true) :
    ∃ segments, validateName ns m.updater.name = .ok segments := by
  obtain ⟨found, _, hend⟩ := bind_eq_ok.1 h
  dsimp only at hend
  split at hend
  · rename_i info hinfo
    obtain ⟨_, hcheck, hend⟩ := bind_eq_ok.1 hend
    obtain rfl := pure_eq_ok.1 hend
    obtain ⟨segments, hsegments, -⟩ := map_eq_ok.1 hcheck
    refine ⟨segments, ?_⟩
    rw [updater, hinfo]
    exact mapError_eq_ok.1 hsegments
  · rename_i hnone
    obtain rfl := pure_eq_ok.1 hend
    simp [isValid, hnone] at hvalid

end ClassModel

/-! ## In the document -/

/-- The document of a script holds the values of its class that are not left out, in order, each
under a name of its own. None of its texts is blank, and its node has a name that is a valid path.
-/
theorem properties_of_interpretation {i : Interpreter} {path content : String} {m : ClassModel} {d : Document}
    (hmodel : (i.interpret path content).1 = .ok (.model m)) (hdocument : m.document? = some d) :
    d.properties = (m.fields.filter fun p => !ClassModel.isLeftOut p) ∧ d.names.Nodup ∧
    (∀ name s, (name, .text s) ∈ d.properties → trim s.toList ≠ []) ∧
    d.nodePath = updatePathPrefix ++ m.bootstrap.contentRoot.name ++ "/" ++ m.updater.name ∧
    ∃ segments, validateName i.namespaces m.updater.name = .ok segments := by
  obtain ⟨⟨hvalid, -⟩, rfl⟩ := ClassModel.document?_eq_some.1 hdocument
  obtain ⟨u, -, hm⟩ := Interpreter.exists_unit_of_model hmodel
  have hproperties := m.properties_writtenDocument
  refine ⟨hproperties, ?_, ?_, m.nodePath_writtenDocument, ClassModel.validateName_of_ofUnit hm hvalid⟩
  · rw [Document.names, hproperties]
    exact m.nodup_writtenFields
  · intro name s hmem
    rw [hproperties] at hmem
    exact ClassModel.not_blank_of_mem_writtenFields (scriptContent_not_blank hmodel) hmem

/-- The description is blank, and so are the parameters and the query, which are not declared. -/
theorem properties_of_interpretation_sparse :
    ∃ m d, ((Interpreter.new false).interpret "/A"
        "@Updater(name='A',description=' ',path='/a',dryRun=true)class A\x7b\x7d").1 =
          .ok (.model m) ∧
      m.document? = some d ∧ d.nodePath = "/hippo:configuration/hippo:update/hippo:queue/A" ∧
      d.names = ["jcr:primaryType", "hipposys:batchsize", "hipposys:dryrun", "hipposys:path",
      "hipposys:script",
        "hipposys:throttle"] := by
  have hclass : (classOf? ((Interpreter.new false).interpret "/A"
        "@Updater(name='A',description=' ',path='/a',dryRun=true)class A\x7b\x7d").1).map
      (fun m => (m.isValid, m.isExcluded, m.nodePath, m.writtenFields.map Prod.fst)) =
        some (true, false, "/hippo:configuration/hippo:update/hippo:queue/A",
          ["jcr:primaryType", "hipposys:batchsize", "hipposys:dryrun", "hipposys:path",
            "hipposys:script", "hipposys:throttle"]) := by
    decide +kernel
  obtain ⟨m, hm, hfacts⟩ := Option.map_eq_some_iff.1 hclass
  simp only [Prod.mk.injEq] at hfacts
  obtain ⟨hvalid, hincluded, hpath, hnames⟩ := hfacts
  have hmodel := eq_model_of_classOf? hm
  have hdocument := ClassModel.document?_eq_some.2 ⟨⟨hvalid, hincluded⟩, rfl⟩
  obtain ⟨hproperties, -, -, hnode, -⟩ := properties_of_interpretation hmodel hdocument
  refine ⟨m, _, hmodel, hdocument, hnode.trans hpath, ?_⟩
  rw [Document.names, hproperties]
  exact hnames

end UpdaterBootstrap
