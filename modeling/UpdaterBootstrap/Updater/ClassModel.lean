import UpdaterBootstrap.Annotation.Field
import UpdaterBootstrap.Unit.Parser
import UpdaterBootstrap.Updater.Name

/-!
# The class of a script

A script class pairs the values of its two annotations with the stripped script.
-/

namespace UpdaterBootstrap

inductive ContentRoot
  | queue
  | registry
  deriving DecidableEq, Repr

namespace ContentRoot

def name : ContentRoot → String
  | queue => "queue"
  | registry => "registry"

def ofDeclared (value : String) : ContentRoot :=
  if value == "registry" then registry else queue

end ContentRoot

structure BootstrapInfo where
  contentRoot : ContentRoot
  reload : Bool
  sequence : Float
  version : String
  exclude : Bool
  deriving DecidableEq, Repr

namespace BootstrapInfo

def absent : BootstrapInfo :=
  ⟨.queue, false, 99999.0, "", false⟩

def ofValues (values : FieldValues) : BootstrapInfo :=
  { contentRoot := .ofDeclared (values.text "contentroot")
    reload := values.boolean "reload"
    sequence := values.decimal "sequence"
    version := values.text "version"
    exclude := values.boolean "exclude" }

end BootstrapInfo

structure UpdaterInfo where
  name : String
  description : String
  path : String
  xpath : String
  parameters : String
  batchSize : Int64
  throttle : Int64
  dryRun : Bool
  deriving DecidableEq, Repr

namespace UpdaterInfo

def absent : UpdaterInfo :=
  ⟨"", "", "", "", "", 10, 1000, false⟩

def ofValues (values : FieldValues) : UpdaterInfo :=
  { name := values.text "name"
    description := values.text "description"
    path := values.text "path"
    xpath := values.text "xpath"
    parameters := values.text "parameters"
    batchSize := values.integer "batchSize"
    throttle := values.integer "throttle"
    dryRun := values.boolean "dryRun" }

end UpdaterInfo

structure ClassModel where
  className : String
  bootstrap? : Option BootstrapInfo
  updater? : Option UpdaterInfo
  /-- The script without its recognized annotations. -/
  script : String
  deriving DecidableEq, Repr

namespace ClassModel

/-- The bootstrap values, those of an absent annotation if there is none. -/
def bootstrap (m : ClassModel) : BootstrapInfo :=
  m.bootstrap?.getD .absent

def updater (m : ClassModel) : UpdaterInfo :=
  m.updater?.getD .absent

/-- A usable class has an updater with a name. -/
def isValid (m : ClassModel) : Bool :=
  m.updater?.any fun u => !u.name.isEmpty

def isExcluded (m : ClassModel) : Bool :=
  m.bootstrap.exclude

end ClassModel

/-! ## From a unit -/

/-- The kind an annotation name stands for, given the imports of its unit. A simple name means the
first import that makes it visible, or else the first imported package that declares it. -/
def resolveKind (imports : List Import) (name : String) : Except EvaluationFault AnnotationKind :=
  let found :=
    if name.toList.contains '.' then AnnotationKind.ofQualifiedName? name
    else match imports.find? fun i => i.visibleName? == some name with
      | some i => AnnotationKind.ofQualifiedName? i.path
      | none => (imports.filterMap Import.package?).findSome? fun package =>
          AnnotationKind.ofQualifiedName? (package ++ "." ++ name)
  match found with
  | some kind => .ok kind
  | none => .error (.unresolvedName name)

structure AnnotationValues where
  bootstrap? : Option BootstrapInfo
  updater? : Option UpdaterInfo
  deriving DecidableEq, Repr

/-- Adds an annotation; a kind may come only once, but its values are checked first. -/
def addValues (imports : List Import) (found : AnnotationValues) (a : AnnotationTerm) :
    Except EvaluationFault AnnotationValues := do
  let kind ← resolveKind imports a.name
  let values ← kind.evaluate a.arguments
  match kind with
  | .bootstrap =>
    if found.bootstrap?.isSome then throw (.duplicateKind kind)
    return { found with bootstrap? := some (.ofValues values) }
  | .updater =>
    if found.updater?.isSome then throw (.duplicateKind kind)
    return { found with updater? := some (.ofValues values) }

inductive ModelFault
  | evaluation (fault : EvaluationFault)
  | invalidName (name : String) (fault : NameFault)
  deriving Repr

def ModelFault.message : ModelFault → String
  | .evaluation fault => fault.message
  | .invalidName name fault => "invalid updater name '" ++ name ++ "': " ++ fault.message

def ClassModel.ofUnit (ns : Namespaces) (unit : ParsedUnit) (script : String) :
    Except ModelFault ClassModel := do
  let found ← (unit.annotations.foldlM (addValues unit.imports) ⟨none, none⟩).mapError .evaluation
  match found.updater? with
  | some info => discard ((validateName ns info.name).mapError (.invalidName info.name))
  | none => pure ⟨⟩
  return ⟨unit.className, found.bootstrap?, found.updater?, script⟩

end UpdaterBootstrap
