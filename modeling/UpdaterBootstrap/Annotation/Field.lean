import UpdaterBootstrap.Annotation.Kind
import UpdaterBootstrap.Unit.Constant

/-!
# Fields of annotations

Each kind has a schema: its fields in order, with their types and defaults. Evaluation checks the
arguments against the schema and gives every field a value.
-/

namespace UpdaterBootstrap

inductive FieldType
  | text
  | boolean
  | integer
  | decimal
  deriving DecidableEq, Repr

def FieldType.describe : FieldType → String
  | .text => "a string"
  | .boolean => "a boolean"
  | .integer => "an integer"
  | .decimal => "a number"

inductive FieldValue
  | text (s : String)
  | boolean (b : Bool)
  | integer (n : Int64)
  | decimal (x : Float)
  deriving DecidableEq, Repr

structure FieldSchema where
  name : String
  type : FieldType
  /-- The value without an argument; a required field has none. -/
  default : Option FieldValue
  deriving DecidableEq, Repr

def AnnotationKind.fields : AnnotationKind → List FieldSchema
  | .bootstrap =>
    [⟨"contentroot", .text, some (.text "queue")⟩,
     ⟨"reload", .boolean, some (.boolean false)⟩,
     ⟨"sequence", .decimal, some (.decimal 99999.0)⟩,
     ⟨"version", .text, some (.text "")⟩,
     ⟨"exclude", .boolean, some (.boolean false)⟩]
  | .updater =>
    [⟨"name", .text, none⟩,
     ⟨"description", .text, some (.text "")⟩,
     ⟨"path", .text, some (.text "")⟩,
     ⟨"xpath", .text, some (.text "")⟩,
     ⟨"parameters", .text, some (.text "")⟩,
     ⟨"batchSize", .integer, some (.integer 10)⟩,
     ⟨"throttle", .integer, some (.integer 1000)⟩,
     ⟨"dryRun", .boolean, some (.boolean false)⟩]

/-! ## Faults -/

inductive EvaluationFault
  | unresolvedName (name : String)
  | duplicateKind (kind : AnnotationKind)
  | unknownField (kind : AnnotationKind) (field : String)
  | duplicateField (kind : AnnotationKind) (field : String)
  | typeMismatch (kind : AnnotationKind) (field : FieldSchema) (found : Constant)
  | missingField (kind : AnnotationKind) (field : String)
  | unresolvedConstant (kind : AnnotationKind) (field : String) (name : String)
  deriving Repr

def EvaluationFault.message : EvaluationFault → String
  | .unresolvedName name => "annotation @" ++ name ++ " cannot be resolved"
  | .duplicateKind kind => "annotation @" ++ kind.simpleName ++ " is declared more than once"
  | .unknownField kind field => "@" ++ kind.simpleName ++ " has no field '" ++ field ++ "'"
  | .duplicateField kind field => "@" ++ kind.simpleName ++ "." ++ field ++ " is set more than once"
  | .typeMismatch kind field found =>
    "@" ++ kind.simpleName ++ "." ++ field.name ++ " expects " ++ field.type.describe ++ ", found " ++
      found.describe
  | .missingField kind field =>
    "@" ++ kind.simpleName ++ " is missing required field '" ++ field ++ "'"
  | .unresolvedConstant kind field name =>
    "@" ++ kind.simpleName ++ "." ++ field ++ " refers to unresolved constant '" ++ name ++ "'"

/-! ## Evaluation -/

/-- The value of a constant in a field of the given type; an integer also serves as a number. -/
def FieldType.accept? : FieldType → Constant → Option FieldValue
  | .text, .text s => some (.text s)
  | .boolean, .boolean b => some (.boolean b)
  | .integer, .integer n => some (.integer n)
  | .decimal, .decimal x => some (.decimal x)
  | .decimal, .integer n => some (.decimal (.ofInt n.toInt))
  | _, _ => none

def coerce (kind : AnnotationKind) (field : FieldSchema) (c : Constant) :
    Except EvaluationFault FieldValue :=
  match c with
  | .reference name => .error (.unresolvedConstant kind field.name name)
  | c => match field.type.accept? c with
    | some v => .ok v
    | none => .error (.typeMismatch kind field c)

abbrev FieldValues := List (String × FieldValue)

def collectFields (kind : AnnotationKind) (taken : FieldValues) :
    List (String × Constant) → Except EvaluationFault FieldValues
  | [] => .ok taken
  | (name, c) :: arguments =>
    match kind.fields.find? (·.name == name) with
    | none => .error (.unknownField kind name)
    | some field =>
      if (taken.lookup name).isSome then .error (.duplicateField kind name)
      else do
        let value ← coerce kind field c
        collectFields kind (taken ++ [(name, value)]) arguments

def completeFields (kind : AnnotationKind) (taken : FieldValues) :
    List FieldSchema → Except EvaluationFault FieldValues
  | [] => .ok []
  | field :: fields =>
    match (taken.lookup field.name).or field.default with
    | none => .error (.missingField kind field.name)
    | some value => do
      let rest ← completeFields kind taken fields
      return (field.name, value) :: rest

def AnnotationKind.evaluate (kind : AnnotationKind) (arguments : List (String × Constant)) :
    Except EvaluationFault FieldValues := do
  let taken ← collectFields kind [] arguments
  completeFields kind taken kind.fields

namespace FieldValues

def text (values : FieldValues) (name : String) : String :=
  match values.lookup name with
  | some (.text s) => s
  | _ => ""

def boolean (values : FieldValues) (name : String) : Bool :=
  match values.lookup name with
  | some (.boolean b) => b
  | _ => false

def integer (values : FieldValues) (name : String) : Int64 :=
  match values.lookup name with
  | some (.integer n) => n
  | _ => 0

def decimal (values : FieldValues) (name : String) : Float :=
  match values.lookup name with
  | some (.decimal x) => x
  | _ => 0.0

end FieldValues

end UpdaterBootstrap
