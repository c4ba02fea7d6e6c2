import UpdaterBootstrap.Files.Fault
import UpdaterBootstrap.Script.Excerpt
import UpdaterBootstrap.Script.Lines
import UpdaterBootstrap.Updater.ClassModel

/-!
# Interpreting scripts

A script is a class, or it is skipped for a reason. An updater name that is not valid is the one
fault that is not a reason to skip.
-/

namespace UpdaterBootstrap

inductive SkipReason
  | unreadable (fault : FileFault)
  | notAnnotated
  | unit (e : UnitError)
  | evaluation (fault : EvaluationFault)
  deriving Repr

def SkipReason.message : SkipReason → String
  | .unreadable fault => "file cannot be read: " ++ fault.message
  | .notAnnotated => "no Bootstrap or Updater annotation found"
  | .unit e => "synthetic unit does not parse: " ++ e.message
  | .evaluation fault => "annotation values are invalid: " ++ fault.message

structure InvalidUpdaterName where
  path : String
  name : String
  fault : NameFault
  deriving DecidableEq, Repr

def InvalidUpdaterName.message (e : InvalidUpdaterName) : String :=
  "Error parsing the updater name for: " ++ e.path

inductive Interpretation
  | model (m : ClassModel)
  | skipped (reason : SkipReason)
  deriving Repr

structure Interpreter where
  history : UnitHistory
  namespaces : Namespaces
  keepLineCount : Bool
  deriving Repr

namespace Interpreter

def new (keepLineCount : Bool) : Interpreter :=
  ⟨.empty, .initial, keepLineCount⟩

def outcome (i : Interpreter) (path : String) (excerpt : Excerpt) :
    Except UnitError ParsedUnit → Except InvalidUpdaterName Interpretation
  | .error e => .ok (.skipped (.unit e))
  | .ok unit =>
    match ClassModel.ofUnit i.namespaces unit excerpt.strippedBody with
    | .ok m => .ok (.model m)
    | .error (.evaluation fault) => .ok (.skipped (.evaluation fault))
    | .error (.invalidName name fault) => .error ⟨path, name, fault⟩

/-- Interprets normalized script text. The class of the script before is forgotten first. -/
def interpretText (i : Interpreter) (path text : String) :
    Except InvalidUpdaterName Interpretation × Interpreter :=
  let history := i.history.forget
  let excerpt := extract text i.keepLineCount
  if !excerpt.isAnnotated then (.ok (.skipped .notAnnotated), { i with history })
  else
    let (unit, history) := history.parse excerpt.unit.render
    (i.outcome path excerpt unit, { i with history })

def interpret (i : Interpreter) (path content : String) :
    Except InvalidUpdaterName Interpretation × Interpreter :=
  i.interpretText path (normalizeLines content)

/-- Interprets what was read of a script. A file that cannot be read leaves everything as it was. -/
def interpretFile (i : Interpreter) (path : String) :
    Except FileFault String → Except InvalidUpdaterName Interpretation × Interpreter
  | .ok content => i.interpret path content
  | .error fault => (.ok (.skipped (.unreadable fault)), i)

end Interpreter

end UpdaterBootstrap
