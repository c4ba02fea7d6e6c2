import UpdaterBootstrap.Document.OfModel
import UpdaterBootstrap.Files.Path
import UpdaterBootstrap.Manifest.SequenceKey
import UpdaterBootstrap.Updater.Interpretation

/-!
# Building scripts

What a generation writes for one script: its document and, if the script asks for it, the node to
reload.
-/

namespace UpdaterBootstrap

structure BuiltScript where
  source : String
  document : Document
  /-- Where the document goes, as seen from the target directory. -/
  documentName : String
  reloadPath? : Option String
  /-- The key of the entry that a reload goes to. -/
  actionKey : SequenceKey
  deriving DecidableEq

/-- What is built of a class: nothing without a document, or for a script outside the base
directory. -/
def ClassModel.build? (m : ClassModel) (base source : String) (key : SequenceKey) :
    Option BuiltScript := do
  let document ← m.document?
  let documentName ← Path.documentName? base source
  return ⟨source, document, documentName, m.reloadPath?, key⟩

def Interpreter.build (i : Interpreter) (base source absolute : String) (key : SequenceKey)
    (content : Except FileFault String) :
    Except InvalidUpdaterName (Option BuiltScript) × Interpreter :=
  let (result, i) := i.interpretFile absolute content
  match result with
  | .error e => (.error e, i)
  | .ok (.skipped _) => (.ok none, i)
  | .ok (.model m) => (.ok (m.build? base source key), i)

end UpdaterBootstrap
