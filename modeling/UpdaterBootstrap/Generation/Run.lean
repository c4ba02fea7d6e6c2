import UpdaterBootstrap.Generation.Build
import UpdaterBootstrap.Generation.Discovery
import UpdaterBootstrap.Generation.Options

/-!
# Generations

A generation writes the documents of all scripts of the source directory, one after the other, and
then the manifest. It stops at the first updater name that is not valid; what it has written before
stays.
-/

namespace UpdaterBootstrap

def manifestName : String :=
  "hcm-actions.yaml"

inductive ManifestOutcome
  | written (path : String) (lists : Nat)
  | unchanged
  deriving DecidableEq, Repr

structure GenerationSummary where
  scripts : Nat
  /-- The paths of the documents, in the order of their scripts. -/
  documents : List String
  reloadEntries : Nat
  manifest : ManifestOutcome
  deriving DecidableEq, Repr

def GenerationSummary.skipped (s : GenerationSummary) : Nat :=
  s.scripts - s.documents.length

structure Generation where
  tree : FileTree
  interpreter : Interpreter
  processed : List String
  documents : List String
  derived : ActionList
  reloadEntries : Nat

namespace Generation

def begin (t : FileTree) (keepLineCount : Bool) : Generation :=
  ⟨t, .new keepLineCount, [], [], [], 0⟩

def addReload (g : Generation) (built : BuiltScript) : Generation :=
  match built.reloadPath? with
  | none => g
  | some path =>
    { g with
      derived := g.derived.insert built.actionKey path .reload
      reloadEntries := g.reloadEntries + 1 }

def emit (o : GenerateOptions) (g : Generation) (built : BuiltScript) :
    Except GenerateFault Unit × Generation :=
  let output := Path.join o.targetDir built.documentName
  match g.tree.save output built.document.write with
  | (.error fault, t) => (.error (.manifest (.file fault)), { g with tree := t })
  | (.ok (), t) => (.ok (), addReload { g with tree := t, documents := g.documents ++ [output] } built)

def processScript (o : GenerateOptions) (g : Generation) (s : FoundScript) :
    Except GenerateFault Unit × Generation :=
  let (result, i) := g.interpreter.build o.sourceDir s.path (g.tree.absolutePath s.path) o.actionKey
    (g.tree.readAt s.location)
  let g := { g with interpreter := i, processed := g.processed ++ [s.path] }
  match result with
  | .error e => (.error (.updaterName e), g)
  | .ok none => (.ok (), g)
  | .ok (some built) => g.emit o built

def processScripts (o : GenerateOptions) (g : Generation) :
    List FoundScript → Except GenerateFault Unit × Generation
  | [] => (.ok (), g)
  | s :: ss =>
    match g.processScript o s with
    | (.error fault, g) => (.error fault, g)
    | (.ok (), g) => processScripts o g ss

def writeManifest (o : GenerateOptions) (g : Generation) :
    Except GenerateFault ManifestOutcome × Generation :=
  let source := g.tree.read? (Path.join o.sourceDir manifestName)
  let output := Path.join o.targetDir manifestName
  match collectActionLists source (g.tree.read? output) g.derived with
  | .error fault => (.error (.manifest fault), g)
  | .ok none => (.ok .unchanged, g)
  | .ok (some l) =>
    match g.tree.save output l.write with
    | (.error fault, t) => (.error (.manifest (.file fault)), { g with tree := t })
    | (.ok (), t) => (.ok (.written output l.length), { g with tree := t })

end Generation

def generate (o : GenerateOptions) (t : FileTree) :
    Except GenerateFault GenerationSummary × Generation :=
  let g := Generation.begin t o.keepLineCount
  if !t.isDirectory o.sourceDir then (.error (.sourceNotFound o.sourceDir), g)
  else
    let scripts := discoverScripts t o.sourceDir o.extension
    match g.processScripts o scripts with
    | (.error fault, g) => (.error fault, g)
    | (.ok (), g) =>
      let (result, g) := g.writeManifest o
      (result.map fun outcome => ⟨scripts.length, g.documents, g.reloadEntries, outcome⟩, g)

end UpdaterBootstrap
