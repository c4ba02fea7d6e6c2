import UpdaterBootstrap.Document.Yaml
import UpdaterBootstrap.Files.Fault
import UpdaterBootstrap.Manifest.ActionList
import UpdaterBootstrap.Yaml.Reader

/-!
# Action manifests as YAML

A manifest is a mapping whose one known key holds the entries, each a mapping from its key to the
actions by path.
-/

namespace UpdaterBootstrap

namespace ActionList

def rootKey : String :=
  "action-lists"

def entryYaml (e : ActionEntry) : Yaml :=
  .mapping
    [(.decimal e.key.value, .mapping (e.actions.entries.map fun a => (.text a.1, .text a.2.verb)))]

def toYaml (l : ActionList) : Yaml :=
  .mapping [(.text rootKey, .sequence (l.map entryYaml))]

def write (l : ActionList) : String :=
  l.toYaml.write

/-! ## Reading -/

inductive ReadFault
  | rootNotMapping
  | listsNotSequence
  | itemNotMapping
  | invalidKey (key : Yaml)
  | actionsNotMapping (key : SequenceKey)
  | actionNotText (key : SequenceKey)

def ReadFault.message : ReadFault → String
  | .rootNotMapping => "manifest root must be a mapping"
  | .listsNotSequence => "'" ++ rootKey ++ "' must be a sequence"
  | .itemNotMapping => "action list items must be mappings"
  | .invalidKey key => "invalid action list key: " ++ key.describe
  | .actionsNotMapping key => "key " ++ key.display ++ " must hold a mapping of actions"
  | .actionNotText key =>
    "actions under key " ++ key.display ++ " must map paths to action names"

def key? : Yaml → Option SequenceKey
  | .integer n => SequenceKey.ofFloat? (.ofInt n)
  | .decimal x => SequenceKey.ofFloat? x
  | .text s => SequenceKey.ofText? s
  | _ => none

def actionsOfYaml (key : SequenceKey) (actions : ActionMap) :
    List (Yaml × Yaml) → Except ReadFault ActionMap
  | [] => .ok actions
  | (.text path, .text verb) :: es => actionsOfYaml key (actions.insert path ⟨verb⟩) es
  | _ => .error (.actionNotText key)

def entryOfYaml (key value : Yaml) : Except ReadFault ActionEntry :=
  match key? key with
  | none => .error (.invalidKey key)
  | some k =>
    match value with
    | .null => .ok ⟨k, .empty⟩
    | .mapping es => (actionsOfYaml k .empty es).map (⟨k, ·⟩)
    | _ => .error (.actionsNotMapping k)

def entriesOfYaml : List (Yaml × Yaml) → Except ReadFault ActionList
  | [] => .ok []
  | (key, value) :: es => do
    let e ← entryOfYaml key value
    let rest ← entriesOfYaml es
    return e :: rest

def itemsOfYaml : List Yaml → Except ReadFault ActionList
  | [] => .ok []
  | .mapping es :: vs => do
    let first ← entriesOfYaml es
    let rest ← itemsOfYaml vs
    return first ++ rest
  | _ => .error .itemNotMapping

def ofYaml : Yaml → Except ReadFault ActionList
  | .null => .ok []
  | .mapping root =>
    match Yaml.find? rootKey root with
    | none | some .null => .ok []
    | some (.sequence items) => itemsOfYaml items
    | some _ => .error .listsNotSequence
  | _ => .error .rootNotMapping

end ActionList

/-! ## Faults of files -/

inductive ManifestFault
  | file (fault : FileFault)
  | parse
  | manifest (fault : ActionList.ReadFault)
  | document (fault : Document.ReadFault)

def ManifestFault.message : ManifestFault → String
  | .file fault => "IO error: " ++ fault.message
  | .parse => "Failed to parse YAML"
  | .manifest fault => "Invalid action manifest: " ++ fault.message
  | .document fault => "Invalid configuration document: " ++ fault.message

def ManifestFault.causes : ManifestFault → List String
  | .file fault => [fault.message]
  | .parse | .manifest _ | .document _ => []

def ActionList.read (text : String) : Except ManifestFault ActionList := do
  let v ← (Yaml.read text).mapError fun _ => .parse
  (ActionList.ofYaml v).mapError .manifest

def ActionList.ofFile : Except FileFault (Option String) → Except ManifestFault ActionList
  | .ok (some text) => ActionList.read text
  | .ok none => .ok []
  | .error fault => .error (.file fault)

def Document.read (text : String) : Except ManifestFault Document := do
  let v ← (Yaml.read text).mapError fun _ => .parse
  (Document.ofYaml v).mapError .document

/-! ## Collecting -/

/-- What the target's manifest becomes, given the entries derived from scripts and the texts of the
manifests at source and target. Entries of the source count most, derived ones least; without
derived entries and entries of the source nothing changes, and the target is not read. -/
def collectActionLists (source target : Except FileFault (Option String)) (derived : ActionList) :
    Except ManifestFault (Option ActionList) := do
  let fromSource ← ActionList.ofFile source
  if fromSource.isEmpty && derived.isEmpty then return none
  else
    let fromTarget ← ActionList.ofFile target
    return ActionList.merge [derived, fromTarget, fromSource]

end UpdaterBootstrap
