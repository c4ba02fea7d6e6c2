import UpdaterBootstrap.Manifest.Yaml
import UpdaterBootstrap.Settings.Basic
import UpdaterBootstrap.Updater.Interpretation

/-!
# Options of a generation

Flags win over settings, settings over defaults.
-/

namespace UpdaterBootstrap

structure GenerateOptions where
  sourceDir : String
  targetDir : String
  extension : String
  keepLineCount : Bool
  actionKey : SequenceKey
  deriving DecidableEq

structure GenerateFlags where
  source? : Option String
  target? : Option String
  extension? : Option String
  keepLineCount : Bool
  actionKey? : Option Float
  deriving DecidableEq, Repr

inductive GenerateFault
  | sourceNotFound (path : String)
  | updaterName (e : InvalidUpdaterName)
  | manifest (fault : ManifestFault)
  | invalidActionKey (x : Float)

namespace GenerateFault

def message : GenerateFault → String
  | .sourceNotFound path => "Source directory does not exist: " ++ path
  | .updaterName e => e.message
  | .manifest fault => "Failed to write output: " ++ fault.message
  | .invalidActionKey x => "Invalid action list key: " ++ writeFloat .plain x

def causes : GenerateFault → List String
  | .updaterName e => [e.fault.message]
  | .manifest fault => fault.message :: fault.causes
  | .sourceNotFound _ | .invalidActionKey _ => []

end GenerateFault

def finiteKey (x : Float) : Except GenerateFault SequenceKey :=
  match SequenceKey.ofFloat? x with
  | some key => .ok key
  | none => .error (.invalidActionKey x)

def Settings.options (s : Settings) : Except GenerateFault GenerateOptions :=
  (finiteKey s.actionKey).map fun key =>
    ⟨s.sourceDir, s.targetDir, s.extension, s.keepLineCount, key⟩

/-- The options under some settings. The settings' key has to be finite even if a flag replaces
it. -/
def GenerateFlags.options (flags : GenerateFlags) (s : Settings) :
    Except GenerateFault GenerateOptions := do
  let base ← s.options
  let key ← match flags.actionKey? with
    | some x => finiteKey x
    | none => .ok base.actionKey
  return {
    sourceDir := flags.source?.getD base.sourceDir
    targetDir := flags.target?.getD base.targetDir
    extension := (flags.extension?.map bareExtension).getD base.extension
    keepLineCount := flags.keepLineCount || base.keepLineCount
    actionKey := key }

end UpdaterBootstrap
