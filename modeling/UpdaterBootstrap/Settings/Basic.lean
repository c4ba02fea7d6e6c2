import UpdaterBootstrap.Decimal.Layout
import UpdaterBootstrap.Decimal.Read
import UpdaterBootstrap.Files.Fault
import UpdaterBootstrap.Unit.Constant

/-!
# Settings

Values for the options of a generation, each of which may be left open. They are read and changed
by key.
-/

namespace UpdaterBootstrap

structure Settings where
  sourceDir? : Option String
  targetDir? : Option String
  extension? : Option String
  keepLineCount? : Option Bool
  logFile? : Option String
  actionKey? : Option Float
  deriving DecidableEq, Repr

inductive SettingKey
  | sourceDir
  | targetDir
  | extension
  | keepLineCount
  | logFile
  | actionKey
  deriving DecidableEq, Repr

namespace SettingKey

def name : SettingKey → String
  | sourceDir => "source-dir"
  | targetDir => "target-dir"
  | extension => "extension"
  | keepLineCount => "keep-line-count"
  | logFile => "log-file"
  | actionKey => "default-action-key"

def all : List SettingKey :=
  [sourceDir, targetDir, extension, keepLineCount, logFile, actionKey]

def ofName? (name : String) : Option SettingKey :=
  all.find? (·.name == name)

end SettingKey

inductive SettingsFault
  | file (fault : FileFault)
  | parse
  | unknownKey (name : String)
  | invalidValue (name value : String)
  deriving DecidableEq, Repr

def SettingsFault.message : SettingsFault → String
  | .file fault => "IO error: " ++ fault.message
  | .parse => "Failed to parse config"
  | .unknownKey name =>
    "Unknown config key: " ++ name ++ ". Supported keys: " ++
      ", ".intercalate (SettingKey.all.map SettingKey.name)
  | .invalidValue name value => "Invalid value for " ++ name ++ ": " ++ value

def bareExtension (ext : String) : String :=
  .ofList (ext.toList.dropWhile (· == '.'))

namespace Settings

def none : Settings :=
  ⟨.none, .none, .none, .none, .none, .none⟩

def isEmpty (s : Settings) : Bool :=
  s == none

def get? (s : Settings) : SettingKey → Option String
  | .sourceDir => s.sourceDir?
  | .targetDir => s.targetDir?
  | .extension => s.extension?
  | .keepLineCount => s.keepLineCount?.map writeBoolean
  | .logFile => s.logFile?
  | .actionKey => s.actionKey?.map (writeFloat .plain)

def readBoolean? (value : String) : Option Bool :=
  if value == "true" then some true else if value == "false" then some false else .none

def set? (s : Settings) (key : SettingKey) (value : String) : Option Settings :=
  match key with
  | .sourceDir => some { s with sourceDir? := some value }
  | .targetDir => some { s with targetDir? := some value }
  | .extension => some { s with extension? := some (bareExtension value) }
  | .keepLineCount => (readBoolean? value).map fun b => { s with keepLineCount? := some b }
  | .logFile => some { s with logFile? := some value }
  | .actionKey => ((readFloat? value).filter isFinite).map fun x => { s with actionKey? := some x }

def lookup (s : Settings) (name : String) : Except SettingsFault (Option String) :=
  match SettingKey.ofName? name with
  | some key => .ok (s.get? key)
  | .none => .error (.unknownKey name)

def assign (s : Settings) (name value : String) : Except SettingsFault Settings :=
  match SettingKey.ofName? name with
  | .none => .error (.unknownKey name)
  | some key =>
    match s.set? key value with
    | some s => .ok s
    | .none => .error (.invalidValue name value)

def values (s : Settings) : List (SettingKey × String) :=
  SettingKey.all.filterMap fun key => (s.get? key).map (key, ·)

/-! ## What counts -/

def sourceDir (s : Settings) : String :=
  s.sourceDir?.getD "src/main/groovy"

def targetDir (s : Settings) : String :=
  s.targetDir?.getD "target/classes"

def extension (s : Settings) : String :=
  s.extension?.getD "groovy"

def keepLineCount (s : Settings) : Bool :=
  s.keepLineCount?.getD false

def actionKey (s : Settings) : Float :=
  s.actionKey?.getD 0.1

end Settings

end UpdaterBootstrap
