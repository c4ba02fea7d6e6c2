import UpdaterBootstrap.Files.Tree
import UpdaterBootstrap.Settings.Basic
import UpdaterBootstrap.Toml.Reader
import UpdaterBootstrap.Toml.Writer

/-!
# Settings as TOML

One line for each value that is set. Other keys are passed over when a file is read.
-/

namespace UpdaterBootstrap

namespace Settings

/-! ## Writing -/

def line? (s : Settings) (key : SettingKey) : Option String :=
  let value := match key with
    | .sourceDir => s.sourceDir?.map Toml.writeText
    | .targetDir => s.targetDir?.map Toml.writeText
    | .extension => s.extension?.map Toml.writeText
    | .keepLineCount => s.keepLineCount?.map writeBoolean
    | .logFile => s.logFile?.map Toml.writeText
    | .actionKey => s.actionKey?.map (writeFloat .settings)
  value.map fun v => key.name ++ " = " ++ v ++ "\n"

def write (s : Settings) : String :=
  String.join (SettingKey.all.filterMap s.line?)

/-! ## Reading -/

def field? {α : Type} (kind : Toml → Option α) (key : SettingKey) (es : List (String × Toml)) :
    Option (Option α) :=
  match es.lookup key.name with
  | .none => some .none
  | some v => (kind v).map some

def text? : Toml → Option String
  | .text s => some s
  | _ => .none

def boolean? : Toml → Option Bool
  | .boolean b => some b
  | _ => .none

/-- A decimal, or an integer of 64 bits, signed or not. -/
def decimal? : Toml → Option Float
  | .decimal x => some x
  | .integer n => if -Nat.pow 2 63 ≤ n ∧ n < Nat.pow 2 64 then some (.ofInt n) else .none
  | _ => .none

def ofEntries? (es : List (String × Toml)) : Option Settings := do
  return {
    sourceDir? := ← field? text? .sourceDir es
    targetDir? := ← field? text? .targetDir es
    extension? := ← field? text? .extension es
    keepLineCount? := ← field? boolean? .keepLineCount es
    logFile? := ← field? text? .logFile es
    actionKey? := ← field? decimal? .actionKey es }

def read (content : String) : Except SettingsFault Settings :=
  match (Toml.read content).bind ofEntries? with
  | some s => .ok s
  | .none => .error .parse

/-! ## Files -/

def load (t : FileTree) (path : String) : Except SettingsFault Settings :=
  match t.read? path with
  | .ok (some content) => read content
  | .ok .none => .ok none
  | .error fault => .error (.file fault)

def save (s : Settings) (t : FileTree) (path : String) : Except SettingsFault Unit × FileTree :=
  let (result, t) := t.save path s.write
  (result.mapError .file, t)

end Settings

end UpdaterBootstrap
