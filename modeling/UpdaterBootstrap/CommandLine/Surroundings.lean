import UpdaterBootstrap.Files.Tree
import UpdaterBootstrap.Settings.Toml
import UpdaterBootstrap.Text.CharClass

/-!
# Surroundings

What a command finds around it besides files, and which settings and log files follow from that.
-/

namespace UpdaterBootstrap

structure Surroundings where
  home? : Option String
  /-- The settings file that the environment names. -/
  settingsFile? : Option String
  /-- Whether a file may be overwritten without asking. -/
  confirmed : Bool
  /-- What is typed in. -/
  input : String
  deriving DecidableEq, Repr

def settingsName : String :=
  "hbg.toml"

def settingsVariable : String :=
  "HBG_CONFIG"

def confirmVariable : String :=
  "HBG_INIT_YES"

namespace Surroundings

def userDirectory? (s : Surroundings) : Option String :=
  s.home?.map fun home => Path.join (Path.join home ".config") "hbg"

def chosenSettings? (s : Surroundings) : Option String :=
  (s.settingsFile?.map fun name => String.ofList (trim name.toList)).filter (!·.isEmpty)

/-- The settings file: the chosen one, or that of the current directory if there is one, or else the
user's. -/
def settingsPath (s : Surroundings) (t : FileTree) : String :=
  match s.chosenSettings? with
  | some path => path
  | none =>
    if t.contains settingsName then settingsName
    else (s.userDirectory?.map (Path.join · settingsName)).getD settingsName

def logPath? (s : Surroundings) (asked? : Option String) : Option String :=
  asked?.or (s.userDirectory?.map (Path.join · "hbg.log"))

end Surroundings

end UpdaterBootstrap
