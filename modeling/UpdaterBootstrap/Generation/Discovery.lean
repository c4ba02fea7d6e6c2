import UpdaterBootstrap.Files.Tree
import UpdaterBootstrap.Settings.Basic

/-!
# Finding scripts

The scripts of a directory are the files below it that have the extension, in ascending order of
their names.
-/

namespace UpdaterBootstrap

/-- A script: its path, which starts with that of the searched directory, and where it is. -/
structure FoundScript where
  path : String
  location : Location
  deriving DecidableEq, Repr

def hasExtension (ext : String) (l : Location) : Bool :=
  (l.getLast?.bind Path.extension?) == some ext

def discoverScripts (t : FileTree) (root ext : String) : List FoundScript :=
  match t.locate root with
  | .error _ => []
  | .ok l =>
    let found := (t.filesFrom l).map fun f => (⟨Path.joinNames root f.1, l ++ f.1⟩ : FoundScript)
    found.filter fun s => hasExtension (bareExtension ext) s.location

end UpdaterBootstrap
