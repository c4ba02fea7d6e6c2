/-!
# Faults of files
-/

namespace UpdaterBootstrap

inductive FileFault
  | notFound
  | alreadyExists
  | notDirectory
  | isDirectory
  | invalidText
  deriving DecidableEq, Repr

def FileFault.message : FileFault → String
  | .notFound => "No such file or directory (os error 2)"
  | .alreadyExists => "File exists (os error 17)"
  | .notDirectory => "Not a directory (os error 20)"
  | .isDirectory => "Is a directory (os error 21)"
  | .invalidText => "stream did not contain valid UTF-8"

end UpdaterBootstrap
