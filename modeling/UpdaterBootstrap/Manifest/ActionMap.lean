import UpdaterBootstrap.AscendingMap

/-!
# Actions by path

What is done to repository paths when a document is deployed.
-/

namespace UpdaterBootstrap

structure Action where
  verb : String
  deriving DecidableEq, Repr

namespace Action

def reload : Action :=
  ⟨"reload"⟩

def isKnown (a : Action) : Bool :=
  a.verb == "reload" || a.verb == "delete" || a.verb == "append"

end Action

abbrev ActionMap := AscendingMap String Action

end UpdaterBootstrap
