import UpdaterBootstrap.Document.Basic
import UpdaterBootstrap.Script.Lines
import UpdaterBootstrap.Updater.ClassModel

/-!
# The document of a script class

Only what differs from the defaults of the repository is written: blank texts and a dry run that is
off are left out.
-/

namespace UpdaterBootstrap

def updatePathPrefix : String :=
  "/hippo:configuration/hippo:update/hippo:"

namespace ClassModel

def nodePath (m : ClassModel) : String :=
  updatePathPrefix ++ m.bootstrap.contentRoot.name ++ "/" ++ m.updater.name

def reloadPath? (m : ClassModel) : Option String :=
  if m.bootstrap.reload && m.isValid then some m.nodePath else none

def scriptContent (m : ClassModel) : String :=
  collapseBlankLines m.script

def writtenDocument (m : ClassModel) : Document :=
  let d := (Document.empty m.nodePath)
    |>.insert "jcr:primaryType" (.text "hipposys:updaterinfo")
    |>.insert "hipposys:batchsize" (.integer m.updater.batchSize)
    |>.insertNonEmpty "hipposys:description" (.text m.updater.description)
  let d := if m.updater.dryRun then d.insert "hipposys:dryrun" (.boolean true) else d
  d |>.insertNonEmpty "hipposys:parameters" (.text m.updater.parameters)
    |>.insertNonEmpty "hipposys:path" (.text m.updater.path)
    |>.insertNonEmpty "hipposys:query" (.text m.updater.xpath)
    |>.insert "hipposys:script" (.text m.scriptContent)
    |>.insert "hipposys:throttle" (.integer m.updater.throttle)

def document? (m : ClassModel) : Option Document :=
  if m.isValid && !m.isExcluded then some m.writtenDocument else none

theorem document?_eq_some {m : ClassModel} {d : Document} :
    m.document? = some d ↔ (m.isValid = true ∧ m.isExcluded = false) ∧ m.writtenDocument = d := by
  unfold document?
  split
  · rename_i h
    rw [Bool.and_eq_true, Bool.not_eq_true'] at h
    exact ⟨fun hd => ⟨h, Option.some.inj hd⟩, fun hd => congrArg some hd.2⟩
  · rename_i h
    rw [Bool.and_eq_true, Bool.not_eq_true'] at h
    exact ⟨nofun, fun hd => absurd hd.1 h⟩

end ClassModel

end UpdaterBootstrap
