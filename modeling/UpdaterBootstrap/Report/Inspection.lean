import UpdaterBootstrap.Document.OfModel
import UpdaterBootstrap.Document.Yaml
import UpdaterBootstrap.Manifest.SequenceKey
import UpdaterBootstrap.Report.Json
import UpdaterBootstrap.Updater.Interpretation

/-!
# Inspections

What a generation sees in one script, shown to a reader or as JSON.
-/

namespace UpdaterBootstrap

inductive Inspection
  | model (path : String) (m : ClassModel) (actionKey : SequenceKey)
  | skipped (path : String) (reason : SkipReason)

namespace Inspection

def of (path : String) (actionKey : SequenceKey) : Interpretation → Inspection
  | .model m => .model path m actionKey
  | .skipped reason => .skipped path reason

def document? : Inspection → Option String
  | .model _ m _ => m.document?.map Document.write
  | .skipped .. => none

def reloadPath? : Inspection → Option String
  | .model _ m _ => m.reloadPath?
  | .skipped .. => none

/-! ## JSON -/

def bootstrapReport (b : BootstrapInfo) : ReportValue :=
  .object
    [("contentroot", .text b.contentRoot.name), ("reload", .boolean b.reload),
      ("sequence", .decimal b.sequence), ("version", .text b.version), ("exclude", .boolean b.exclude)]

def updaterReport (u : UpdaterInfo) : ReportValue :=
  .object
    [("name", .text u.name), ("description", .text u.description), ("path", .text u.path),
      ("xpath", .text u.xpath), ("parameters", .text u.parameters),
      ("batch_size", .integer u.batchSize.toInt), ("throttle", .integer u.throttle.toInt),
      ("dry_run", .boolean u.dryRun)]

def report (i : Inspection) : ReportValue :=
  match i with
  | .model path m actionKey =>
    .object
      [("status", .text "class"),
        ("model", .object
          [("file", .object [("path", .text path)]), ("class_name", .text m.className),
            ("bootstrap", .ofOption bootstrapReport m.bootstrap?),
            ("updater", .ofOption updaterReport m.updater?)]),
        ("node_path", .text m.nodePath), ("bootstrap_path", .ofOption .text i.reloadPath?),
        ("action_key", .decimal actionKey.value), ("document", .ofOption .text i.document?)]
  | .skipped path reason =>
    .object [("status", .text "skipped"), ("file", .text path), ("reason", .text reason.message)]

/-! ## For readers -/

def summary (i : Inspection) : String :=
  match i with
  | .model _ m actionKey =>
    let reload := match i.reloadPath? with
      | some path => "  reload: " ++ path ++ " (" ++ writeFloat .plain actionKey.value ++ ")\n"
      | none => ""
    let document := match i.document? with
      | some content => "Document:\n" ++ content
      | none => "  (no document)\n"
    "Class: " ++ m.className ++ "\n" ++
      "  node: " ++ m.nodePath ++ "\n" ++
      "  valid: " ++ writeBoolean m.isValid ++ "\n" ++
      "  excluded: " ++ writeBoolean m.isExcluded ++ "\n" ++ reload ++ document
  | .skipped path reason => "Skipped: " ++ path ++ " (" ++ reason.message ++ ")\n"

end Inspection

end UpdaterBootstrap
