/-!
# The first settings file
-/

namespace UpdaterBootstrap

def settingsTemplateLines : List String :=
  ["# hbg configuration",
    "# Command line flags take precedence over the values below.",
    "",
    "# Directory scanned for annotated updater scripts",
    "source-dir = \"src/main/groovy\"",
    "",
    "# Directory the generated documents and hcm-actions.yaml are written to",
    "target-dir = \"target/classes\"",
    "",
    "# Extension of the script files",
    "extension = \"groovy\"",
    "",
    "# Keep a blank line for every removed annotation line so that line numbers in",
    "# the stored script match the source",
    "keep-line-count = false",
    "",
    "# Action list key for reload entries of scripts without a numeric version",
    "default-action-key = 0.1",
    "",
    "# Log file location (default: ~/.config/hbg/hbg.log)",
    "# log-file = \"target/hbg.log\""]

def settingsTemplate : String :=
  String.join (settingsTemplateLines.map (· ++ "\n"))

end UpdaterBootstrap
