import UpdaterBootstrap.CommandLine.Command
import UpdaterBootstrap.CommandLine.Console
import UpdaterBootstrap.CommandLine.Surroundings
import UpdaterBootstrap.Generation.Run
import UpdaterBootstrap.Report.Inspection
import UpdaterBootstrap.Settings.Template

/-!
# Running a command

A run takes a file tree to a file tree and says something on the console. A command that fails names
the failure and its causes.
-/

namespace UpdaterBootstrap

abbrev FailureChain := List String

structure CommandRun where
  tree : FileTree
  console : Console

namespace CommandRun

abbrev Step := Except FailureChain Unit × CommandRun

def tell (r : CommandRun) (change : Console → Console) : CommandRun :=
  { r with console := change r.console }

def done (r : CommandRun) : Step :=
  (.ok (), r)

def fail (r : CommandRun) (chain : FailureChain) : Step :=
  (.error chain, r)

/-! ## Settings -/

def listSettings (r : CommandRun) (path : String) : Step :=
  match Settings.load r.tree path with
  | .error fault => r.fail [fault.message]
  | .ok s =>
    let empty := if 0 < r.console.verbosity then "  (empty)\n" else ""
    let lines := s.values.map fun v => "  " ++ v.1.name ++ ": " ++ v.2 ++ "\n"
    (r.tell (·.print ("Configuration:\n" ++ if s.isEmpty then empty else String.join lines))).done

def setSetting (r : CommandRun) (path key value : String) : Step :=
  match Settings.load r.tree path with
  | .error fault => r.fail [fault.message]
  | .ok s =>
    match s.assign key value with
    | .error fault => r.fail [fault.message]
    | .ok s =>
      match s.save r.tree path with
      | (.error fault, tree) => { r with tree }.fail [fault.message]
      | (.ok (), tree) => ({ r with tree }.tell (·.success ("Set " ++ key ++ " = " ++ value))).done

def config (r : CommandRun) (s : Surroundings) (action : ConfigAction) : Step :=
  let path := s.settingsPath r.tree
  let r := r.tell (·.debug ("Reading config from: " ++ path))
  match action with
  | .list => r.listSettings path
  | .set key value => r.setSetting path key value
  | .path =>
    let chosen := if s.chosenSettings?.isSome then "set-by " ++ settingsVariable ++ "\n" else ""
    (r.tell (·.print (path ++ "\n" ++ chosen))).done

/-! ## A first settings file -/

def question (path : String) : String :=
  "? File '" ++ path ++ "' already exists. Overwrite? [y/n] › "

def agrees (input : String) : Bool :=
  let line := trim (input.toList.takeWhile (· != '\n'))
  let word := line.map Char.toLower
  word == ['y'] || word == "yes".toList

def nextSteps (path : String) : String :=
  "\nNext steps:\n" ++
    "  1. Point source-dir at your scripts in " ++ path ++ "\n" ++
    "  2. Annotate updater scripts with @Updater and @Bootstrap\n" ++
    "  3. Generate the bootstrap files: hbg generate\n"

def writeTemplate (r : CommandRun) (path : String) : Step :=
  match r.tree.save path settingsTemplate with
  | (.error fault, tree) => { r with tree }.fail ["Init command failed", fault.message]
  | (.ok (), tree) =>
    (({ r with tree }.tell (·.success ("Created configuration file: " ++ path))).tell
      (·.print (nextSteps path))).done

def mustAsk (s : Surroundings) (t : FileTree) (path : String) : Bool :=
  t.contains path && !s.confirmed

def init (r : CommandRun) (s : Surroundings) (file? : Option String) : Step :=
  let path := file?.getD settingsName
  let r := (r.tell (·.debug "Handling init command")).tell (·.debug ("Target file: " ++ path))
  if mustAsk s r.tree path then
    let r := r.tell (·.print (question path))
    if agrees s.input then r.writeTemplate path
    else
      ((r.tell (·.info "Operation cancelled by user")).tell (·.print "Operation cancelled.\n")).done
  else if r.tree.contains path then
    (r.tell (·.debug ("Skipping confirmation (" ++ confirmVariable ++ " set)"))).writeTemplate path
  else r.writeTemplate path

/-! ## Inspection -/

def inspect (r : CommandRun) (settings : Settings) (file : String) (json keep : Bool) : Step :=
  let r := r.tell (·.debug ("Inspecting " ++ file))
  let key := (SequenceKey.ofFloat? settings.actionKey).getD .default
  let interpreter := Interpreter.new (keep || settings.keepLineCount)
  match (interpreter.interpretFile (r.tree.absolutePath file) (r.tree.read file)).1 with
  | .error e => r.fail ["Failed to inspect " ++ file, e.message, e.fault.message]
  | .ok result =>
    let inspection := Inspection.of file key result
    (r.tell (·.print (if json then inspection.report.write ++ "\n" else inspection.summary))).done

/-! ## Generation -/

def skippedMessage (count : Nat) : String :=
  writeInteger count ++ (if count == 1 then " script" else " scripts") ++
    " produced no document (not annotated, excluded or not interpretable; see `hbg inspect <file>`)"

def printSummary (s : GenerationSummary) (c : Console) : Console :=
  let c := c.print (String.join (s.documents.map fun path => "  + " ++ path ++ "\n"))
  let c := if 0 < s.skipped then c.warn (skippedMessage s.skipped) else c
  match s.manifest with
  | .unchanged => c.print "  = action lists unchanged\n"
  | .written path lists =>
    c.print ("  + " ++ path ++ " (" ++ writeInteger lists ++ " action lists, " ++
      writeInteger s.reloadEntries ++ " reload entries)\n")

def generate (r : CommandRun) (settings : Settings) (flags : GenerateFlags) (quiet : Bool) : Step :=
  match flags.options settings with
  | .error fault => r.fail (fault.message :: fault.causes)
  | .ok o =>
    let r := r.tell (·.debug ("Generating from " ++ o.sourceDir ++ " into " ++ o.targetDir))
    let (result, g) := UpdaterBootstrap.generate o r.tree
    let traced := g.processed.foldl (fun c path => Console.trace c ("Processing " ++ path)) r.console
    let r : CommandRun := ⟨g.tree, traced⟩
    match result with
    | .error fault => (r.tell (·.failure "Generation failed")).fail (fault.message :: fault.causes)
    | .ok s =>
      let r := r.tell (·.success ("Generated " ++ writeInteger s.documents.length ++
        " documents from " ++ writeInteger s.scripts ++ " scripts"))
      (if quiet then r else r.tell (printSummary s)).done

/-! ## Any command -/

def dispatch (r : CommandRun) (s : Surroundings) (loaded : Except SettingsFault Settings)
    (i : Invocation) : Step :=
  let withSettings := fun (command : Settings → Step) =>
    match loaded with
    | .ok settings => command settings
    | .error fault => r.fail ["Failed to load config", fault.message]
  match i.command with
  | .generate flags => withSettings fun settings => r.generate settings flags i.quiet
  | .inspect file json keep => withSettings fun settings => r.inspect settings file json keep
  | .init file? => r.init s file?
  | .config action => r.config s action

def openLog (r : CommandRun) : Option String → Option String × CommandRun
  | none =>
    (none, r.tell (·.notify
      "Warning: Failed to initialize logger: Could not determine home directory"))
  | some path =>
    match r.tree.makeParents path with
    | (.error fault, tree) =>
      (none, { r with tree }.tell (·.notify
        ("Warning: Failed to initialize logger: Failed to create log directory: " ++ fault.message)))
    | (.ok (), tree) => (some path, { r with tree := (tree.write path "").toOption.getD tree })

end CommandRun

/-! ## The program -/

structure Reply where
  exitCode : Nat
  console : Console
  /-- Where the entries of the log go. -/
  log? : Option String

def usageText : String :=
  "Usage: hbg [-q] [-v]... [--log-file PATH] COMMAND\n\n" ++
    "  generate [-s DIR] [-t DIR] [--extension EXT] [--keep-line-count] [--action-key KEY]\n" ++
    "  inspect [--json] [--keep-line-count] FILE\n" ++
    "  init [FILE]\n" ++
    "  config [show | set KEY VALUE | path]\n"

def Invocation.run (i : Invocation) (s : Surroundings) (t : FileTree) : Reply × FileTree :=
  let loaded := Settings.load t (s.settingsPath t)
  let asked := i.logFile?.or (loaded.toOption.bind Settings.logFile?)
  let r : CommandRun := ⟨t, .silent i.verbosity⟩
  let (log?, r) := r.openLog (s.logPath? asked)
  match r.dispatch s loaded i with
  | (.ok (), r) => (⟨0, r.console, log?⟩, r.tree)
  | (.error chain, r) =>
    let place := match log? with
      | some path => "Log file: " ++ path
      | none => "Log file location not available"
    let r := (r.tell (·.error (": ".intercalate chain))).tell (·.notify place)
    (⟨1, r.console, log?⟩, r.tree)

def Reply.ofStop : ArgumentStop → Reply
  | .usage => ⟨2, { Console.silent 0 with notices := usageText }, none⟩
  | .help => ⟨0, (Console.silent 0).print usageText, none⟩
  | .version => ⟨0, (Console.silent 0).print "hbg 0.1.0\n", none⟩

def runProgram (s : Surroundings) (t : FileTree) (args : List String) : Reply × FileTree :=
  match Invocation.read args with
  | .ok i => i.run s t
  | .error stop => (.ofStop stop, t)

end UpdaterBootstrap
