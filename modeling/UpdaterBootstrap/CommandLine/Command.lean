import UpdaterBootstrap.CommandLine.Arguments
import UpdaterBootstrap.Generation.Options

/-!
# Commands

The commands of the program and how they are given on the command line.
-/

namespace UpdaterBootstrap

inductive ConfigAction
  | list
  | set (key value : String)
  | path
  deriving DecidableEq, Repr

inductive Command
  | generate (flags : GenerateFlags)
  | inspect (file : String) (json keepLineCount : Bool)
  | init (file? : Option String)
  | config (action : ConfigAction)
  deriving DecidableEq, Repr

structure Invocation where
  quiet : Bool
  /-- How much is said beyond warnings; a quiet invocation says nothing more. -/
  verbosity : Nat
  logFile? : Option String
  command : Command
  deriving DecidableEq, Repr

/-! ## Levels -/

def helpOption : OptionSpec :=
  ⟨"help", some 'h', .help⟩

def commonOptions : List OptionSpec :=
  [⟨"quiet", some 'q', .flag⟩, ⟨"verbose", some 'v', .counted⟩,
    ⟨"log-file", none, .value .path⟩, helpOption]

def rootLevel : ArgumentLevel :=
  ⟨⟨"version", some 'V', .version⟩ :: commonOptions, [],
    ["generate", "inspect", "init", "config", "help"]⟩

def generateLevel : ArgumentLevel :=
  ⟨[⟨"source", some 's', .value .path⟩, ⟨"target", some 't', .value .path⟩,
    ⟨"extension", none, .value .text⟩, ⟨"keep-line-count", none, .flag⟩,
    ⟨"action-key", none, .value .decimal⟩] ++ commonOptions, [], []⟩

def inspectLevel : ArgumentLevel :=
  ⟨[⟨"json", none, .flag⟩, ⟨"keep-line-count", none, .flag⟩] ++ commonOptions, [.path], []⟩

def initLevel : ArgumentLevel :=
  ⟨commonOptions, [.text], []⟩

def configLevel : ArgumentLevel :=
  ⟨commonOptions, [], ["show", "set", "path", "help"]⟩

def configSetLevel : ArgumentLevel :=
  ⟨commonOptions, [.text, .text], []⟩

def configPlainLevel : ArgumentLevel :=
  ⟨commonOptions, [], []⟩

/-! ## Reading -/

/-- The invocation of a command, given the arguments of its levels from the innermost out. What an
inner level says counts more. -/
def Invocation.of (levels : List GivenArguments) (command : Command) : Invocation :=
  let quiet := levels.any (·.has "quiet")
  let counts := (levels.map (·.count "verbose")).filter (0 < ·)
  { quiet
    verbosity := if quiet then 0 else counts.head?.getD 0
    logFile? := levels.findSome? (·.value? "log-file")
    command }

def GenerateFlags.of (g : GivenArguments) : GenerateFlags :=
  { source? := g.value? "source"
    target? := g.value? "target"
    extension? := g.value? "extension"
    keepLineCount := g.has "keep-line-count"
    actionKey? := (g.value? "action-key").bind readFloat? }

def isHelpTopic : List String → Bool
  | [] => true
  | [command] => rootLevel.commands.contains command
  | ["config", action] => configLevel.commands.contains action
  | _ => false

def readHelp {α : Type} (topic : Bool) : Except ArgumentStop α :=
  .error (if topic then .help else .usage)

def readConfig (outer : List GivenArguments) (args : List String) :
    Except ArgumentStop Invocation := do
  let (g, action?) ← readLevel configLevel .nothing args
  match action? with
  | none => return .of (g :: outer) (.config .list)
  | some ("show", args) =>
    let (inner, _) ← readLevel configPlainLevel .nothing args
    return .of (inner :: g :: outer) (.config .list)
  | some ("path", args) =>
    let (inner, _) ← readLevel configPlainLevel .nothing args
    return .of (inner :: g :: outer) (.config .path)
  | some ("set", args) =>
    let (inner, _) ← readLevel configSetLevel .nothing args
    match inner.operands with
    | [key, value] => return .of (inner :: g :: outer) (.config (.set key value))
    | _ => throw .usage
  | some (_, topic) => readHelp (isHelpTopic ("config" :: topic))

def Invocation.read (args : List String) : Except ArgumentStop Invocation := do
  let (g, command?) ← readLevel rootLevel .nothing args
  match command? with
  | none => throw .usage
  | some ("generate", args) =>
    let (inner, _) ← readLevel generateLevel .nothing args
    return .of [inner, g] (.generate (.of inner))
  | some ("inspect", args) =>
    let (inner, _) ← readLevel inspectLevel .nothing args
    match inner.operands with
    | [file] =>
      return .of [inner, g] (.inspect file (inner.has "json") (inner.has "keep-line-count"))
    | _ => throw .usage
  | some ("init", args) =>
    let (inner, _) ← readLevel initLevel .nothing args
    return .of [inner, g] (.init inner.operands.head?)
  | some ("config", args) => readConfig [g] args
  | some (_, topic) => readHelp (isHelpTopic topic)

end UpdaterBootstrap
