import UpdaterBootstrap.CommandLine.Run

/-!
# The program on real files

The part of the file system that a command can look at is read into a tree, the command runs on the
tree, and what it changed is written back.
-/

namespace UpdaterBootstrap

def pathAt (l : Location) : String :=
  Path.joinNames "/" l

/-! ## Reading the file system -/

def readEntry (t : FileTree) (l : Location) : IO FileTree := do
  try
    let place ← IO.FS.realPath (pathAt l)
    if ← place.isDir then return t.put l .directory
    else return t.put l (.file (← IO.FS.readBinFile place))
  catch _ => return t

def readWay (t : FileTree) (l : Location) : List String → IO (FileTree × Location)
  | [] => return (t, l)
  | piece :: pieces => do
    let next := FileTree.stepFrom l piece
    readWay (← readEntry t next) next pieces

/-- Adds all that is below a location. -/
partial def readBelow (t : FileTree) (l : Location) : IO FileTree := do
  if !t.isDirectoryAt l then return t
  let entries ← try (← IO.FS.realPath (pathAt l)).readDir catch _ => pure #[]
  entries.foldlM (fun t e => do
    let below := l ++ [e.fileName]
    readBelow (← readEntry t below) below) t

def readPath (t : FileTree) (path : String) (deep : Bool) : IO FileTree := do
  let (t, l) ← readWay t (t.start path) (Path.pieces path)
  if deep then readBelow t l else return t

/-- The paths that a command looks at besides the settings, and whether it looks below them. -/
def Invocation.places (i : Invocation) (settings : Settings) : List (String × Bool) :=
  match i.command with
  | .generate flags =>
    match flags.options settings with
    | .ok o => [(o.sourceDir, true), (o.targetDir, true)]
    | .error _ => []
  | .inspect file _ _ => [(file, false)]
  | .init file? => [(file?.getD settingsName, false)]
  | .config _ => []

def readTree (i : Invocation) (s : Surroundings) (current : Location) : IO FileTree := do
  let (t, _) ← readWay (.bare current) [] current
  let t ← readPath t settingsName false
  let t ← readPath t (s.settingsPath t) false
  let settings := (Settings.load t (s.settingsPath t)).toOption.getD .none
  let log := (s.logPath? (i.logFile?.or settings.logFile?)).toList.map (·, false)
  (log ++ i.places settings).foldlM (fun t place => readPath t place.1 place.2) t

/-! ## Writing back -/

def writeChanges (before t : FileTree) : IO Unit :=
  for e in t.entries.entries do
    if before.entry? e.1 != some e.2 then
      match e.2 with
      | .directory => IO.FS.createDirAll (pathAt e.1)
      | .file bytes => IO.FS.writeBinFile (pathAt e.1) bytes

def appendLog (reply : Reply) : IO Unit := do
  match reply.log? with
  | none => return
  | some path =>
    try
      let log ← IO.FS.Handle.mk path .append
      reply.console.log.forM log.putStrLn
    catch _ => return

/-! ## The program -/

def askFirst (i : Invocation) (s : Surroundings) (t : FileTree) : IO (String × Surroundings) := do
  match i.command with
  | .init file? =>
    let path := file?.getD settingsName
    if CommandRun.mustAsk s t path then
      let asked := CommandRun.question path
      (← IO.getStdout).putStr asked
      (← IO.getStdout).flush
      return (asked, { s with input := ← (← IO.getStdin).getLine })
    else return ("", s)
  | _ => return ("", s)

def runOnFiles (i : Invocation) (s : Surroundings) : IO (String × Reply) := do
  let current := (Path.pieces (← IO.currentDir).toString).filter (!·.isEmpty)
  let t ← readTree i s current
  let (asked, s) ← askFirst i s t
  let (reply, after) := i.run s t
  writeChanges t after
  appendLog reply
  return (asked, reply)

end UpdaterBootstrap

open UpdaterBootstrap in
def main (args : List String) : IO UInt32 := do
  let s : Surroundings :=
    { home? := ← IO.getEnv "HOME"
      settingsFile? := ← IO.getEnv settingsVariable
      confirmed := (← IO.getEnv confirmVariable).isSome
      input := "" }
  let (asked, reply) ← match Invocation.read args with
    | .ok i => runOnFiles i s
    | .error stop => pure ("", Reply.ofStop stop)
  (← IO.getStdout).putStr (reply.console.output.drop asked.length).toString
  (← IO.getStderr).putStr reply.console.notices
  return reply.exitCode.toUInt32
