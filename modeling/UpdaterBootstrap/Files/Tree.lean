import UpdaterBootstrap.AscendingMap
import UpdaterBootstrap.Files.Fault
import UpdaterBootstrap.Files.Path

/-!
# File trees

Directories and files by their location, seen from a current directory. The root is always there.
-/

namespace UpdaterBootstrap

abbrev Location := List String

inductive FileEntry
  | directory
  | file (bytes : ByteArray)

instance : DecidableEq FileEntry
  | .directory, .directory => .isTrue rfl
  | .file a, .file b =>
    match ByteArray.instDecidableEq a b with
    | .isTrue h => .isTrue (h ▸ rfl)
    | .isFalse h => .isFalse fun e => h (FileEntry.file.inj e)
  | .directory, .file _ => .isFalse (nomatch ·)
  | .file _, .directory => .isFalse (nomatch ·)

structure FileTree where
  entries : AscendingMap Location FileEntry
  /-- Where relative paths start. -/
  current : Location
  deriving DecidableEq

namespace FileTree

def bare (current : Location) : FileTree :=
  ⟨.empty, current⟩

def entry? (t : FileTree) (l : Location) : Option FileEntry :=
  if l = [] then some .directory else t.entries.get? l

def isDirectoryAt (t : FileTree) (l : Location) : Bool :=
  t.entry? l == some .directory

def stepFrom (l : Location) (piece : String) : Location :=
  if piece == "" || piece == "." then l
  else if piece == ".." then l.dropLast
  else l ++ [piece]

def walk (t : FileTree) (l : Location) : List String → Except FileFault Location
  | [] => .ok l
  | piece :: pieces =>
    match t.entry? l with
    | some .directory => t.walk (stepFrom l piece) pieces
    | some (.file _) => .error .notDirectory
    | none => .error .notFound

def start (t : FileTree) (path : String) : Location :=
  if Path.isAbsolute path then [] else t.current

def locate (t : FileTree) (path : String) : Except FileFault Location :=
  if path.isEmpty then .error .notFound else t.walk (t.start path) (Path.pieces path)

/-- The absolute form of a path; steps in it stay as they are. -/
def absolutePath (t : FileTree) (path : String) : String :=
  Path.join (Path.joinNames "/" t.current) path

/-! ## Reading -/

def at? (t : FileTree) (path : String) : Option FileEntry :=
  match t.locate path with
  | .ok l => t.entry? l
  | .error _ => none

def contains (t : FileTree) (path : String) : Bool :=
  (t.at? path).isSome

def isDirectory (t : FileTree) (path : String) : Bool :=
  t.at? path == some .directory

def readAt (t : FileTree) (l : Location) : Except FileFault String :=
  match t.entry? l with
  | none => .error .notFound
  | some .directory => .error .isDirectory
  | some (.file bytes) =>
    match String.fromUTF8? bytes with
    | some text => .ok text
    | none => .error .invalidText

def read (t : FileTree) (path : String) : Except FileFault String := do
  t.readAt (← t.locate path)

def read? (t : FileTree) (path : String) : Except FileFault (Option String) :=
  if t.contains path then (t.read path).map some else .ok none

/-! ## Writing -/

def put (t : FileTree) (l : Location) (e : FileEntry) : FileTree :=
  { t with entries := t.entries.insert l e }

/-- Walks like `walk`, but creates directories that are missing, the last one included. -/
def makeWay (t : FileTree) (l : Location) : List String → Except FileFault Location × FileTree
  | [] => (.ok l, t)
  | piece :: pieces =>
    let next := stepFrom l piece
    match t.entry? next with
    | some .directory => t.makeWay next pieces
    | some (.file _) => (.error (if pieces.isEmpty then .alreadyExists else .notDirectory), t)
    | none => (t.put next .directory).makeWay next pieces

def stepOf? : PathPart → Option String
  | .root => none
  | .here => some "."
  | .parent => some ".."
  | .name s => some s

def makeParents (t : FileTree) (path : String) : Except FileFault Unit × FileTree :=
  let (result, t) := t.makeWay (t.start path) ((Path.parts path).dropLast.filterMap stepOf?)
  (result.map fun _ => (), t)

def write (t : FileTree) (path content : String) : Except FileFault FileTree := do
  let l ← t.locate path
  match t.entry? l with
  | some .directory => throw .isDirectory
  | _ => return t.put l (.file content.toUTF8)

def save (t : FileTree) (path content : String) : Except FileFault Unit × FileTree :=
  match t.makeParents path with
  | (.error fault, t) => (.error fault, t)
  | (.ok (), t) =>
    match t.write path content with
    | .ok t => (.ok (), t)
    | .error fault => (.error fault, t)

/-! ## Listing -/

def filesFrom (t : FileTree) (root : Location) : List (List String × ByteArray) :=
  t.entries.entries.filterMap fun e =>
    match root.isPrefixOf? e.1, e.2 with
    | some names, .file bytes => some (names, bytes)
    | _, _ => none

/-- The files that are new in a tree or have another content than in `before`. -/
def writtenSince (t before : FileTree) : List (Location × ByteArray) :=
  (t.filesFrom []).filter fun f => before.entry? f.1 != some (.file f.2)

end FileTree

end UpdaterBootstrap
