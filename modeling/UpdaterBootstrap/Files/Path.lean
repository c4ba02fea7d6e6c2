import UpdaterBootstrap.Text.Split

/-!
# Paths

A path is a text whose parts are separated by slashes. Doubled slashes, a slash at the end and dots
that are not the first part do not count.
-/

namespace UpdaterBootstrap

inductive PathPart
  | root
  /-- A single dot, as the first part. -/
  | here
  | parent
  | name (s : String)
  deriving DecidableEq, Repr

namespace PathPart

def name? : PathPart → Option String
  | .name s => some s
  | _ => none

end PathPart

namespace Path

def pieces (path : String) : List String :=
  (splitOn '/' path.toList).map String.ofList

def isAbsolute (path : String) : Bool :=
  path.toList.head? == some '/'

def innerPart? (piece : String) : Option PathPart :=
  if piece == "" || piece == "." then none
  else if piece == ".." then some .parent
  else some (.name piece)

def parts (path : String) : List PathPart :=
  let inner := (pieces path).filterMap innerPart?
  if isAbsolute path then .root :: inner
  else if (pieces path).head? == some "." then .here :: inner
  else inner

def join (base rest : String) : String :=
  if isAbsolute rest || base.isEmpty then rest
  else if base.toList.getLast? == some '/' then base ++ rest
  else base ++ "/" ++ rest

def joinNames (base : String) (names : List String) : String :=
  names.foldl join base

/-- The names of `file` after those of `base`, if its parts begin with all parts of `base` and a name
follows. Steps to a parent are passed over. -/
def namesBelow? (base file : String) : Option (List String) :=
  match (parts base).isPrefixOf? (parts file) with
  | none => none
  | some rest =>
    let names := rest.filterMap PathPart.name?
    if names.isEmpty then none else some names

def relative? (base file : String) : Option String :=
  (namesBelow? base file).map "/".intercalate

/-! ## Extensions -/

/-- A name without its extension, and the extension: what follows the last dot, unless the dot
comes first. -/
def splitExtension (name : String) : String × Option String :=
  let reversed := name.toList.reverse
  let after := reversed.takeWhile (· != '.')
  match reversed.dropWhile (· != '.') with
  | _ :: c :: before => (.ofList (c :: before).reverse, some (.ofList after.reverse))
  | _ => (name, none)

def stem (name : String) : String :=
  (splitExtension name).1

def extension? (name : String) : Option String :=
  (splitExtension name).2

def withExtension (ext : String) : List String → List String
  | [] => []
  | [name] => [stem name ++ "." ++ ext]
  | name :: names => name :: withExtension ext names

def documentName? (base file : String) : Option String :=
  (namesBelow? base file).map fun names => "/".intercalate (withExtension "yaml" names)

end Path

end UpdaterBootstrap
