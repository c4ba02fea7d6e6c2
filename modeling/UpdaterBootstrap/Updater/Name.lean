import UpdaterBootstrap.Text.Quoted
import UpdaterBootstrap.Text.Split
import UpdaterBootstrap.Unit.Constant

/-!
# Names of updaters

A name is a relative path of segments separated by slashes. A segment is a local name, with a
namespace prefix and a colon before it if it has one.
-/

namespace UpdaterBootstrap

structure NameSegment where
  namePrefix : Option String
  localName : String
  /-- The namespace of the prefix, unless it is known only where the name is deployed. -/
  namespaceUri : Option String
  deriving DecidableEq, Repr

def NameSegment.text (s : NameSegment) : String :=
  match s.namePrefix with
  | some p => p ++ ":" ++ s.localName
  | none => s.localName

abbrev NamePath := List NameSegment

def NamePath.text (path : NamePath) : String :=
  "/".intercalate (path.map NameSegment.text)

/-! ## Namespaces -/

/-- Prefixes and their namespaces, the latest first. -/
abbrev Namespaces := List (String × String)

namespace Namespaces

def initial : Namespaces :=
  [("", "")]

def insert (ns : Namespaces) (namePrefix uri : String) : Namespaces :=
  (namePrefix, uri) :: ns

def uri? (ns : Namespaces) (namePrefix : String) : Option String :=
  ns.lookup namePrefix

end Namespaces

/-! ## Faults -/

inductive NameFault
  | empty
  | emptySegment (position : Nat)
  | invalidPrefix (namePrefix segment : String)
  | invalidLocalName (name : String)
  | illegalCharacter (c : Char) (segment : String)
  deriving DecidableEq, Repr

def NameFault.message : NameFault → String
  | .empty => "name is empty"
  | .emptySegment position => "empty path segment at position " ++ writeInteger position
  | .invalidPrefix namePrefix segment =>
    "invalid namespace prefix '" ++ namePrefix ++ "' in '" ++ segment ++ "'"
  | .invalidLocalName name => "invalid local name '" ++ name ++ "'"
  | .illegalCharacter c segment =>
    "illegal character " ++ quoteChar c ++ " in '" ++ segment ++ "'"

/-! ## Validation -/

def isNcName : List Char → Bool
  | [] => false
  | c :: cs =>
    (isAlphabetic c || c == '_') &&
      cs.all fun c => isAlphanumeric c || c == '.' || c == '-' || c == '_'

def isIllegalInLocalName (c : Char) : Bool :=
  "/:[]|*".toList.contains c || isControl c

def splitPrefix (segment : List Char) : Option (List Char) × List Char :=
  let before := segment.takeWhile (· != ':')
  match segment.dropWhile (· != ':') with
  | _ :: after => (some before, after)
  | [] => (none, before)

def checkLocalName (name segment : List Char) : Except NameFault PUnit :=
  match name.find? isIllegalInLocalName with
  | some c => .error (.illegalCharacter c (.ofList segment))
  | none =>
    if name.isEmpty || name == ['.'] || name == ['.', '.'] || trim name != name ||
        name.head? == some '\x7b' then
      .error (.invalidLocalName (.ofList name))
    else .ok ⟨⟩

def validateSegment (ns : Namespaces) (segment : List Char) : Except NameFault NameSegment := do
  let (before, name) := splitPrefix segment
  match before with
  | some p =>
    if !isNcName p then throw (.invalidPrefix (.ofList p) (.ofList segment))
  | none => pure ⟨⟩
  checkLocalName name segment
  let namePrefix := before.map String.ofList
  return ⟨namePrefix, .ofList name, ns.uri? (namePrefix.getD "")⟩

def validateSegments (ns : Namespaces) (position : Nat) :
    List (List Char) → Except NameFault NamePath
  | [] => .ok []
  | segment :: segments =>
    if segment.isEmpty then .error (.emptySegment position)
    else do
      let first ← validateSegment ns segment
      let rest ← validateSegments ns (position + 1) segments
      return first :: rest

def validateName (ns : Namespaces) (name : String) : Except NameFault NamePath :=
  if name.isEmpty then .error .empty
  else validateSegments ns 0 (splitOn '/' name.toList)

end UpdaterBootstrap
