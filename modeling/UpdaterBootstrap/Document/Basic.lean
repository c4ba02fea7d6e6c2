import UpdaterBootstrap.Text.CharClass

/-!
# Configuration documents

A document is a node path with properties in order. A property keeps its place when it is set again.
-/

namespace UpdaterBootstrap

inductive Property
  | text (s : String)
  | boolean (b : Bool)
  | integer (n : Int64)
  | list (items : List String)
  deriving DecidableEq, Repr

/-- Blank texts and empty lists hold nothing. -/
def Property.isEmpty : Property → Bool
  | .text s => s.toList.all isBlank
  | .list items => items.isEmpty
  | .boolean _ | .integer _ => false

structure Document where
  nodePath : String
  properties : List (String × Property)
  deriving DecidableEq, Repr

namespace Document

def empty (nodePath : String) : Document :=
  ⟨nodePath, []⟩

/-- Sets the first property of that name, or adds it at the end. -/
def setProperty (name : String) (value : Property) :
    List (String × Property) → List (String × Property)
  | [] => [(name, value)]
  | p :: ps => if p.1 == name then (name, value) :: ps else p :: setProperty name value ps

def insert (d : Document) (name : String) (value : Property) : Document :=
  { d with properties := setProperty name value d.properties }

def insertNonEmpty (d : Document) (name : String) (value : Property) : Document :=
  if value.isEmpty then d else d.insert name value

def get? (d : Document) (name : String) : Option Property :=
  d.properties.lookup name

def names (d : Document) : List String :=
  d.properties.map Prod.fst

end Document

end UpdaterBootstrap
