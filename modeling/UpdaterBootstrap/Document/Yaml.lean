import UpdaterBootstrap.Document.Basic
import UpdaterBootstrap.Yaml.Writer

/-!
# Documents as YAML

A document is a mapping with one entry, from the node path to the properties. Its text begins with
an empty line.
-/

namespace UpdaterBootstrap

def Property.toYaml : Property → Yaml
  | .text s => .text s
  | .boolean b => .boolean b
  | .integer n => .integer n.toInt
  | .list items => .sequence (items.map .text)

namespace Document

def toYaml (d : Document) : Yaml :=
  .mapping [(.text d.nodePath, .mapping (d.properties.map fun p => (.text p.1, p.2.toYaml)))]

def write (d : Document) : String :=
  "\n" ++ d.toYaml.write

/-! ## Reading -/

inductive ReadFault
  | notMapping
  | entryCount (n : Nat)
  | pathNotText
  | propertyNameNotText
  | propertiesNotMapping
  | unsupported (name : String)
  deriving DecidableEq, Repr

def ReadFault.message : ReadFault → String
  | .notMapping => "document root must be a mapping"
  | .entryCount n => "expected a single node path, found " ++ writeInteger n ++ " entries"
  | .pathNotText => "node path must be a string"
  | .propertyNameNotText => "property names must be strings"
  | .propertiesNotMapping => "properties must be a mapping"
  | .unsupported name => "unsupported value for property " ++ name

def texts? : List Yaml → Option (List String)
  | [] => some []
  | .text s :: vs => (texts? vs).map (s :: ·)
  | _ => none

def property? : Yaml → Option Property
  | .text s => some (.text s)
  | .boolean b => some (.boolean b)
  | .integer n =>
    if Int64.minValue.toInt ≤ n ∧ n ≤ Int64.maxValue.toInt then some (.integer (.ofInt n)) else none
  | .sequence items => (texts? items).map .list
  | _ => none

def addEntries (d : Document) : List (Yaml × Yaml) → Except ReadFault Document
  | [] => .ok d
  | (.text name, value) :: es =>
    match property? value with
    | some p => addEntries (d.insert name p) es
    | none => .error (.unsupported name)
  | _ => .error .propertyNameNotText

def ofYaml : Yaml → Except ReadFault Document
  | .mapping [(.text path, .null)] => .ok (.empty path)
  | .mapping [(.text path, .mapping es)] => addEntries (.empty path) es
  | .mapping [(.text _, _)] => .error .propertiesNotMapping
  | .mapping [_] => .error .pathNotText
  | .mapping es => .error (.entryCount es.length)
  | _ => .error .notMapping

end Document

end UpdaterBootstrap
