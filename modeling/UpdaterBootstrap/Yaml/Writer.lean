import UpdaterBootstrap.Yaml.Style

/-!
# Writing YAML

Block style with two spaces per level. A sequence that is the value of a simple key stands at the
key's own column.
-/

namespace UpdaterBootstrap

namespace Yaml

/-- Written text, and whether it ends a line. -/
abbrev Written := List Char × Bool

def spaces (n : Nat) : List Char :=
  List.replicate n ' '

def endLine (w : Written) : List Char :=
  if w.2 then w.1 else w.1 ++ ['\n']

/-- A value that begins on the line of what it belongs to: a text, a word or an empty collection.
Continuation lines of a text are indented by `indent`. -/
def inline (indent : Nat) : Yaml → Written
  | .boolean b => ((writeBoolean b).toList, false)
  | .integer n => ((writeInteger n).toList, false)
  | .decimal x => ((writeFloat .manifest x).toList, false)
  | .text s => writeText indent s
  | .sequence _ => ("[]".toList, false)
  | .mapping _ => ("\x7b\x7d".toList, false)
  | .null | .tagged .. => ("null".toList, false)

def isSimple : Yaml → Bool
  | .text s => isSimpleKey s
  | .sequence items => items.isEmpty
  | .mapping entries => entries.isEmpty
  | .tagged .. => false
  | _ => true

def tagText (tag : String) : List Char :=
  '!' :: bareTag tag

mutual

/-- The lines of a value whose first line has been begun up to column `column`. -/
def writeBegun (column : Nat) : Yaml → List Char
  | .sequence items =>
    if items.isEmpty then endLine (inline column (.sequence [])) else writeItems column true items
  | .mapping entries =>
    if entries.isEmpty then endLine (inline column (.mapping [])) else writeEntries column true entries
  | .tagged tag value => tagText tag ++ writeBelow column column value
  | v => endLine (inline column v)

/-- The lines of a value after a line that has been begun: a sequence goes to the lines below, at
column `items`, a mapping at column `entries`, all else to the line itself. -/
def writeBelow (items entries : Nat) : Yaml → List Char
  | .sequence vs =>
    if vs.isEmpty then ' ' :: endLine (inline entries (.sequence []))
    else '\n' :: writeItems items false vs
  | .mapping es =>
    if es.isEmpty then ' ' :: endLine (inline entries (.mapping []))
    else '\n' :: writeEntries entries false es
  | .tagged tag value => ' ' :: tagText tag ++ writeBelow items entries value
  | v => ' ' :: endLine (inline entries v)

def writeItems (column : Nat) (begun : Bool) : List Yaml → List Char
  | [] => []
  | v :: vs =>
    (if begun then [] else spaces column) ++ '-' :: ' ' :: writeBegun (column + 2) v ++
      writeItems column false vs

def writeEntries (column : Nat) (begun : Bool) : List (Yaml × Yaml) → List Char
  | [] => []
  | (k, v) :: es =>
    let entry :=
      if isSimple k then (inline (column + 2) k).1 ++ ':' :: writeBelow column (column + 2) v
      else '?' :: ' ' :: writeBegun (column + 2) k ++ spaces column ++ ':' :: ' ' ::
        writeBegun (column + 2) v
    (if begun then [] else spaces column) ++ entry ++ writeEntries column false es

end

def write (v : Yaml) : String :=
  .ofList <| match v with
    | .text s => endLine (writeText 2 s)
    | v => writeBegun 0 v

end Yaml

end UpdaterBootstrap
