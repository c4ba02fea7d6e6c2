import UpdaterBootstrap.Yaml.Node

/-!
# Reading YAML

The tree of a text. Aliases are replaced by what they stand for, plain scalars denote values, and
mappings may not repeat a key.
-/

namespace UpdaterBootstrap

namespace Yaml

def nestingLimit : Nat := 128

mutual
/-- How many events a node takes: one for a scalar or alias, two around a collection. -/
def Node.size : Node → Nat
  | .scalar .. | .reference _ => 1
  | .sequence _ items => 2 + sizeAll items
  | .mapping _ entries => 2 + sizeEntries entries
def sizeAll : List Node → Nat
  | [] => 0
  | n :: ns => n.size + sizeAll ns
def sizeEntries : List (Node × Node) → Nat
  | [] => 0
  | (k, v) :: es => k.size + v.size + sizeEntries es
end

/-- The value of a scalar, to which a tag of the text's own makes no difference. -/
def scalarValue (tag : Option TagText) (plain : Bool) (text : List Char) : Reads Yaml :=
  let s := String.ofList text
  let require := fun (v : Option Yaml) => match v with
    | some v => .ok v
    | none => malformed
  match tag with
  | none | some (some '!' :: _) => if plain then require (plainScalar? s) else .ok (.text s)
  | some tag =>
    if isCoreTag "bool" tag then require ((booleanWord? text).map .boolean)
    else if isCoreTag "int" tag then require (((integerWord? text).filter isTreeInteger).map .integer)
    else if isCoreTag "float" tag then require ((decimalWord? text).map .decimal)
    else if isCoreTag "null" tag then require (if isNullWord text then some .null else none)
    else .ok (.text s)

def withTag (tag : Option TagText) (v : Yaml) : Yaml :=
  match ownTag? tag with
  | some name => .tagged (.ofList name) v
  | none => v

/-! ## Evaluation -/

/-- Evaluation counts the aliases it follows. -/
abbrev Counted (α : Type) := Nat → Except Malformed (α × Nat)

/-- The node itself, or the one that an alias stands for, if no more than `limit` have been
followed. -/
def follow (a : Anchors) (limit : Nat) : Node → Counted Node
  | .reference number, n =>
    match if n < limit then a.node? number else none with
    | some node => .ok (node, n + 1)
    | none => malformed
  | node, n => .ok (node, n)

def listValue (value : Node → Counted Yaml) : List Node → Counted (List Yaml)
  | [], n => .ok ([], n)
  | item :: items, n => do
    let (v, n) ← value item n
    let (vs, n) ← listValue value items n
    return (v :: vs, n)

def entriesValue (value : Node → Counted Yaml) :
    List (Yaml × Yaml) → List (Node × Node) → Counted (List (Yaml × Yaml))
  | done, [], n => .ok (done, n)
  | done, (k, v) :: es, n => do
    let (key, n) ← value k n
    if done.any fun e => same e.1 key then malformed
    else
      let (v, n) ← value v n
      entriesValue value (done ++ [(key, v)]) es n

def nodeValue (a : Anchors) (limit : Nat) : Nat → Node → Counted Yaml
  | depth, node, n => do
    let (node, n) ← follow a limit node n
    match depth, node with
    | _, .scalar tag plain body =>
      let v ← scalarValue tag plain body
      return (withTag tag v, n)
    | depth + 1, .sequence tag items =>
      let (vs, n) ← listValue (nodeValue a limit depth) items n
      return (withTag tag (.sequence vs), n)
    | depth + 1, .mapping tag entries =>
      let (es, n) ← entriesValue (nodeValue a limit depth) [] entries n
      return (withTag tag (.mapping es), n)
    | _, _ => malformed

def read (text : String) : Reads Yaml := do
  let (node, a) ← readDocument (← tokens text)
  let (v, _) ← nodeValue a (100 * node.size) nestingLimit node 0
  return v

end Yaml

end UpdaterBootstrap
