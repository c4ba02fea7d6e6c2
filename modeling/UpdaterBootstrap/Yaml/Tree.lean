import UpdaterBootstrap.Decimal.Layout
import UpdaterBootstrap.Text.Quoted
import UpdaterBootstrap.Unit.Constant

/-!
# YAML trees

The values that YAML texts denote. Mappings keep the order of their entries.
-/

namespace UpdaterBootstrap

inductive Yaml
  | null
  | boolean (b : Bool)
  | integer (n : Int)
  | decimal (x : Float)
  | text (s : String)
  | sequence (items : List Yaml)
  | mapping (entries : List (Yaml × Yaml))
  | tagged (tag : String) (value : Yaml)
  deriving Repr, Inhabited

namespace Yaml

/-! ## Equality

Two values are the same key if they are equal, where mappings are compared without their order, a
number that is not one equals itself, and both zeros are equal. -/

def sameDecimal (x y : Float) : Bool :=
  x == y || (x != x && y != y)

/-- A tag is compared without its first exclamation mark. -/
def bareTag (tag : String) : List Char :=
  match tag.toList with
  | '!' :: cs => if cs.isEmpty then ['!'] else cs
  | cs => cs

mutual

def same : Yaml → Yaml → Bool
  | .null, .null => true
  | .boolean a, .boolean b => a == b
  | .integer a, .integer b => a == b
  | .decimal x, .decimal y => sameDecimal x y
  | .text s, .text t => s == t
  | .sequence xs, .sequence ys => sameAll xs ys
  | .mapping xs, .mapping ys => xs.length == ys.length && sameEntries xs ys
  | .tagged t x, .tagged u y => bareTag t == bareTag u && same x y
  | _, _ => false

def sameAll : List Yaml → List Yaml → Bool
  | [], [] => true
  | x :: xs, y :: ys => same x y && sameAll xs ys
  | _, _ => false

def sameEntries : List (Yaml × Yaml) → List (Yaml × Yaml) → Bool
  | [], _ => true
  | (k, v) :: xs, ys => ys.any (fun e => same k e.1 && same v e.2) && sameEntries xs ys

end

def find? (key : String) : List (Yaml × Yaml) → Option Yaml
  | [] => none
  | (.text s, v) :: es => if s == key then some v else find? key es
  | _ :: es => find? key es

/-! ## In messages -/

mutual

def describe : Yaml → String
  | .null => "Null"
  | .boolean b => "Bool(" ++ writeBoolean b ++ ")"
  | .integer n => "Number(" ++ writeInteger n ++ ")"
  | .decimal x => "Number(" ++ writeFloat .manifest x ++ ")"
  | .text s => "String(" ++ quoteText s ++ ")"
  | .sequence items => "Sequence [" ++ ", ".intercalate (describeAll items) ++ "]"
  | .mapping entries => "Mapping \x7b" ++ ", ".intercalate (describeEntries entries) ++ "\x7d"
  | .tagged tag value =>
    "TaggedValue \x7b tag: !" ++ String.ofList (bareTag tag) ++ ", value: " ++ describe value ++ " \x7d"

def describeAll : List Yaml → List String
  | [] => []
  | v :: vs => describe v :: describeAll vs

/-- Keys that are plain values stand without the name of their kind. -/
def describeEntries : List (Yaml × Yaml) → List String
  | [] => []
  | (k, v) :: es =>
    let key := match k with
      | .boolean b => writeBoolean b
      | .integer n => writeInteger n
      | .decimal x => writeFloat .manifest x
      | .text s => quoteText s
      | k => describe k
    (key ++ ": " ++ describe v) :: describeEntries es

end

end Yaml

end UpdaterBootstrap
