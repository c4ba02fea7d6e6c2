import UpdaterBootstrap.Decimal.Layout
import UpdaterBootstrap.Text.Quoted

/-!
# Constants

The values an annotation argument can have, their text, and arithmetic on them.
-/

namespace UpdaterBootstrap

inductive Constant
  | text (s : String)
  | integer (n : Int64)
  | decimal (x : Float)
  | boolean (b : Bool)
  /-- A dotted name that stands for a constant declared elsewhere. -/
  | reference (name : String)
  | list (items : List Constant)
  deriving Repr, Inhabited

/-! ## Text -/

def writeInteger (n : Int) : String :=
  let digits := String.ofList (decimalDigits n.natAbs)
  if n < 0 then "-" ++ digits else digits

def writeBoolean (b : Bool) : String :=
  if b then "true" else "false"

mutual
def Constant.display : Constant → String
  | .text s => s
  | .integer n => writeInteger n.toInt
  | .decimal x => writeFloat .message x
  | .boolean b => writeBoolean b
  | .reference name => name
  | .list items => "[" ++ ", ".intercalate (displayAll items) ++ "]"
def Constant.displayAll : List Constant → List String
  | [] => []
  | c :: cs => c.display :: displayAll cs
end

def Constant.describe : Constant → String
  | .text s => "string " ++ quoteText s
  | .integer n => "integer " ++ writeInteger n.toInt
  | .decimal x => "decimal " ++ writeFloat .message x
  | .boolean b => "boolean " ++ writeBoolean b
  | .reference name => "reference " ++ name
  | .list items => "list of " ++ writeInteger items.length ++ " values"

/-! ## Arithmetic -/

inductive Operator
  | add
  | subtract
  | multiply
  | divide
  deriving DecidableEq, Repr

def Operator.symbol : Operator → Char
  | .add => '+'
  | .subtract => '-'
  | .multiply => '*'
  | .divide => '/'

inductive ArithmeticFault
  | overflow
  | divisionByZero
  | mismatch (op : Operator) (left right : Constant)
  | negation (operand : Constant)
  deriving Repr

def ArithmeticFault.message : ArithmeticFault → String
  | .overflow => "integer overflow"
  | .divisionByZero => "division by zero"
  | .mismatch op left right =>
    "cannot apply '" ++ op.symbol.toString ++ "' to " ++ left.describe ++ " and " ++ right.describe
  | .negation operand => "cannot negate " ++ operand.describe

def exactInteger (n : Int) : Except ArithmeticFault Constant :=
  if Int64.minValue.toInt ≤ n ∧ n ≤ Int64.maxValue.toInt then .ok (.integer (.ofInt n))
  else .error .overflow

def Constant.number? : Constant → Option Float
  | .integer n => some (.ofInt n.toInt)
  | .decimal x => some x
  | _ => none

def Operator.onFloats (op : Operator) (x y : Float) : Float :=
  match op with
  | .add => x + y
  | .subtract => x - y
  | .multiply => x * y
  | .divide => x / y

def foldNumbers (op : Operator) (a b : Constant) : Except ArithmeticFault Constant :=
  match a.number?, b.number? with
  | some x, some y => .ok (.decimal (op.onFloats x y))
  | _, _ => .error (.mismatch op a b)

/-- Whole quotients stay integers; the one that does not fit into 64 bits becomes a double. -/
def foldIntegers (op : Operator) (m n : Int64) : Except ArithmeticFault Constant :=
  let a := m.toInt
  let b := n.toInt
  match op with
  | .add => exactInteger (a + b)
  | .subtract => exactInteger (a - b)
  | .multiply => exactInteger (a * b)
  | .divide =>
    if b = 0 then .error .divisionByZero
    else if a.tmod b = 0 ∧ a.tdiv b ≤ Int64.maxValue.toInt then exactInteger (a.tdiv b)
    else foldNumbers .divide (.integer m) (.integer n)

def fold (op : Operator) (a b : Constant) : Except ArithmeticFault Constant :=
  match op, a, b with
  | .add, .text s, b => .ok (.text (s ++ b.display))
  | .add, .integer _, .text t | .add, .decimal _, .text t | .add, .boolean _, .text t =>
    .ok (.text (a.display ++ t))
  | op, .integer m, .integer n => foldIntegers op m n
  | op, a, b => foldNumbers op a b

def negate : Constant → Except ArithmeticFault Constant
  | .integer n => exactInteger (-n.toInt)
  | .decimal x => .ok (.decimal (-x))
  | c => .error (.negation c)

end UpdaterBootstrap
