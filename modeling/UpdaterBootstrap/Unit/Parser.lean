import UpdaterBootstrap.Unit.Lexer

/-!
# Units

A unit is an optional package, imports, annotations with constant arguments among modifiers, and a
class with an empty body. Arguments are folded to constants while they are read.
-/

namespace UpdaterBootstrap

structure Import where
  /-- The imported name; a package ends in a point and a star. -/
  path : String
  renamed? : Option String
  deriving DecidableEq, Repr

namespace Import

def wildcard : List Char := ['.', '*']

def package? (i : Import) : Option String :=
  if wildcard.isSuffixOf i.path.toList then some (.ofList (i.path.toList.dropLast.dropLast)) else none

def lastSegment (name : List Char) : List Char :=
  (name.reverse.takeWhile (· != '.')).reverse

/-- The one name the import makes visible, if it imports a single name. -/
def visibleName? (i : Import) : Option String :=
  match i.renamed? with
  | some a => some a
  | none =>
    if i.package?.isSome then none else some (.ofList (lastSegment i.path.toList))

end Import

structure AnnotationTerm where
  name : String
  arguments : List (String × Constant)
  line : Nat
  deriving Repr

structure ParsedUnit where
  package : Option String
  imports : List Import
  annotations : List AnnotationTerm
  className : String
  classLine : Nat
  deriving Repr

def positionalField : String := "value"

def modifiers : List String :=
  ["public", "protected", "private", "abstract", "final", "static", "strictfp"]

/-! ## Reading tokens -/

abbrev Parsed (α : Type) := α × List Placed

def current (ts : List Placed) : Placed :=
  ts.headD default

def isSymbolAt (c : Char) (ts : List Placed) : Bool :=
  (current ts).token == .symbol c

def isWordAt (name : String) (ts : List Placed) : Bool :=
  (current ts).token == .word name

def startsWithWord (ts : List Placed) : Bool :=
  match (current ts).token with
  | .word _ => true
  | _ => false

def unexpected {α : Type} (expected : Expected) (ts : List Placed) : Except UnitError α :=
  .error ⟨(current ts).line, .unexpected expected (current ts).token⟩

def expectSymbol (c : Char) (ts : List Placed) : Except UnitError (List Placed) :=
  if isSymbolAt c ts then .ok ts.tail else unexpected (.symbol c) ts

def readWord (ts : List Placed) : Except UnitError (Parsed String) :=
  match (current ts).token with
  | .word name => .ok (name, ts.tail)
  | _ => unexpected .identifier ts

def skipSemicolons (ts : List Placed) : List Placed :=
  ts.dropWhile (·.token == .symbol ';')

def readSegments : List Placed → String × List Placed
  | ⟨.symbol '.', _⟩ :: ⟨.word name, _⟩ :: ts =>
    let (more, rest) := readSegments ts
    ("." ++ name ++ more, rest)
  | ts => ("", ts)

def readDottedName (ts : List Placed) : Except UnitError (Parsed String) := do
  let (first, ts) ← readWord ts
  let (more, ts) := readSegments ts
  return (first ++ more, ts)

/-! ## Constants -/

def atLine {α : Type} (line : Nat) (r : Except ArithmeticFault α) : Except UnitError α :=
  r.mapError fun fault => ⟨line, .arithmetic fault⟩

def sumOperator? (ts : List Placed) : Option Operator :=
  if isSymbolAt '+' ts then some .add else if isSymbolAt '-' ts then some .subtract else none

def productOperator? (ts : List Placed) : Option Operator :=
  if isSymbolAt '*' ts then some .multiply else if isSymbolAt '/' ts then some .divide else none

mutual

/-- Sums of products; `fuel` bounds the nesting and is never used up by the tokens it is made for. -/
def readSum : Nat → List Placed → Except UnitError (Parsed Constant)
  | 0, ts => unexpected .constant ts
  | fuel + 1, ts => do
    let (left, ts) ← readProduct fuel ts
    readSumRest fuel left ts

def readSumRest : Nat → Constant → List Placed → Except UnitError (Parsed Constant)
  | 0, _, ts => unexpected .constant ts
  | fuel + 1, left, ts =>
    match sumOperator? ts with
    | none => .ok (left, ts)
    | some op => do
      let (right, rest) ← readProduct fuel ts.tail
      let value ← atLine (current ts).line (fold op left right)
      readSumRest fuel value rest

def readProduct : Nat → List Placed → Except UnitError (Parsed Constant)
  | 0, ts => unexpected .constant ts
  | fuel + 1, ts => do
    let (left, ts) ← readSigned fuel ts
    readProductRest fuel left ts

def readProductRest : Nat → Constant → List Placed → Except UnitError (Parsed Constant)
  | 0, _, ts => unexpected .constant ts
  | fuel + 1, left, ts =>
    match productOperator? ts with
    | none => .ok (left, ts)
    | some op => do
      let (right, rest) ← readSigned fuel ts.tail
      let value ← atLine (current ts).line (fold op left right)
      readProductRest fuel value rest

/-- Any number of minus signs, then at most one plus sign. -/
def readSigned : Nat → List Placed → Except UnitError (Parsed Constant)
  | 0, ts => unexpected .constant ts
  | fuel + 1, ts =>
    if isSymbolAt '-' ts then do
      let (operand, rest) ← readSigned fuel ts.tail
      let value ← atLine (current ts).line (negate operand)
      return (value, rest)
    else readPrimary fuel (if isSymbolAt '+' ts then ts.tail else ts)

def readPrimary : Nat → List Placed → Except UnitError (Parsed Constant)
  | 0, ts => unexpected .constant ts
  | fuel + 1, ts =>
    match (current ts).token with
    | .text s => .ok (.text s, ts.tail)
    | .integer n => .ok (.integer n, ts.tail)
    | .decimal x => .ok (.decimal x, ts.tail)
    | .word first =>
      match first with
      | "true" => .ok (.boolean true, ts.tail)
      | "false" => .ok (.boolean false, ts.tail)
      | _ => do
        let (name, rest) ← readDottedName ts
        return (.reference name, rest)
    | .symbol opening =>
      match opening with
      | '[' => readItems fuel ']' [] ts.tail
      | '\x7b' => readItems fuel '\x7d' [] ts.tail
      | '(' => do
        let (value, rest) ← readSum fuel ts.tail
        let rest ← expectSymbol ')' rest
        return (value, rest)
      | _ => unexpected .constant ts
    | _ => unexpected .constant ts

/-- The items up to the closing symbol, after those already read; a comma may follow the last. -/
def readItems : Nat → Char → List Constant → List Placed → Except UnitError (Parsed Constant)
  | 0, _, _, ts => unexpected .constant ts
  | fuel + 1, close, items, ts =>
    if isSymbolAt close ts then .ok (.list items, ts.tail)
    else do
      let (item, rest) ← readSum fuel ts
      let items := items ++ [item]
      if isSymbolAt ',' rest then readItems fuel close items rest.tail
      else
        let rest ← expectSymbol close rest
        return (.list items, rest)

end

/-- A constant expression. Each token is nested in at most six rules. -/
def readConstant (ts : List Placed) : Except UnitError (Parsed Constant) :=
  readSum (6 * ts.length + 6) ts

/-! ## Units -/

def readNamedArguments : Nat → List (String × Constant) → List Placed →
    Except UnitError (Parsed (List (String × Constant)))
  | 0, _, ts => unexpected .identifier ts
  | fuel + 1, arguments, ts => do
    let (field, ts) ← readWord ts
    let ts ← expectSymbol '=' ts
    let (value, ts) ← readConstant ts
    let arguments := arguments ++ [(field, value)]
    if !isSymbolAt ',' ts || isSymbolAt ')' ts.tail then
      return (arguments, if isSymbolAt ',' ts then ts.tail else ts)
    else readNamedArguments fuel arguments ts.tail

def startsNamedArgument (ts : List Placed) : Bool :=
  startsWithWord ts && isSymbolAt '=' ts.tail

def readArguments (ts : List Placed) :
    Except UnitError (Parsed (List (String × Constant))) :=
  if !isSymbolAt '(' ts then .ok ([], ts)
  else do
    let ts := ts.tail
    let (arguments, ts) ←
      if startsNamedArgument ts then readNamedArguments ts.length [] ts
      else if isSymbolAt ')' ts then .ok ([], ts)
      else do
        let (value, ts) ← readConstant ts
        .ok ([(positionalField, value)], ts)
    let ts ← expectSymbol ')' ts
    return (arguments, ts)

def readAnnotationTerm (ts : List Placed) : Except UnitError (Parsed AnnotationTerm) := do
  let line := (current ts).line
  let ts ← expectSymbol '@' ts
  let (name, ts) ← readDottedName ts
  let (arguments, ts) ← readArguments ts
  return (⟨name, arguments, line⟩, ts)

def readPackage (ts : List Placed) : Except UnitError (Parsed (Option String)) :=
  if isWordAt "package" ts then do
    let (name, ts) ← readDottedName ts.tail
    return (some name, skipSemicolons ts)
  else .ok (none, ts)

def readImport (ts : List Placed) : Except UnitError (Parsed Import) := do
  let ts := if isWordAt "static" ts then ts.tail else ts
  let (path, ts) ← readDottedName ts
  let (path, ts) ←
    if isSymbolAt '.' ts then do
      let ts ← expectSymbol '*' ts.tail
      .ok (path ++ String.ofList Import.wildcard, ts)
    else .ok (path, ts)
  let (renamed, ts) ←
    if isWordAt "as" ts then do
      let (name, ts) ← readWord ts.tail
      .ok (some name, ts)
    else .ok (none, ts)
  return (⟨path, renamed⟩, skipSemicolons ts)

def readImports : Nat → List Import → List Placed →
    Except UnitError (Parsed (List Import))
  | 0, imports, ts => .ok (imports, ts)
  | fuel + 1, imports, ts =>
    if isWordAt "import" ts then do
      let (i, ts) ← readImport ts.tail
      readImports fuel (imports ++ [i]) ts
    else .ok (imports, ts)

def isModifierAt (ts : List Placed) : Bool :=
  match (current ts).token with
  | .word name => modifiers.contains name
  | _ => false

def readAnnotations : Nat → List AnnotationTerm → List Placed →
    Except UnitError (Parsed (List AnnotationTerm))
  | 0, annotations, ts => .ok (annotations, ts)
  | fuel + 1, annotations, ts =>
    if isSymbolAt '@' ts then do
      let (a, ts) ← readAnnotationTerm ts
      readAnnotations fuel (annotations ++ [a]) ts
    else if isModifierAt ts then readAnnotations fuel annotations ts.tail
    else .ok (annotations, ts)

def readUnit (ts : List Placed) : Except UnitError ParsedUnit := do
  let ts := skipSemicolons ts
  let (package, ts) ← readPackage ts
  let (imports, ts) ← readImports ts.length [] ts
  let (annotations, ts) ← readAnnotations ts.length [] ts
  if !isWordAt "class" ts then unexpected .classDeclaration ts
  else
    let ts := ts.tail
    let classLine := (current ts).line
    let (className, ts) ← readWord ts
    let ts ← expectSymbol '\x7b' ts
    let ts ← expectSymbol '\x7d' ts
    let ts := skipSemicolons ts
    if (current ts).token == .finish then
      return ⟨package, imports, annotations, className, classLine⟩
    else unexpected .finish ts

def parseUnit (text : String) : Except UnitError ParsedUnit := do
  readUnit (← tokens text)

/-! ## A sequence of units -/

structure UnitHistory where
  /-- The class of the last unit, unless it has been forgotten. -/
  lastClass : Option String
  unitsParsed : Nat
  deriving DecidableEq, Repr

namespace UnitHistory

def empty : UnitHistory :=
  ⟨none, 0⟩

def forget (h : UnitHistory) : UnitHistory :=
  { h with lastClass := none }

/-- The outcome of a unit, and the history after it; a fault leaves the history as it was. -/
def parse (h : UnitHistory) (text : String) : Except UnitError ParsedUnit × UnitHistory :=
  match parseUnit text with
  | .ok unit => (.ok unit, ⟨some unit.className, h.unitsParsed + 1⟩)
  | .error e => (.error e, h)

end UnitHistory

end UpdaterBootstrap
