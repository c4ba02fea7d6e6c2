import UpdaterBootstrap.Toml.Quoted
import UpdaterBootstrap.Toml.Scalar

/-!
# Reading TOML

The table of a text: lines that give a key its value, or a header for the lines after it.
-/

namespace UpdaterBootstrap

namespace Toml

/-! ## Gaps -/

def skipBlanks (cs : List Char) : List Char :=
  cs.dropWhile isSpaceOrTab

def skipGap (inComment : Bool) : List Char → Option (List Char)
  | [] => some []
  | '\n' :: cs => skipGap false cs
  | '\r' :: '\n' :: cs => skipGap false cs
  | c :: cs =>
    if inComment then if isForbidden c then none else skipGap true cs
    else if isSpaceOrTab c then skipGap false cs
    else if c == '#' then skipGap true cs
    else some (c :: cs)

def skipLineEnd (inComment : Bool) : List Char → Option (List Char)
  | [] => some []
  | '\n' :: cs => some cs
  | '\r' :: '\n' :: cs => some cs
  | c :: cs =>
    if inComment then if isForbidden c then none else skipLineEnd true cs
    else if isSpaceOrTab c then skipLineEnd false cs
    else if c == '#' then skipLineEnd true cs
    else none

def nestingLimit : Nat := 80

/-! ## Keys -/

def isBareKey (c : Char) : Bool :=
  c.isAlphanum || c == '-' || c == '_'

def readSimpleKey (cs : List Char) : TextRead :=
  match cs with
  | '"' :: '"' :: '"' :: _ | '\'' :: '\'' :: '\'' :: _ => none
  | '"' :: _ | '\'' :: _ => quoted? cs
  | _ =>
    let key := cs.takeWhile isBareKey
    if key.isEmpty then none else some (key, cs.drop key.length)

/-- A key: the keys before its last dot, the last one, and the rest after blanks. -/
def readKeyWith : Nat → List Char → Option (List String × String × List Char)
  | 0, _ => none
  | fuel + 1, cs => do
    let (key, cs) ← readSimpleKey cs
    match skipBlanks cs with
    | '.' :: cs =>
      let (path, last, cs) ← readKeyWith fuel (skipBlanks cs)
      return (.ofList key :: path, last, cs)
    | cs => return ([], .ofList key, cs)

def readKey (cs : List Char) : Option (List String × String × List Char) :=
  (readKeyWith (cs.length + 1) cs).filter fun (path, _, _) => path.length < nestingLimit

/-! ## Values -/

def isScalarChar (c : Char) : Bool :=
  c.isAlphanum || c == '+' || c == '-' || c == '_' || c == '.' || c == ':'

/-- The characters of an unquoted value. A single space may stand between a date and a time. -/
def scalarText (cs : List Char) : List Char :=
  let first := cs.takeWhile isScalarChar
  match dateRest? first, cs.drop first.length with
  | some [], ' ' :: rest =>
    let time := rest.takeWhile isScalarChar
    if (timeRest? time).isSome then first ++ ' ' :: time else first
  | _, _ => first

mutual
def readValue : Nat → Nat → List Char → Option (Toml × List Char)
  | 0, _, _ => none
  | fuel + 1, depth, cs =>
    match cs with
    | '"' :: _ | '\'' :: _ => (quoted? cs).map fun (body, rest) => (.text (.ofList body), rest)
    | '[' :: cs =>
      match depth with
      | 0 => none
      | depth + 1 => (readElements fuel depth cs).map fun (items, rest) => (.array items, rest)
    | '\x7b' :: cs =>
      match depth with
      | 0 => none
      | depth + 1 => (readFields fuel depth [] cs).map fun (es, rest) =>
          (.table (itemsToToml es), rest)
    | _ =>
      let written := scalarText cs
      (scalar? written).map fun v => (v, cs.drop written.length)
def readElements : Nat → Nat → List Char → Option (List Toml × List Char)
  | 0, _, _ => none
  | fuel + 1, depth, cs => do
    match ← skipGap false cs with
    | ']' :: cs => return ([], cs)
    | cs =>
      let (v, cs) ← readValue fuel depth cs
      match ← skipGap false cs with
      | ',' :: cs =>
        let (vs, cs) ← readElements fuel depth cs
        return (v :: vs, cs)
      | ']' :: cs => return ([v], cs)
      | _ => none
def readFields : Nat → Nat → Items → List Char → Option (Items × List Char)
  | 0, _, _, _ => none
  | fuel + 1, depth, es, cs => do
    match ← skipGap false cs with
    | '\x7d' :: cs => return (es, cs)
    | cs =>
      let (path, key, cs) ← readKey cs
      let cs := skipBlanks (← after? '=' cs)
      let (v, cs) ← readValue fuel depth cs
      let es ← es.define key v path
      match ← skipGap false cs with
      | ',' :: cs => readFields fuel depth es cs
      | '\x7d' :: cs => return (es, cs)
      | _ => none
end

/-! ## Documents -/

/-- The lines of a document, given the table so far and the path of the header in force. -/
def readLines : Nat → Items → List String → List Char → Option Items
  | 0, _, _, _ => none
  | fuel + 1, es, header, cs => do
    match ← skipGap false cs with
    | [] => return es
    | '[' :: '[' :: cs =>
      let (path, key, cs) ← readKey (skipBlanks cs)
      let cs ← skipLineEnd false (← after? ']' (← after? ']' cs))
      readLines fuel (← es.within (Items.openElement key) path) (path ++ [key]) cs
    | '[' :: cs =>
      let (path, key, cs) ← readKey (skipBlanks cs)
      let cs ← skipLineEnd false (← after? ']' cs)
      readLines fuel (← es.within (Items.openTable key) path) (path ++ [key]) cs
    | cs =>
      let (path, key, cs) ← readKey cs
      let cs := skipBlanks (← after? '=' cs)
      let (v, cs) ← readValue (cs.length + 1) nestingLimit cs
      readLines fuel (← es.within (Items.define key v path) header) header (← skipLineEnd false cs)

def read (s : String) : Option (List (String × Toml)) :=
  let cs := match s.toList with
    | '\uFEFF' :: cs => cs
    | cs => cs
  (readLines (cs.length + 1) [] [] cs).map itemsToToml

end Toml

end UpdaterBootstrap
