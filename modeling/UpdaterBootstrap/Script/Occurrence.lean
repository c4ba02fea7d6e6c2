import UpdaterBootstrap.Script.Region

/-!
# Annotations in a text

A text is cut into pieces: annotations, each with its argument list, and the single characters
between them. An annotation is an `@` in code that does not follow a point, a dotted name other
than `interface`, and an argument list on the same line if one is there. Annotations among the
arguments are part of the enclosing one.
-/

namespace UpdaterBootstrap

/-! ## Argument lists -/

/-- The text up to the parenthesis that closes the `depth + 1` open ones; only parentheses in code
count. -/
def closing? (depth : Nat) : List Marked → Option (List Char)
  | [] => none
  | (c, code) :: ms =>
    if code && c == '(' then (closing? (depth + 1) ms).map (c :: ·)
    else if code && c == ')' then
      match depth with
      | 0 => some [c]
      | d + 1 => (closing? d ms).map (c :: ·)
    else (closing? depth ms).map (c :: ·)

/-- The argument list after a name, with the spaces and tabs before it; empty if there is none or
it is not closed. -/
def argumentList : List Marked → List Char
  | [] => []
  | (c, code) :: ms =>
    if c == ' ' || c == '\t' then
      match argumentList ms with
      | [] => []
      | d :: ds => c :: d :: ds
    else if c == '(' && code then
      match closing? 0 ms with
      | some rest => c :: rest
      | none => []
    else []

/-! ## Pieces -/

def annotation? (afterPoint : Bool) : List Marked → Option (List Char × List Char)
  | [] => none
  | (c, code) :: ms =>
    if c == '@' && code && !afterPoint then
      let name := dottedName (ms.map Prod.fst)
      if name.isEmpty || name == "interface".toList then none
      else some (name, argumentList (ms.drop name.length))
    else none

inductive Piece
  | plain (c : Char)
  | occurrence (name arguments : List Char)
  deriving DecidableEq, Repr

def Piece.text : Piece → List Char
  | .plain c => [c]
  | .occurrence name arguments => '@' :: name ++ arguments

/-- Pieces of a marked text after `skip` characters that belong to the piece before. -/
def piecesFrom (skip : Nat) (afterPoint : Bool) : List Marked → List Piece
  | [] => []
  | (c, code) :: ms =>
    match skip with
    | n + 1 => piecesFrom n (c == '.') ms
    | 0 =>
      match annotation? afterPoint ((c, code) :: ms) with
      | some (name, arguments) =>
        .occurrence name arguments :: piecesFrom (name.length + arguments.length) false ms
      | none => .plain c :: piecesFrom 0 (c == '.') ms

def pieces (cs : List Char) : List Piece :=
  piecesFrom 0 false (marked cs)

/-! ## Occurrences -/

structure Occurrence where
  name : String
  /-- The argument list with the blanks before it, or nothing. -/
  arguments : String
  /-- Byte offset of the `@`. -/
  start : Nat
  deriving DecidableEq, Repr

namespace Occurrence

def text (o : Occurrence) : String :=
  "@" ++ o.name ++ o.arguments

def stop (o : Occurrence) : Nat :=
  o.start + o.text.utf8ByteSize

def hasArguments (o : Occurrence) : Bool :=
  !o.arguments.isEmpty

end Occurrence

def occurrencesFrom (offset : Nat) : List Piece → List Occurrence
  | [] => []
  | p :: ps =>
    let rest := occurrencesFrom (offset + byteLength p.text) ps
    match p with
    | .plain _ => rest
    | .occurrence name arguments => ⟨.ofList name, .ofList arguments, offset⟩ :: rest

def findAnnotations (source : String) : List Occurrence :=
  occurrencesFrom 0 (pieces source.toList)

end UpdaterBootstrap
