import UpdaterBootstrap.Script.Occurrence

/-!
# The first class declaration

The keyword `class` in code, neither part of a longer word nor after a point, then blanks, then an
identifier.
-/

namespace UpdaterBootstrap

structure ClassHeader where
  /-- Byte offset of the keyword. -/
  start : Nat
  /-- The blanks between keyword and name. -/
  gap : String
  name : String
  deriving DecidableEq, Repr

namespace ClassHeader

def text (h : ClassHeader) : String :=
  "class" ++ h.gap ++ h.name

def stop (h : ClassHeader) : Nat :=
  h.start + h.text.utf8ByteSize

end ClassHeader

def declaredName? (cs : List Char) : Option (List Char × List Char) :=
  let gap := cs.takeWhile isBlank
  let name := identifier (cs.dropWhile isBlank)
  if gap.isEmpty || name.isEmpty then none else some (gap, name)

def classHeaderFrom (offset : Nat) (inWord : Bool) : List Marked → Option ClassHeader
  | [] => none
  | (c, code) :: ms =>
    let keyword := c == 'c' && (ms.take 4).map Prod.fst == "lass".toList
    let header :=
      if code && keyword && !inWord then declaredName? ((ms.drop 4).map Prod.fst) else none
    match header with
    | some (gap, name) => some ⟨offset, .ofList gap, .ofList name⟩
    | none => classHeaderFrom (offset + c.utf8Size) (isIdentPart c || c == '.') ms

def findClassHeader (source : String) : Option ClassHeader :=
  classHeaderFrom 0 false (marked source.toList)

end UpdaterBootstrap
