import UpdaterBootstrap.Annotation.Kind
import UpdaterBootstrap.Script.Occurrence

/-!
# Stripping the recognized annotations

The annotations of the two kinds are cut out. A line that only blanks are left of disappears, or
stays as an empty line if the line count is kept. A line feed inside an annotation is kept only with
the line count.
-/

namespace UpdaterBootstrap

def isRecognized (name : List Char) : Bool :=
  (AnnotationKind.ofName? (.ofList name)).isSome

abbrev Cut := Char × Bool

def Piece.cuts (p : Piece) : List Cut :=
  let removed := match p with
    | .plain _ => false
    | .occurrence name _ => isRecognized name
  p.text.map (·, removed)

def cuts (cs : List Char) : List Cut :=
  (pieces cs).flatMap Piece.cuts

/-- A line without its line feed; `feed` says whether that is cut out, if there is one. -/
structure CutLine where
  content : List Cut
  feed : Option Bool
  deriving DecidableEq, Repr

def cutLines : List Cut → List CutLine
  | [] => []
  | (c, removed) :: cs =>
    if c == '\n' then ⟨[], some removed⟩ :: cutLines cs
    else match cutLines cs with
      | [] => [⟨[(c, removed)], none⟩]
      | l :: ls => ⟨(c, removed) :: l.content, l.feed⟩ :: ls

namespace CutLine

def isTouched (l : CutLine) : Bool :=
  l.content.any (·.2) || l.feed == some true

def kept (l : CutLine) : List Char :=
  (l.content.filter fun c => !c.2).map Prod.fst

def feedText (l : CutLine) : List Char :=
  if l.feed.isSome then ['\n'] else []

def rest (keepLineCount : Bool) (l : CutLine) : List Char :=
  if !l.isTouched then l.content.map Prod.fst ++ l.feedText
  else
    let blank := l.kept.all isAsciiBlank
    let content := if blank then [] else l.kept
    let feed := if keepLineCount || (!blank && l.feed != some true) then l.feedText else []
    content ++ feed

end CutLine

def stripChars (keepLineCount : Bool) (cs : List Char) : List Char :=
  (cutLines (cuts cs)).flatMap (CutLine.rest keepLineCount)

def stripAnnotations (source : String) (keepLineCount : Bool) : String :=
  .ofList (stripChars keepLineCount source.toList)

end UpdaterBootstrap
