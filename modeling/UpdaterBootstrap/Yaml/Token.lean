import UpdaterBootstrap.Yaml.Style

/-!
# YAML tokens

Marks of structure and the scalars between them. Any reason why a text is no YAML is one fault.
-/

namespace UpdaterBootstrap

namespace Yaml

/-- The text is not YAML, or a tree cannot hold what it denotes. -/
inductive Malformed
  | malformed
  deriving DecidableEq, Repr

abbrev Reads (α : Type) := Except Malformed α

def malformed {α : Type} : Reads α :=
  .error .malformed

/-- The characters of a tag; escaped bytes that encode no character leave a place without one. -/
abbrev TagText := List (Option Char)

inductive Token
  | version
  | tagDirective (handle : List Char) (expansion : TagText)
  | documentStart
  | documentEnd
  | blockSequenceStart
  | blockMappingStart
  | blockEnd
  | flowSequenceStart
  | flowSequenceEnd
  | flowMappingStart
  | flowMappingEnd
  | blockEntry
  | flowEntry
  | key
  | value
  | reference (name : List Char)
  | anchor (name : List Char)
  | tag (handle : List Char) (suffix : TagText)
  | scalar (plain : Bool) (text : List Char)
  | streamEnd
  deriving DecidableEq, Repr, Inhabited

/-! ## Characters -/

/-- Line ends of every kind but the two Unicode separators become line feeds. -/
def unifyBreaks : List Char → List Char
  | [] => []
  | '\r' :: '\n' :: cs => '\n' :: unifyBreaks cs
  | c :: cs => (if c == '\r' || c == '\x85' then '\n' else c) :: unifyBreaks cs

def isReadable (c : Char) : Bool :=
  let n := c.toNat
  c == '\t' || c == '\n' || c == '\r' || (0x20 ≤ n && n ≤ 0x7E) || n == 0x85 ||
    (0xA0 ≤ n && n != 0xFFFE && n != 0xFFFF)

def byteOrderMark : Char := '\ufeff'

def isWordChar (c : Char) : Bool :=
  c.isAlphanum || c == '-' || c == '_'

def isDocumentMark (mark : Char) (cs : List Char) : Bool :=
  cs.take 3 == [mark, mark, mark] && endsWord (cs.drop 3).head?

def startsDocumentMark (cs : List Char) : Bool :=
  isDocumentMark '-' cs || isDocumentMark '.' cs

/-! ## Gaps between words -/

/-- Blanks and breaks since the last word of a scalar of several lines. -/
inductive Gap
  | blanks (cs : List Char)
  /-- The first break, absent if it was escaped, and the breaks after it. -/
  | lines (first : Option Char) (more : List Char)
  deriving DecidableEq, Repr

namespace Gap

def none : Gap :=
  .blanks []

def isNone (g : Gap) : Bool :=
  g == none

def hasBreak : Gap → Bool
  | .blanks _ => false
  | .lines .. => true

def blank (c : Char) : Gap → Gap
  | .blanks cs => .blanks (cs ++ [c])
  | g => g

def feed (c : Char) : Gap → Gap
  | .blanks _ => .lines (some c) []
  | .lines first more => .lines first (more ++ [c])

def text : Gap → List Char
  | .blanks cs => cs
  | .lines (some '\n') [] => [' ']
  | .lines (some '\n') more => more
  | .lines first more => first.toList ++ more

end Gap

end Yaml

end UpdaterBootstrap
