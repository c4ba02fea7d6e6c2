import UpdaterBootstrap.Text.Hexadecimal
import UpdaterBootstrap.Yaml.Scalar

/-!
# How a text is written in YAML

A text is written plain if it reads back as itself, else between single quotes, else between double
quotes with escapes; a text of several lines is written as a literal block if it can be.
-/

namespace UpdaterBootstrap

namespace Yaml

/-! ## Characters -/

def isBreak (c : Char) : Bool :=
  c == '\n' || c == '\r' || c == '\x85' || c == '\u2028' || c == '\u2029'

def isSpaceOrTab (c : Char) : Bool :=
  c == ' ' || c == '\t'

def endsWord : Option Char → Bool
  | none => true
  | some c => isSpaceOrTab c || isBreak c || c == '\x00'

def isPrintable (c : Char) : Bool :=
  let n := c.toNat
  c == '\n' || (0x20 ≤ n && n ≤ 0x7E) ||
    (0xA0 ≤ n && n != 0xFEFF && n != 0xFFFE && n != 0xFFFF)

/-! ## Analysis -/

def anyNeighbours (r : Char → Char → Bool) : List Char → Bool
  | c :: d :: cs => r c d || anyNeighbours r (d :: cs)
  | _ => false

def startsLikeDocument (cs : List Char) : Bool :=
  cs.take 3 == "---".toList || cs.take 3 == "...".toList

/-- Whether the first character, followed by `next`, has a meaning of its own. -/
def isIndicator (c : Char) (next : Option Char) : Bool :=
  "#,[]\x7b\x7d&*!|>'\"%@`".toList.contains c ||
    ((c == '-' || c == '?' || c == ':') && endsWord next)

/-- Whether a later part of the text would end a plain scalar: a colon at the end of a word, or a
hash mark at the start of one. -/
def endsPlain : List Char → Bool
  | [] => false
  | c :: cs =>
    (cs.head? == some '#' && endsWord (some c)) ||
      (cs.head? == some ':' && endsWord cs.tail.head?) || endsPlain cs

structure TextTraits where
  /-- Has a line break of any kind. -/
  multiline : Bool
  plainAllowed : Bool
  singleQuotedAllowed : Bool
  literalAllowed : Bool
  deriving DecidableEq, Repr

def analyze (cs : List Char) : TextTraits :=
  match cs with
  | [] => ⟨false, true, true, false⟩
  | first :: rest =>
    let last := cs.getLast?
    let multiline := cs.any isBreak
    let special := !cs.all isPrintable || anyNeighbours (fun c d => c == ' ' && isBreak d) cs
    let breakSpace := anyNeighbours (fun c d => isBreak c && d == ' ') cs
    let edgeSpace := first == ' ' || last == some ' '
    let indicators := startsLikeDocument cs || isIndicator first rest.head? || endsPlain cs
    { multiline
      plainAllowed := !(special || breakSpace || edgeSpace || multiline || indicators)
      singleQuotedAllowed := !(special || breakSpace)
      literalAllowed := !(special || last == some ' ') }

/-! ## Choice -/

inductive TextStyle
  | plain
  | singleQuoted
  | doubleQuoted
  | literal
  deriving DecidableEq, Repr

def textStyle (s : String) : TextStyle :=
  let cs := s.toList
  let traits := analyze cs
  if cs.contains '\n' then
    if traits.literalAllowed then .literal else .doubleQuoted
  else if isPlainText s && traits.plainAllowed then .plain
  else if traits.singleQuotedAllowed then .singleQuoted
  else .doubleQuoted

/-! ## Text -/

def doubleQuotedChar (c : Char) : List Char :=
  let short := fun (d : Char) => ['\\', d]
  if c == '"' || c == '\\' then short c
  else if isPrintable c && !isBreak c then [c]
  else match c with
    | '\x00' => short '0'
    | '\x07' => short 'a'
    | '\x08' => short 'b'
    | '\t' => short 't'
    | '\n' => short 'n'
    | '\x0b' => short 'v'
    | '\x0c' => short 'f'
    | '\r' => short 'r'
    | '\x1b' => short 'e'
    | '\x85' => short 'N'
    | '\u2028' => short 'L'
    | '\u2029' => short 'P'
    | c =>
      if c.toNat ≤ 0xFF then '\\' :: 'x' :: hexDigits 2 c.toNat
      else if c.toNat ≤ 0xFFFF then '\\' :: 'u' :: hexDigits 4 c.toNat
      else '\\' :: 'U' :: hexDigits 8 c.toNat

def doubleQuoted (cs : List Char) : List Char :=
  '"' :: cs.flatMap doubleQuotedChar ++ ['"']

/-- Text with the first character of each line but the first indented; `fresh` says whether the
next character begins a line. Breaks are written as they are. -/
def indentLines (indent : Nat) (fresh : Bool) : List Char → List Char
  | [] => []
  | c :: cs =>
    if isBreak c then c :: indentLines indent true cs
    else (if fresh then List.replicate indent ' ' else []) ++ c :: indentLines indent false cs

def singleQuoted (indent : Nat) (cs : List Char) : List Char :=
  let doubled := cs.flatMap fun c => if c == '\'' then ['\'', '\''] else [c]
  let close := if cs.getLast?.any isBreak then List.replicate indent ' ' else []
  '\'' :: indentLines indent false doubled ++ close ++ ['\'']

/-- What follows the bar of a literal block: a digit if its first line begins with a blank, and how
its last line ends. -/
def literalHeader (cs : List Char) : List Char :=
  let hint := if cs.head?.any fun c => c == ' ' || isBreak c then ['2'] else []
  let chomp := match cs.reverse with
    | [] => ['-']
    | [c] => if isBreak c then ['+'] else ['-']
    | c :: d :: _ => if !isBreak c then ['-'] else if isBreak d then ['+'] else []
  hint ++ chomp

def literal (indent : Nat) (cs : List Char) : List Char :=
  '|' :: literalHeader cs ++ '\n' :: indentLines indent true cs

def writeText (indent : Nat) (s : String) : List Char × Bool :=
  let cs := s.toList
  match textStyle s with
  | .plain => (cs, false)
  | .singleQuoted => (singleQuoted indent cs, false)
  | .doubleQuoted => (doubleQuoted cs, false)
  | .literal => (literal indent cs, cs.getLast?.any isBreak)

/-- Whether a text may stand before a colon without a question mark in front of it. -/
def isSimpleKey (s : String) : Bool :=
  !(analyze s.toList).multiline && s.utf8ByteSize ≤ 128

end Yaml

end UpdaterBootstrap
