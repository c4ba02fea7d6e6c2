import UpdaterBootstrap.Yaml.Token

/-!
# Scalars as they are written

Readers of plain, quoted and block scalars. Each takes the text from the scalar's first character on
and says how many characters belong to it.
-/

namespace UpdaterBootstrap

namespace Yaml

def nextColumn (column : Nat) (c : Char) : Nat :=
  if isBreak c then 0 else column + 1

/-! ## Plain scalars -/

structure PlainText where
  text : List Char
  /-- The characters taken, the gap after the last word included. -/
  taken : Nat
  /-- Whether the gap after the last word has a break. -/
  endsLine : Bool
  deriving DecidableEq, Repr

def isFlowIndicator (c : Char) : Bool :=
  c == ',' || c == '[' || c == ']' || c == '\x7b' || c == '\x7d'

def stopsPlain (flow : Bool) (c : Char) (next : Option Char) : Bool :=
  (c == ':' && endsWord next) || (flow && isFlowIndicator c)

/-- A plain scalar from the middle on: `gap` is what has been read since its last word. -/
def plainFrom (flow : Bool) (indent : Nat) (gap : Gap) (started : Bool) (column : Nat) :
    List Char → Reads PlainText
  | [] => .ok ⟨[], 0, gap.hasBreak⟩
  | c :: cs =>
    let stop : Reads PlainText := .ok ⟨[], 0, gap.hasBreak⟩
    let step := fun (r : PlainText) => { r with taken := r.taken + 1 }
    if isSpaceOrTab c then
      if gap.hasBreak && column < indent && c == '\t' then malformed
      else (plainFrom flow indent (gap.blank c) started (column + 1) cs).map step
    else if isBreak c then (plainFrom flow indent (gap.feed c) started 0 cs).map step
    else
      let fresh := !started || !gap.isNone
      if started && !gap.isNone && !flow && column < indent then stop
      else if column == 0 && startsDocumentMark (c :: cs) then stop
      else if fresh && c == '#' then stop
      else if flow && c == ':' && cs.head?.any (fun d => d == '?' || isFlowIndicator d) then malformed
      else if stopsPlain flow c cs.head? then stop
      else do
        let r ← plainFrom flow indent .none true (column + 1) cs
        return { r with text := gap.text ++ c :: r.text, taken := r.taken + 1 }

/-! ## Quoted scalars -/

/-- The character an escape stands for, and its length after the backslash. -/
def escape? : List Char → Option (Char × Nat)
  | [] => none
  | e :: cs =>
    let code := fun (n : Nat) =>
      let digits := cs.take n
      if digits.length == n && digits.all isHexDigit && (hexNumber digits).isValidChar then
        some (Char.ofNat (hexNumber digits), n + 1)
      else none
    match e with
    | '0' => some ('\x00', 1)
    | 'a' => some ('\x07', 1)
    | 'b' => some ('\x08', 1)
    | 't' | '\t' => some ('\t', 1)
    | 'n' => some ('\n', 1)
    | 'v' => some ('\x0b', 1)
    | 'f' => some ('\x0c', 1)
    | 'r' => some ('\r', 1)
    | 'e' => some ('\x1b', 1)
    | ' ' | '"' | '/' | '\\' => some (e, 1)
    | 'N' => some ('\x85', 1)
    | '_' => some ('\xa0', 1)
    | 'L' => some ('\u2028', 1)
    | 'P' => some ('\u2029', 1)
    | 'x' => code 2
    | 'u' => code 4
    | 'U' => code 8
    | _ => none

/-- A quoted scalar after its first quote and `skip` characters that have been read, up to and with
its last quote. -/
def quotedFrom (quote : Char) (gap : Gap) (column skip : Nat) :
    List Char → Reads (List Char × Nat)
  | [] => malformed
  | c :: cs =>
    let column' := nextColumn column c
    match skip with
    | n + 1 => (quotedFrom quote gap column' n cs).map fun (t, k) => (t, k + 1)
    | 0 =>
      if isSpaceOrTab c then (quotedFrom quote (gap.blank c) column' 0 cs).map fun (t, k) => (t, k + 1)
      else if isBreak c then (quotedFrom quote (gap.feed c) column' 0 cs).map fun (t, k) => (t, k + 1)
      else if column == 0 && startsDocumentMark (c :: cs) then malformed
      else
        let add := fun (own : List Char) (r : List Char × Nat) => (gap.text ++ own ++ r.1, r.2 + 1)
        if c == quote then
          if quote == '\'' && cs.head? == some '\'' then
            (quotedFrom quote .none column' 1 cs).map (add ['\''])
          else .ok (gap.text, 1)
        else if quote == '"' && c == '\\' then
          if cs.head?.any isBreak then
            (quotedFrom quote (.lines none []) column' 1 cs).map (add [])
          else match escape? cs with
            | some (d, n) => (quotedFrom quote .none column' n cs).map (add [d])
            | none => malformed
        else (quotedFrom quote .none column' 0 cs).map (add [c])

/-! ## Block scalars -/

inductive Chomping
  | clip
  | strip
  | keep
  deriving DecidableEq, Repr

/-- Signs after the mark of a block scalar: chomping, the indentation if it is given, and the
number of characters. -/
def blockHeader? (cs : List Char) : Option (Chomping × Option Nat × Nat) :=
  let chomp? := fun (c : Char) =>
    if c == '+' then some Chomping.keep else if c == '-' then some .strip else none
  let digit := fun (c : Char) => c.toNat - '0'.toNat
  match cs with
  | [] => some (.clip, none, 0)
  | c :: rest =>
    match chomp? c with
    | some chomp =>
      match rest.head?.filter Char.isDigit with
      | some d => if d == '0' then none else some (chomp, some (digit d), 2)
      | none => some (chomp, none, 1)
    | none =>
      if c.isDigit then
        if c == '0' then none
        else match rest.head?.bind chomp? with
          | some chomp => some (chomp, some (digit c), 2)
          | none => some (.clip, some (digit c), 1)
      else some (.clip, none, 0)

/-- The characters of blanks and a comment to the end of a line, its break included; nothing if the
line holds anything else. -/
def lineRest? (cs : List Char) : Option Nat :=
  let blanks := cs.takeWhile isSpaceOrTab
  let rest := cs.dropWhile isSpaceOrTab
  let comment := if rest.head? == some '#' then rest.takeWhile (!isBreak ·) else []
  match rest.drop comment.length with
  | [] => some (blanks.length + comment.length)
  | c :: _ => if isBreak c then some (blanks.length + comment.length + 1) else none

def splitLines : List Char → List (List Char × Option Char)
  | [] => [([], none)]
  | c :: cs =>
    if isBreak c then ([], some c) :: splitLines cs
    else match splitLines cs with
      | [] => [([c], none)]
      | (l, b) :: ls => (c :: l, b) :: ls

/-- The greatest number of spaces before the first line with content, that line included. -/
def detectIndent (most : Nat) : List (List Char × Option Char) → Reads Nat
  | [] => .ok most
  | (line, feed) :: ls =>
    let lead := (line.takeWhile (· == ' ')).length
    match line.drop lead with
    | '\t' :: _ => malformed
    | [] => if feed.isSome then detectIndent (max most lead) ls else .ok (max most lead)
    | _ => .ok (max most lead)

structure BlockText where
  text : List Char
  /-- The break after the last line. -/
  lastBreak : List Char
  /-- The breaks of the empty lines after it. -/
  trailing : List Char
  /-- Whether the last line begins with a blank. -/
  afterBlank : Bool
  taken : Nat
  deriving DecidableEq, Repr

namespace BlockText

/-- Adds a line with content. Unless the scalar is literal, a single line feed between two lines that
do not begin with a blank is folded. -/
def addLine (b : BlockText) (isLiteral : Bool) (line : List Char) : BlockText :=
  let blank := line.head?.any isSpaceOrTab
  let folds := !isLiteral && b.lastBreak == ['\n'] && !b.afterBlank && !blank
  let join := if folds then (if b.trailing.isEmpty then [' '] else []) else b.lastBreak
  { b with text := b.text ++ join ++ b.trailing ++ line, trailing := [], afterBlank := blank }

def finish (b : BlockText) (chomp : Chomping) : List Char :=
  match chomp with
  | .strip => b.text
  | .clip => b.text ++ b.lastBreak
  | .keep => b.text ++ b.lastBreak ++ b.trailing

end BlockText

def blockLines (isLiteral : Bool) (indent : Nat) (b : BlockText) :
    List (List Char × Option Char) → Reads BlockText
  | [] => .ok b
  | (line, feed) :: ls =>
    let lead := min indent (line.takeWhile (· == ' ')).length
    let content := line.drop lead
    if lead < indent && content.head? == some '\t' then malformed
    else if content.isEmpty then
      match feed with
      | some c =>
        blockLines isLiteral indent
          { b with trailing := b.trailing ++ [c], taken := b.taken + lead + 1 } ls
      | none => .ok { b with taken := b.taken + lead }
    else if lead < indent then .ok { b with taken := b.taken + lead }
    else
      let b := b.addLine isLiteral content
      match feed with
      | some c =>
        blockLines isLiteral indent { b with lastBreak := [c], taken := b.taken + line.length + 1 } ls
      | none => .ok { b with lastBreak := [], taken := b.taken + line.length }

/-- A block scalar after its mark; `parent` is the least column its lines may have. -/
def readBlock (isLiteral : Bool) (parent : Nat) (cs : List Char) : Reads (List Char × Nat) :=
  match blockHeader? cs with
  | none => malformed
  | some (chomp, given, n) =>
    match lineRest? (cs.drop n) with
    | none => malformed
    | some m => do
      let lines := splitLines (cs.drop (n + m))
      let indent ← match given with
        | some d => pure (parent - 1 + d)
        | none => (detectIndent 0 lines).map fun k => max (max k parent) 1
      let b ← blockLines isLiteral indent ⟨[], [], [], false, n + m⟩ lines
      return (b.finish chomp, b.taken)

end Yaml

end UpdaterBootstrap
