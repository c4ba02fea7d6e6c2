import UpdaterBootstrap.Yaml.ScalarText
import UpdaterBootstrap.Yaml.Tag

/-!
# Tokens of a YAML text

Indentation is turned into tokens for the start and end of block collections. A key that is not
marked is known only by the colon after it: its tokens are recorded with the number of the token they
precede, and put in their places at the end.
-/

namespace UpdaterBootstrap

namespace Yaml

/-! ## State -/

structure Cursor where
  rest : List Char
  index : Nat
  line : Nat
  column : Nat
  deriving Repr

def Cursor.advance (k : Cursor) : Nat → Cursor
  | 0 => k
  | n + 1 =>
    match k.rest with
    | [] => k
    | c :: cs =>
      let k : Cursor :=
        if isBreak c then ⟨cs, k.index + 1, k.line + 1, 0⟩
        else ⟨cs, k.index + 1, k.line, k.column + 1⟩
      k.advance n

/-- A token that may turn out to begin a key, because a colon follows. -/
structure PossibleKey where
  /-- Whether nothing but a key may stand here. -/
  required : Bool
  token : Nat
  index : Nat
  line : Nat
  column : Nat
  deriving Repr

structure Lexing where
  cursor : Cursor
  tokens : List Token
  /-- Tokens to be put in front of the token with a number. -/
  inserted : List (Nat × List Token)
  /-- Columns of the open block collections, the innermost first. -/
  columns : List Nat
  flowLevel : Nat
  keyAllowed : Bool
  /-- The possible key of each flow level, the innermost first. -/
  keys : List (Option PossibleKey)
  deriving Repr

namespace Lexing

def start (cs : List Char) : Lexing :=
  { cursor := ⟨cs, 0, 0, 0⟩, tokens := [], inserted := [], columns := [], flowLevel := 0
    keyAllowed := true, keys := [none] }

def emit (l : Lexing) (t : Token) : Lexing :=
  { l with tokens := t :: l.tokens }

def inFlow (l : Lexing) : Bool :=
  0 < l.flowLevel

/-- One more than the column of the innermost block collection. -/
def contentColumn (l : Lexing) : Nat :=
  match l.columns with
  | [] => 0
  | c :: _ => c + 1

def advance (l : Lexing) (n : Nat) : Lexing :=
  { l with cursor := l.cursor.advance n }

/-! ## Block collections -/

/-- Closes the block collections that begin to the right of a column; `none` closes all. -/
def closeBlocks (l : Lexing) (column : Option Nat) : Lexing :=
  if l.inFlow then l
  else
    let open_ := fun (c : Nat) => column.any (c ≤ ·)
    let closed := l.columns.takeWhile (!open_ ·)
    { l with
      tokens := List.replicate closed.length .blockEnd ++ l.tokens
      columns := l.columns.dropWhile (!open_ ·) }

def opensBlock (l : Lexing) (column : Nat) : Bool :=
  !l.inFlow && l.contentColumn ≤ column

def openBlock (l : Lexing) (t : Token) : Lexing :=
  if l.opensBlock l.cursor.column then
    { l.emit t with columns := l.cursor.column :: l.columns }
  else l

/-! ## Keys -/

/-- A required key that has not become one is a fault. -/
def dropKey (l : Lexing) : Reads Lexing :=
  match l.keys with
  | some k :: ks => if k.required then malformed else .ok { l with keys := none :: ks }
  | _ => .ok l

/-- Drops the possible keys that are on an earlier line or too far back. -/
def dropStaleKeys (l : Lexing) : Reads Lexing := do
  let stale := fun (k : PossibleKey) =>
    k.line < l.cursor.line || k.index + 1024 < l.cursor.index
  if l.keys.any (·.any fun k => stale k && k.required) then malformed
  else return { l with keys := l.keys.map (·.filter (!stale ·)) }

def saveKey (l : Lexing) : Reads Lexing :=
  if !l.keyAllowed then .ok l
  else do
    let l ← l.dropKey
    let k := l.cursor
    let required := !l.inFlow && l.columns.head? == some k.column
    let key : PossibleKey := ⟨required, l.tokens.length, k.index, k.line, k.column⟩
    return { l with keys := some key :: l.keys.tail }

/-! ## Steps -/

/-- Blanks, comments and line breaks in front of a token; `fuel` bounds the number of lines. A line
may begin with a byte order mark, which takes a column. -/
def skipBlanks : Nat → Lexing → Lexing
  | 0, l => l
  | fuel + 1, l =>
    let marked := l.cursor.column == 0 && l.cursor.rest.head? == some byteOrderMark
    let l := if marked then l.advance 1 else l
    let tabs := l.inFlow || !l.keyAllowed
    let blanks := l.cursor.rest.takeWhile fun c => c == ' ' || (tabs && c == '\t')
    let l := l.advance blanks.length
    let comment :=
      if l.cursor.rest.head? == some '#' then l.cursor.rest.takeWhile (!isBreak ·) else []
    let l := l.advance comment.length
    if l.cursor.rest.head?.any isBreak then
      let l := l.advance 1
      skipBlanks fuel (if l.inFlow then l else { l with keyAllowed := true })
    else l

def mark (l : Lexing) (t : Token) (n : Nat) (keyAllowed : Bool) : Reads Lexing := do
  let l ← l.dropKey
  return { l.emit t with keyAllowed }.advance n

def content (l : Lexing) (t : Token) (n : Nat) : Reads Lexing := do
  let l ← l.saveKey
  return { l.emit t with keyAllowed := false }.advance n

def flowStart (l : Lexing) (t : Token) : Reads Lexing := do
  let l ← l.saveKey
  return { l.emit t with keyAllowed := true, flowLevel := l.flowLevel + 1, keys := none :: l.keys }.advance 1

def flowEnd (l : Lexing) (t : Token) : Reads Lexing := do
  let l ← l.dropKey
  let keys := if l.inFlow then l.keys.tail else l.keys
  return { l.emit t with keyAllowed := false, flowLevel := l.flowLevel - 1, keys }.advance 1

def blockEntry (l : Lexing) : Reads Lexing :=
  if !l.inFlow && !l.keyAllowed then malformed
  else (l.openBlock .blockSequenceStart).mark .blockEntry 1 true

def key (l : Lexing) : Reads Lexing :=
  if !l.inFlow && !l.keyAllowed then malformed
  else (l.openBlock .blockMappingStart).mark .key 1 !l.inFlow

def value (l : Lexing) : Reads Lexing :=
  match l.keys with
  | some k :: ks =>
    let opens := l.opensBlock k.column
    let before := if opens then [Token.blockMappingStart, .key] else [.key]
    let columns := if opens then k.column :: l.columns else l.columns
    .ok ({ l.emit .value with
      inserted := (k.token, before) :: l.inserted, columns, keys := none :: ks
      keyAllowed := false }.advance 1)
  | _ =>
    if !l.inFlow && !l.keyAllowed then malformed
    else .ok ({ (l.openBlock .blockMappingStart).emit .value with keyAllowed := !l.inFlow }.advance 1)

/-! ## Names -/

def endsName : Option Char → Bool
  | none => true
  | some c => endsWord (some c) || "?:,]\x7d%@`".toList.contains c

def anchorName? (cs : List Char) : Option (List Char) :=
  let name := cs.takeWhile isWordChar
  if name.isEmpty || !endsName (cs.drop name.length).head? then none else some name

/-! ## Directives -/

def versionNumber? (cs : List Char) : Option (Nat × Nat) :=
  let digits := cs.takeWhile Char.isDigit
  if digits.isEmpty || 9 < digits.length then none else some (digitsValue digits, digits.length)

def readVersion? (cs : List Char) : Option Nat := do
  let blanks := (cs.takeWhile isSpaceOrTab).length
  let (major, n) ← versionNumber? (cs.drop blanks)
  if (cs.drop (blanks + n)).head? != some '.' then none
  else
    let (minor, m) ← versionNumber? (cs.drop (blanks + n + 1))
    if major == 1 && (minor == 1 || minor == 2) then some (blanks + n + 1 + m) else none

def readTagDirective (cs : List Char) : Reads (List Char × TagText × Nat) := do
  let blanks := (cs.takeWhile isSpaceOrTab).length
  let handle := tagHandle (cs.drop blanks)
  let closed := handle == ['!'] || (1 < handle.length && handle.getLast? == some '!')
  let n := blanks + handle.length
  let gap := ((cs.drop n).takeWhile isSpaceOrTab).length
  if !closed || gap == 0 then malformed
  else
    let (uri, m) ← tagPart true (cs.drop (n + gap))
    if !endsWord (cs.drop (n + gap + m)).head? then malformed
    else return (handle, uri, n + gap + m)

def readDirective (cs : List Char) : Reads (Token × Nat) := do
  let name := cs.tail.takeWhile isWordChar
  let rest := cs.drop (name.length + 1)
  if name.isEmpty || !endsWord rest.head? then malformed
  else
    let (token, n) ←
      if name == "YAML".toList then
        match readVersion? rest with
        | some n => .ok (Token.version, n)
        | none => malformed
      else if name == "TAG".toList then
        (readTagDirective rest).map fun (handle, uri, n) => (.tagDirective handle uri, n)
      else malformed
    match lineRest? (rest.drop n) with
    | some m => return (token, name.length + 1 + n + m)
    | none => malformed

/-! ## Tokens -/

def isPlainStart (inFlow : Bool) (c : Char) (next : Option Char) : Bool :=
  !(endsWord (some c) || "-?:,[]\x7b\x7d#&*!|>'\"%@`".toList.contains c) ||
    (c == '-' && !next.any isSpaceOrTab) ||
    (!inFlow && (c == '?' || c == ':') && !endsWord next)

def readToken (l : Lexing) (c : Char) (cs : List Char) : Reads Lexing :=
  let next := cs.head?
  let atStart := l.cursor.column == 0
  if atStart && c == '%' then do
    let (t, n) ← readDirective (c :: cs)
    (l.closeBlocks none).mark t n false
  else if atStart && isDocumentMark '-' (c :: cs) then (l.closeBlocks none).mark .documentStart 3 false
  else if atStart && isDocumentMark '.' (c :: cs) then (l.closeBlocks none).mark .documentEnd 3 false
  else if c == '[' then l.flowStart .flowSequenceStart
  else if c == '\x7b' then l.flowStart .flowMappingStart
  else if c == ']' then l.flowEnd .flowSequenceEnd
  else if c == '\x7d' then l.flowEnd .flowMappingEnd
  else if c == ',' then l.mark .flowEntry 1 true
  else if c == '-' && endsWord next then l.blockEntry
  else if c == '?' && (l.inFlow || endsWord next) then l.key
  else if c == ':' && (l.inFlow || endsWord next) then l.value
  else if c == '*' || c == '&' then
    match anchorName? cs with
    | some name => l.content (if c == '*' then .reference name else .anchor name) (name.length + 1)
    | none => malformed
  else if c == '!' then do
    let (handle, suffix, n) ← readTag (c :: cs)
    let after := ((c :: cs).drop n).head?
    if endsWord after || (l.inFlow && after == some ',') then l.content (.tag handle suffix) n
    else malformed
  else if (c == '|' || c == '>') && !l.inFlow then do
    let (body, n) ← readBlock (c == '|') l.contentColumn cs
    l.mark (.scalar false body) (n + 1) true
  else if c == '\'' || c == '"' then do
    let (body, n) ← quotedFrom c .none (l.cursor.column + 1) 0 cs
    l.content (.scalar false body) (n + 1)
  else if isPlainStart l.inFlow c next then do
    let t ← plainFrom l.inFlow l.contentColumn .none false l.cursor.column (c :: cs)
    let l ← l.content (.scalar true t.text) t.taken
    return { l with keyAllowed := t.endsLine }
  else malformed

/-- All tokens from here on; each takes at least one of the characters that `fuel` counts. -/
def run : Nat → Lexing → Reads Lexing
  | 0, _ => malformed
  | fuel + 1, l => do
    let l ← (l.skipBlanks (l.cursor.rest.length + 1)).dropStaleKeys
    let l := l.closeBlocks (some l.cursor.column)
    match l.cursor.rest with
    | [] => (l.closeBlocks none).mark .streamEnd 0 false
    | c :: cs =>
      let l ← l.readToken c cs
      run fuel l

/-- The tokens in order, with those that were found to precede a token in front of it. -/
def arranged (l : Lexing) : List Token :=
  (l.tokens.reverse.zipIdx).flatMap fun (t, i) => (l.inserted.lookup i).getD [] ++ [t]

end Lexing

def tokens (text : String) : Reads (List Token) := do
  let cs := text.toList
  if !cs.all isReadable then malformed
  else
    let cs := unifyBreaks cs
    let l ← (Lexing.start cs).run (cs.length + 2)
    return l.arranged

end Yaml

end UpdaterBootstrap
