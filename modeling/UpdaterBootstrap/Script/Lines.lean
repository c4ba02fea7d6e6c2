/-!
# Line ends and blank lines

Every line end becomes a line feed, blanks before line feeds go, and stacked blank lines become one.
-/

namespace UpdaterBootstrap

def unifyLineEnds : List Char → List Char
  | [] => []
  | '\r' :: '\n' :: cs => '\n' :: unifyLineEnds cs
  | c :: cs => (if c == '\r' then '\n' else c) :: unifyLineEnds cs

/-- Spaces and tabs directly before a line feed are dropped; the last line is kept whole. -/
def dropTrailingBlanks : List Char → List Char
  | [] => []
  | c :: cs =>
    let rest := dropTrailingBlanks cs
    if (c == ' ' || c == '\t') && rest.head? == some '\n' then rest else c :: rest

def trimLineEnds (text : String) : String :=
  .ofList (dropTrailingBlanks text.toList)

def normalizeLines (text : String) : String :=
  .ofList (dropTrailingBlanks (unifyLineEnds text.toList))

def isLineBlank (c : Char) : Bool :=
  c == ' ' || c == '\t' || c == '\n' || c == '\x0b' || c == '\x0c' || c == '\r'

/-- The number of characters up to the last line feed, that one included; zero if there is none. -/
def throughLastFeed : List Char → Nat
  | [] => 0
  | c :: cs =>
    match throughLastFeed cs with
    | 0 => if c == '\n' then 1 else 0
    | n + 1 => n + 2

/-- The text after `skip` characters that have been replaced. A line feed, blanks and a last line
feed become two line feeds if at least one blank stands between them. -/
def collapseFrom (skip : Nat) : List Char → List Char
  | [] => []
  | c :: cs =>
    match skip with
    | n + 1 => collapseFrom n cs
    | 0 =>
      let n := if c == '\n' then throughLastFeed (cs.takeWhile isLineBlank) else 0
      if 2 ≤ n then '\n' :: '\n' :: collapseFrom n cs else c :: collapseFrom 0 cs

def collapseBlankLines (text : String) : String :=
  .ofList (collapseFrom 0 text.toList)

end UpdaterBootstrap
