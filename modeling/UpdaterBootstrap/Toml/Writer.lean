import UpdaterBootstrap.Toml.Quoted

/-!
# Writing TOML texts

A text takes the first of four forms that needs no escape, and escapes only if none of them will do.
-/

namespace UpdaterBootstrap

namespace Toml

def longestRun (c : Char) : List Char → Nat
  | [] => 0
  | d :: ds => max ((d :: ds).takeWhile (· == c)).length (longestRun c ds)

def needsEscape (c : Char) : Bool :=
  isForbidden c && c != '\n'

def escapeChar (c : Char) : List Char :=
  match c with
  | '\x08' => ['\\', 'b']
  | '\t' => ['\\', 't']
  | '\n' => ['\\', 'n']
  | '\x0c' => ['\\', 'f']
  | '\r' => ['\\', 'r']
  | '"' => ['\\', '"']
  | '\\' => ['\\', '\\']
  | _ => if isForbidden c then '\\' :: 'u' :: hexDigits 4 c.toNat else [c]

/-- The text between double quotes: on several lines, line feeds stand for themselves, and so do
double quotes unless they are the third in a row. `quotes` counts those just before. -/
def escaped (long : Bool) (quotes : Nat) : List Char → List Char
  | [] => []
  | c :: cs =>
    if long && c == '"' && quotes < 2 then c :: escaped long (quotes + 1) cs
    else if long && c == '\n' then c :: escaped long 0 cs
    else escapeChar c ++ escaped long 0 cs

def writeChars (cs : List Char) : List Char :=
  let control := cs.any needsEscape
  let lines := cs.contains '\n'
  let escape := cs.contains '\\'
  let double := longestRun '"' cs
  let single := longestRun '\'' cs
  let feed := if lines then ['\n'] else []
  let triple := fun c => List.replicate 3 c
  if !control && !escape && double == 0 && !lines then '"' :: escaped false 0 cs ++ ['"']
  else if !control && single == 0 && !lines then '\'' :: cs ++ ['\'']
  else if !control && !escape && double ≤ 2 then triple '"' ++ feed ++ escaped true 0 cs ++ triple '"'
  else if !control && single ≤ 2 then triple '\'' ++ feed ++ cs ++ triple '\''
  else if lines then triple '"' ++ feed ++ escaped true 0 cs ++ triple '"'
  else '"' :: escaped false 0 cs ++ ['"']

def writeText (s : String) : String :=
  .ofList (writeChars s.toList)

end Toml

end UpdaterBootstrap
