import UpdaterBootstrap.Text.CharClass
import UpdaterBootstrap.Text.Hexadecimal

/-!
# Quoted texts in TOML

Readers of the four forms. Each takes the text after the opening quotes and gives the text meant and
what follows the closing quotes.
-/

namespace UpdaterBootstrap

namespace Toml

def isSpaceOrTab (c : Char) : Bool :=
  c == ' ' || c == '\t'

/-- Whether a character may not stand in a text or a comment; line breaks are a matter of their
own. -/
def isForbidden (c : Char) : Bool :=
  (c.toNat < 0x20 && c != '\t') || c.toNat == 0x7F

def escape? : List Char → Option (Char × Nat)
  | [] => none
  | e :: cs =>
    let code := fun (n : Nat) =>
      let digits := cs.take n
      if digits.length == n && digits.all isHexDigit && (hexNumber digits).isValidChar then
        some (Char.ofNat (hexNumber digits), n + 1)
      else none
    match e with
    | 'b' => some ('\x08', 1)
    | 't' => some ('\t', 1)
    | 'n' => some ('\n', 1)
    | 'f' => some ('\x0c', 1)
    | 'r' => some ('\r', 1)
    | 'e' => some ('\x1b', 1)
    | '"' | '\\' => some (e, 1)
    | 'x' => code 2
    | 'u' => code 4
    | 'U' => code 8
    | _ => none

abbrev TextRead := Option (List Char × List Char)

def TextRead.push (c : Char) (r : TextRead) : TextRead :=
  r.map fun (cs, rest) => (c :: cs, rest)

/-! ## On one line -/

/-- A text between double quotes, from the character `skip` places on. -/
def readBasic (skip : Nat) : List Char → TextRead
  | [] => none
  | c :: cs =>
    match skip with
    | skip + 1 => readBasic skip cs
    | 0 =>
      if c == '"' then some ([], cs)
      else if c == '\\' then
        match escape? cs with
        | some (d, taken) => (readBasic taken cs).push d
        | none => none
      else if isForbidden c then none
      else (readBasic 0 cs).push c

def readLiteral : List Char → TextRead
  | [] => none
  | c :: cs =>
    if c == '\'' then some ([], cs)
    else if isForbidden c then none
    else (readLiteral cs).push c

/-! ## On several lines -/

def breakLength : List Char → Nat
  | '\n' :: _ => 1
  | '\r' :: '\n' :: _ => 2
  | _ => 0

def gapLength : List Char → Nat
  | [] => 0
  | '\r' :: '\n' :: cs => 2 + gapLength cs
  | c :: cs => if c == ' ' || c == '\t' || c == '\n' then 1 + gapLength cs else 0

/-- The gap that a backslash at the end of a line leaves out, if it is one. -/
def foldedGap? (cs : List Char) : Option Nat :=
  if breakLength (cs.dropWhile isSpaceOrTab) == 0 then none else some (gapLength cs)

/-- What follows three closing quotes; up to two more quotes after them belong to the text. -/
def closing? (quote : Char) : List Char → TextRead
  | a :: b :: c :: cs =>
    if a == quote && b == quote && c == quote then
      let more := (cs.take 2).takeWhile (· == quote)
      some (more, cs.drop more.length)
    else none
  | _ => none

def readLongBasic (skip : Nat) : List Char → TextRead
  | [] => none
  | c :: cs =>
    match skip with
    | skip + 1 => readLongBasic skip cs
    | 0 =>
      match closing? '"' (c :: cs) with
      | some r => some r
      | none =>
        if c == '\\' then
          match foldedGap? cs, escape? cs with
          | some taken, _ => readLongBasic taken cs
          | none, some (d, taken) => (readLongBasic taken cs).push d
          | none, none => none
        else if isForbidden c && breakLength (c :: cs) == 0 then none
        else (readLongBasic 0 cs).push c

def readLongLiteral : List Char → TextRead
  | [] => none
  | c :: cs =>
    match closing? '\'' (c :: cs) with
    | some r => some r
    | none =>
      if isForbidden c && breakLength (c :: cs) == 0 then none
      else (readLongLiteral cs).push c

def quoted? : List Char → TextRead
  | '"' :: '"' :: '"' :: cs => readLongBasic (breakLength cs) cs
  | '"' :: cs => readBasic 0 cs
  | '\'' :: '\'' :: '\'' :: cs => readLongLiteral (cs.drop (breakLength cs))
  | '\'' :: cs => readLiteral cs
  | _ => none

end Toml

end UpdaterBootstrap
