import UpdaterBootstrap.Text.Hexadecimal
import UpdaterBootstrap.Yaml.Token

/-!
# Tags

A tag is written as ASCII characters, where any character may stand as its UTF-8 bytes, each a percent
sign and two digits. The bytes need only have the outer form of a character, and a tag ends at a NUL
among them.
-/

namespace UpdaterBootstrap

namespace Yaml

namespace TagText

def ofChars (cs : List Char) : TagText :=
  cs.map some

def chars? (tag : TagText) : Option (List Char) :=
  tag.mapM id

/-- What stands in front of the first NUL. -/
def beforeNul (tag : TagText) : TagText :=
  tag.takeWhile (· != some '\x00')

end TagText

/-! ## Characters -/

def isUriChar (verbatim : Bool) (c : Char) : Bool :=
  isWordChar c || ";/?:@&=+$.!~*'()".toList.contains c || (verbatim && ",[]".toList.contains c)

def leadByte? (b : Nat) : Option (Nat × Nat) :=
  if b < 0x80 then some (0, b)
  else if 0xC0 ≤ b && b < 0xE0 then some (1, b % 0x20)
  else if 0xE0 ≤ b && b < 0xF0 then some (2, b % 0x10)
  else if 0xF0 ≤ b && b < 0xF8 then some (3, b % 8)
  else none

/-- The least code point that takes `n` bytes after the first. -/
def leastCode : Nat → Nat
  | 0 => 0
  | 1 => 0x80
  | 2 => 0x800
  | _ => 0x10000

def percentByte? : List Char → Option Nat
  | '%' :: a :: b :: _ => if isHexDigit a && isHexDigit b then some (hexNumber [a, b]) else none
  | _ => none

def percentRest? (value : Nat) : Nat → List Char → Option Nat
  | 0, _ => some value
  | n + 1, cs =>
    match percentByte? cs with
    | some b => if 0x80 ≤ b && b < 0xC0 then percentRest? (value * 64 + b % 64) n (cs.drop 3) else none
    | none => none

/-- What escaped bytes encode, and the number of bytes after the first. -/
def percentChar? (cs : List Char) : Option (Option Char × Nat) := do
  let b ← percentByte? cs
  let (n, bits) ← leadByte? b
  let code ← percentRest? bits n (cs.drop 3)
  return (if leastCode n ≤ code && code.isValidChar then some (Char.ofNat code) else none, n)

/-! ## Parts of a tag -/

/-- A part of a tag, after `skip` characters that have been read, and the number of characters. -/
def tagUri (verbatim : Bool) (skip : Nat) : List Char → Reads (TagText × Nat)
  | [] => .ok ([], 0)
  | c :: cs =>
    match skip with
    | n + 1 => (tagUri verbatim n cs).map fun (t, k) => (t, k + 1)
    | 0 =>
      if c == '%' then
        match percentChar? (c :: cs) with
        | some (d, n) => (tagUri verbatim (2 + 3 * n) cs).map fun (t, k) => (d :: t, k + 1)
        | none => malformed
      else if isUriChar verbatim c then (tagUri verbatim 0 cs).map fun (t, k) => (some c :: t, k + 1)
      else .ok ([], 0)

def tagPart (verbatim : Bool) (cs : List Char) : Reads (TagText × Nat) := do
  let (uri, n) ← tagUri verbatim 0 cs
  if uri.isEmpty then malformed else return (uri.beforeNul, n)

def tagHandle (cs : List Char) : List Char :=
  match cs with
  | '!' :: rest =>
    let name := rest.takeWhile isWordChar
    let close := if (rest.drop name.length).head? == some '!' then ['!'] else []
    '!' :: name ++ close
  | _ => []

def readTag (cs : List Char) : Reads (List Char × TagText × Nat) :=
  if cs.take 2 == ['!', '<'] then do
    let (uri, n) ← tagPart true (cs.drop 2)
    if (cs.drop (n + 2)).head? != some '>' then malformed else return ([], uri, n + 3)
  else do
    let handle := tagHandle cs
    if 1 < handle.length && handle.getLast? == some '!' then
      let (uri, n) ← tagPart false (cs.drop handle.length)
      return (handle, uri, handle.length + n)
    else
      let (uri, n) ← tagUri false 0 (cs.drop handle.length)
      let suffix := (.ofChars handle.tail ++ uri : TagText).beforeNul
      if suffix.isEmpty then return ([], [some '!'], handle.length + n)
      else return (['!'], suffix, handle.length + n)

/-! ## What a tag stands for -/

abbrev TagHandles := List (List Char × TagText)

def coreTag : List Char :=
  "tag:yaml.org,2002:".toList

def defaultHandles : TagHandles :=
  [(['!'], [some '!']), (['!', '!'], .ofChars coreTag)]

/-- The tag that a handle and a suffix stand for. -/
def expandTag (handles : TagHandles) (handle : List Char) (suffix : TagText) : Reads TagText :=
  if handle.isEmpty then .ok suffix
  else match handles.lookup handle with
    | some expansion => .ok (expansion ++ suffix)
    | none => malformed

def isCoreTag (name : String) (tag : TagText) : Bool :=
  tag == .ofChars (coreTag ++ name.toList)

/-- A tag of the text's own, not of YAML's: the name after the exclamation mark, or the mark if it
stands alone. Bytes that encode no character make it no tag at all. -/
def ownTag? (tag : Option TagText) : Option (List Char) :=
  match tag with
  | some (some '!' :: name) => TagText.chars? (if name.isEmpty then [some '!'] else name)
  | _ => none

end Yaml

end UpdaterBootstrap
