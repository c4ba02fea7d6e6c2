import UpdaterBootstrap.Decimal.Read
import UpdaterBootstrap.Yaml.Tree

/-!
# Plain scalars

What a scalar without quotes and tag denotes: null, a boolean, an integer, a double, or else the
text itself.
-/

namespace UpdaterBootstrap

namespace Yaml

def isNullWord (cs : List Char) : Bool :=
  cs == ['~'] || cs == "null".toList || cs == "Null".toList || cs == "NULL".toList

def booleanWord? (cs : List Char) : Option Bool :=
  if cs == "true".toList || cs == "True".toList || cs == "TRUE".toList then some true
  else if cs == "false".toList || cs == "False".toList || cs == "FALSE".toList then some false
  else none

/-- A zero followed by digits only, after a sign if there is one. -/
def isZeroPadded (cs : List Char) : Bool :=
  let digits := match cs with
    | '-' :: ds | '+' :: ds => ds
    | ds => ds
  1 < digits.length && digits.head? == some '0' && digits.all Char.isDigit

/-! ## Integers -/

def digitValue? (radix : Nat) (c : Char) : Option Nat :=
  let value :=
    if c.isDigit then c.toNat - '0'.toNat
    else if 'a' ≤ c && c ≤ 'z' then c.toNat - 'a'.toNat + 10
    else if 'A' ≤ c && c ≤ 'Z' then c.toNat - 'A'.toNat + 10
    else radix
  if value < radix then some value else none

def natural? (radix : Nat) (cs : List Char) : Option Nat :=
  if cs.isEmpty then none
  else cs.foldlM (fun n c => (digitValue? radix c).map (radix * n + ·)) 0

def unsignedInteger? : List Char → Option Nat
  | '0' :: 'x' :: cs => natural? 16 cs
  | '0' :: 'o' :: cs => natural? 8 cs
  | '0' :: 'b' :: cs => natural? 2 cs
  | cs => if isZeroPadded cs then none else natural? 10 cs

def integerWord? : List Char → Option Int
  | '-' :: cs => (unsignedInteger? cs).map fun n => -(n : Int)
  | '+' :: cs => (unsignedInteger? cs).map Int.ofNat
  | cs => (unsignedInteger? cs).map Int.ofNat

def isTreeInteger (n : Int) : Bool :=
  -Nat.pow 2 63 ≤ n && n < Nat.pow 2 64

/-- Integers that are read as such, though a tree may have no room for them. -/
def isReadInteger (n : Int) : Bool :=
  -Nat.pow 2 127 ≤ n && n < Nat.pow 2 128

/-! ## Doubles -/

def isInfinityWord (cs : List Char) : Bool :=
  cs == ".inf".toList || cs == ".Inf".toList || cs == ".INF".toList

def isNanWord (cs : List Char) : Bool :=
  cs == ".nan".toList || cs == ".NaN".toList || cs == ".NAN".toList

def decimalWord? (cs : List Char) : Option Float :=
  let positive := match cs with
    | '+' :: ds => ds
    | ds => ds
  if cs.head? == some '+' && (positive.head? == some '+' || positive.head? == some '-') then none
  else if isInfinityWord positive then some (1.0 / 0.0)
  else if cs.head? == some '-' && isInfinityWord cs.tail then some (-1.0 / 0.0)
  else if isNanWord cs then some (0.0 / 0.0)
  else (readFloatChars? positive).filter isFinite

/-! ## Resolution -/

/-- What a plain scalar denotes; nothing for an integer that a tree has no room for. -/
def plainScalar? (s : String) : Option Yaml :=
  let cs := s.toList
  if cs.isEmpty || isNullWord cs then some .null
  else match booleanWord? cs with
    | some b => some (.boolean b)
    | none =>
      match (integerWord? cs).filter isReadInteger with
      | some n => if isTreeInteger n then some (.integer n) else none
      | none =>
        match if isZeroPadded cs then none else decimalWord? cs with
        | some x => some (.decimal x)
        | none => some (.text s)

def isPlainText (s : String) : Bool :=
  match plainScalar? s with
  | some (.text _) => !isZeroPadded s.toList
  | _ => false

end Yaml

end UpdaterBootstrap
