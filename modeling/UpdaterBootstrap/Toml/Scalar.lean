import UpdaterBootstrap.Decimal.Binary
import UpdaterBootstrap.Decimal.Read
import UpdaterBootstrap.Text.Hexadecimal
import UpdaterBootstrap.Toml.Tree

/-!
# Unquoted values

Booleans, numbers, dates and times, each given as a whole.
-/

namespace UpdaterBootstrap

namespace Toml

/-! ## Digits -/

/-- The digits of a number, where single underscores may stand between two of them. -/
def digits? (isDigit : Char → Bool) : List Char → Option (List Char)
  | [] => none
  | [c] => if isDigit c then some [c] else none
  | c :: '_' :: cs => if isDigit c then (digits? isDigit cs).map (c :: ·) else none
  | c :: cs => if isDigit c then (digits? isDigit cs).map (c :: ·) else none

def wholeDigits? (cs : List Char) : Option (List Char) :=
  (digits? Char.isDigit cs).filter fun ds => ds.length == 1 || ds.head? != some '0'

def signedBy (negative : Bool) (n : Nat) : Int :=
  if negative then -n else n

/-! ## Integers -/

def isBinaryDigit (c : Char) : Bool :=
  c == '0' || c == '1'

def isOctalDigit (c : Char) : Bool :=
  '0' ≤ c && c ≤ '7'

def digitsIn (base : Nat) (ds : List Char) : Nat :=
  ds.foldl (fun n c => base * n + hexValue c) 0

/-- Integers have up to 128 bits. -/
def isInRange (n : Int) : Bool :=
  -Nat.pow 2 127 ≤ n && n < Nat.pow 2 128

def integer? (cs : List Char) : Option Int :=
  let n := match cs with
    | '0' :: 'x' :: ds => (digits? isHexDigit ds).map fun ds => (digitsIn 16 ds : Int)
    | '0' :: 'o' :: ds => (digits? isOctalDigit ds).map fun ds => (digitsIn 8 ds : Int)
    | '0' :: 'b' :: ds => (digits? isBinaryDigit ds).map fun ds => (digitsIn 2 ds : Int)
    | _ =>
      let (negative, ds) := takeSign cs
      (wholeDigits? ds).map fun ds => signedBy negative (digitsValue ds)
  n.filter isInRange

/-! ## Decimals -/

def isExponentLetter (c : Char) : Bool :=
  c == 'e' || c == 'E'

def plainDecimal? (cs : List Char) : Option (List Char) := do
  let mantissa := cs.takeWhile fun c => !isExponentLetter c
  let whole ← wholeDigits? (mantissa.takeWhile (· != '.'))
  let fraction ← match mantissa.dropWhile (· != '.') with
    | [] => some []
    | point :: ds => (digits? Char.isDigit ds).map (point :: ·)
  let exponent ← match cs.dropWhile fun c => !isExponentLetter c with
    | [] => some []
    | letter :: sign :: ds =>
      if sign == '+' || sign == '-' then (digits? Char.isDigit ds).map fun ds => letter :: sign :: ds
      else (digits? Char.isDigit (sign :: ds)).map (letter :: ·)
    | _ => none
  return whole ++ fraction ++ exponent

def isFractional (cs : List Char) : Bool :=
  cs.any fun c => c == '.' || isExponentLetter c

/-- A decimal; a number beyond the range of doubles is none. -/
def decimal? (cs : List Char) : Option Float :=
  let (negative, unsigned) := takeSign cs
  let magnitude : Option Float :=
    if unsigned == "inf".toList then some (1.0 / 0.0)
    else if unsigned == "nan".toList then some (0.0 / 0.0)
    else if isFractional unsigned then
      (plainDecimal? unsigned).bind fun ds => (readFloatChars? ds).filter isFinite
    else none
  magnitude.map fun x => if negative then -x else x

/-! ## Dates and times -/

def twoDigits? (low high : Nat) : List Char → Option (Nat × List Char)
  | a :: b :: cs =>
    let n := digitsValue [a, b]
    if a.isDigit && b.isDigit && low ≤ n && n ≤ high then some (n, cs) else none
  | _ => none

def isLeapYear (year : Nat) : Bool :=
  (year % 4 == 0 && year % 100 != 0) || year % 400 == 0

def daysInMonth (year month : Nat) : Nat :=
  if month == 2 then (if isLeapYear year then 29 else 28)
  else if [4, 6, 9, 11].contains month then 30
  else 31

def after? (c : Char) : List Char → Option (List Char)
  | d :: cs => if c == d then some cs else none
  | [] => none

def dateRest? (cs : List Char) : Option (List Char) := do
  let (century, cs) ← twoDigits? 0 99 cs
  let (yearOfCentury, cs) ← twoDigits? 0 99 cs
  let (month, cs) ← twoDigits? 1 12 (← after? '-' cs)
  let (_, cs) ← twoDigits? 1 (daysInMonth (100 * century + yearOfCentury) month) (← after? '-' cs)
  return cs

def timeRest? (cs : List Char) : Option (List Char) := do
  let (_, cs) ← twoDigits? 0 23 cs
  let (_, cs) ← twoDigits? 0 59 (← after? ':' cs)
  match cs with
  | ':' :: cs =>
    let (_, cs) ← twoDigits? 0 60 cs
    match cs with
    | '.' :: cs => if (cs.head?.any Char.isDigit) then some (cs.dropWhile Char.isDigit) else none
    | cs => some cs
  | cs => some cs

def isZone (cs : List Char) : Bool :=
  match cs with
  | [c] => c == 'Z' || c == 'z'
  | sign :: cs =>
    (sign == '+' || sign == '-') &&
      (do
        let (_, cs) ← twoDigits? 0 23 cs
        let (_, cs) ← twoDigits? 0 59 (← after? ':' cs)
        return cs.isEmpty) == some true
  | [] => true

def isMoment (cs : List Char) : Bool :=
  match dateRest? cs with
  | some [] => true
  | some (c :: time) =>
    (c == 'T' || c == 't' || c == ' ') && (timeRest? time).any isZone
  | none => timeRest? cs == some []

/-! ## Any of them -/

def scalar? (cs : List Char) : Option Toml :=
  if cs == "true".toList then some (.boolean true)
  else if cs == "false".toList then some (.boolean false)
  else if isMoment cs then some (.moment (.ofList cs))
  else match integer? cs with
    | some n => some (.integer n)
    | none => (decimal? cs).map .decimal

end Toml

end UpdaterBootstrap
