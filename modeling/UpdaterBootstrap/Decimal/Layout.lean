import UpdaterBootstrap.Decimal.Binary
import UpdaterBootstrap.Decimal.Shortest

/-!
# How a double is written

One layout per place where doubles are written: messages, manifests, settings and reports.
-/

namespace UpdaterBootstrap

structure FloatLayout where
  /-- Positional form is used when the decimal point stands after between this many digits
  (negative: that many zeros follow the point); always, if absent. -/
  positional : Option (Int × Int)
  /-- Whether a whole number ends in a point and a zero. -/
  wholePoint : Bool
  /-- Whether a positive exponent has a sign. -/
  exponentSign : Bool
  tie : Tie
  nan : String
  infinity : String
  minusInfinity : String
  deriving Repr

namespace FloatLayout

/-- Positional from 1e-4 to below 1e16. -/
def message : FloatLayout :=
  ⟨some (-3, 16), true, false, .up, "NaN", "inf", "-inf"⟩

def plain : FloatLayout :=
  ⟨none, false, false, .up, "NaN", "inf", "-inf"⟩

def settings : FloatLayout :=
  ⟨none, true, false, .up, "nan", "inf", "-inf"⟩

/-- Positional from 1e-5 to below 1e16. -/
def manifest : FloatLayout :=
  ⟨some (-4, 16), true, false, .even, ".nan", ".inf", "-.inf"⟩

/-- Positional from 1e-5 to below 1e16, exponents always signed; what is not finite is null. -/
def report : FloatLayout :=
  ⟨some (-4, 16), true, true, .even, "null", "null", "null"⟩

end FloatLayout

def writePositional (wholePoint : Bool) (digits : List Char) (point : Int) : List Char :=
  if point ≤ 0 then
    '0' :: '.' :: List.replicate (-point).toNat '0' ++ digits
  else if digits.length ≤ point.toNat then
    digits ++ List.replicate (point.toNat - digits.length) '0' ++ if wholePoint then ['.', '0'] else []
  else digits.take point.toNat ++ '.' :: digits.drop point.toNat

def writeExponential (exponentSign : Bool) (digits : List Char) (point : Int) : List Char :=
  let exponent := point - 1
  let sign := if exponent < 0 then ['-'] else if exponentSign then ['+'] else []
  let head := match digits with
    | [] => []
    | [d] => [d]
    | d :: ds => d :: '.' :: ds
  head ++ 'e' :: sign ++ decimalDigits exponent.natAbs

def writeMagnitude (layout : FloatLayout) (m : Nat) (e : Int) : List Char :=
  if m = 0 then '0' :: if layout.wholePoint then ['.', '0'] else []
  else
    let d := shortest layout.tie m e
    let digits := decimalDigits d.digits
    let point := d.exponent + digits.length
    match layout.positional with
    | none => writePositional layout.wholePoint digits point
    | some (least, most) =>
      if least ≤ point ∧ point ≤ most then writePositional layout.wholePoint digits point
      else writeExponential layout.exponentSign digits point

def writeFloat (layout : FloatLayout) (x : Float) : String :=
  match Binary64.ofFloat x with
  | .nan => layout.nan
  | .infinite false => layout.infinity
  | .infinite true => layout.minusInfinity
  | .finite negative m e =>
    let text := String.ofList (writeMagnitude layout m e)
    if negative then "-" ++ text else text

/-- A whole double with all its digits, point and zero; any other in its shortest positional form. -/
def writeExact (x : Float) : String :=
  match Binary64.ofFloat x with
  | .finite negative m e =>
    if isWhole x then
      let whole := if 0 ≤ e then m * Nat.pow 2 e.toNat else m / Nat.pow 2 (-e).toNat
      let text := String.ofList (decimalDigits whole) ++ ".0"
      if negative then "-" ++ text else text
    else writeFloat .plain x
  | _ => writeFloat .plain x

end UpdaterBootstrap
