/-!
# Reading a double

`[sign] digits [. digits] [e [sign] digits]` with a digit before or after the point, or one of the
words `inf`, `infinity` and `nan` in any case. The number is rounded to the nearest double.
-/

namespace UpdaterBootstrap

def digitsValue (cs : List Char) : Nat :=
  cs.foldl (fun n c => 10 * n + (c.toNat - '0'.toNat)) 0

def takeSign : List Char → Bool × List Char
  | '-' :: cs => (true, cs)
  | '+' :: cs => (false, cs)
  | cs => (false, cs)

def readExponent? : List Char → Option Int
  | [] => some 0
  | c :: cs =>
    if c == 'e' || c == 'E' then
      let (negative, digits) := takeSign cs
      if digits.isEmpty || !digits.all Char.isDigit then none
      else
        let n : Int := digitsValue digits
        some (if negative then -n else n)
    else none

/-- The double nearest to `digits * 10 ^ exponent`. Exponents far beyond the range of doubles
are decided at once. -/
def roundDecimal (digits : Nat) (exponent : Int) : Float :=
  let length : Int := (Nat.toDigits 10 digits).length
  if digits = 0 || exponent + length < -330 then 0.0
  else if 330 < exponent + length then 1.0 / 0.0
  else if 0 ≤ exponent then Float.ofScientific digits false exponent.toNat
  else Float.ofScientific digits true (-exponent).toNat

def readUnsigned? (cs : List Char) : Option Float :=
  let whole := cs.takeWhile Char.isDigit
  let rest := cs.dropWhile Char.isDigit
  let (fraction, rest) := match rest with
    | '.' :: more => (more.takeWhile Char.isDigit, more.dropWhile Char.isDigit)
    | _ => ([], rest)
  if whole.isEmpty && fraction.isEmpty then none
  else (readExponent? rest).map fun e =>
    roundDecimal (digitsValue (whole ++ fraction)) (e - fraction.length)

def readFloatChars? (cs : List Char) : Option Float :=
  let (negative, rest) := takeSign cs
  let word := rest.map Char.toLower
  let magnitude :=
    if word == "inf".toList || word == "infinity".toList then some (1.0 / 0.0 : Float)
    else if word == "nan".toList then some (0.0 / 0.0 : Float)
    else readUnsigned? rest
  magnitude.map fun x => if negative then -x else x

def readFloat? (s : String) : Option Float :=
  readFloatChars? s.toList

end UpdaterBootstrap
