/-!
# The exact value of a double

A double is read from its 64 bits: a sign, eleven exponent bits and 52 fraction bits. A finite one
is the integer `scaled` times the smallest positive double.
-/

namespace UpdaterBootstrap

inductive Binary64
  | nan
  | infinite (negative : Bool)
  /-- The number `mantissa * 2 ^ exponent`, negated if `negative`. -/
  | finite (negative : Bool) (mantissa : Nat) (exponent : Int)
  deriving DecidableEq, Repr

namespace Binary64

def signBit (bits : UInt64) : Bool :=
  bits.toNat / Nat.pow 2 63 % 2 == 1

def exponentBits (bits : UInt64) : Nat :=
  bits.toNat / Nat.pow 2 52 % Nat.pow 2 11

def fractionBits (bits : UInt64) : Nat :=
  bits.toNat % Nat.pow 2 52

def ofBits (bits : UInt64) : Binary64 :=
  let negative := signBit bits
  let fraction := fractionBits bits
  match exponentBits bits with
  | 0 => .finite negative fraction (-1074)
  | 2047 => if fraction = 0 then .infinite negative else .nan
  | e + 1 => .finite negative (Nat.pow 2 52 + fraction) ((e + 1 : Nat) - 1075)

def ofFloat (x : Float) : Binary64 :=
  ofBits x.toBits

end Binary64

def isFinite (x : Float) : Bool :=
  match Binary64.ofFloat x with
  | .finite .. => true
  | _ => false

/-- A finite double as a multiple of `2 ^ -1074`; the others count as zero. -/
def scaled (x : Float) : Int :=
  match Binary64.ofFloat x with
  | .finite negative m e =>
    let n : Int := m * Nat.pow 2 (e + 1074).toNat
    if negative then -n else n
  | _ => 0

def isWhole (x : Float) : Bool :=
  scaled x % Nat.pow 2 1074 == 0

end UpdaterBootstrap
