/-!
# The fewest decimal digits that read back

The reals that round to a double form an interval around it. Among the decimals in that interval
those with the fewest digits are kept, and of these the one nearest to the double.
-/

namespace UpdaterBootstrap

structure Decimal where
  digits : Nat
  exponent : Int
  deriving DecidableEq, Repr

/-- Which way an exact tie between two decimals goes. -/
inductive Tie
  | up
  | even
  deriving DecidableEq, Repr

def decimalDigits (n : Nat) : List Char :=
  Nat.toDigits 10 n

/-- The position of the decimal point: the least `p` with `m * 2 ^ e < 10 ^ p`. -/
def pointPosition (m : Nat) (e : Int) : Int :=
  if 0 ≤ e then (decimalDigits (m * Nat.pow 2 e.toNat)).length
  else ((decimalDigits (m * Nat.pow 5 (-e).toNat)).length : Int) + e

/-- Trailing zeros moved into the exponent; `fuel` bounds their number. -/
def trimZeros : Nat → Decimal → Decimal
  | 0, d => d
  | fuel + 1, d =>
    if d.digits ≠ 0 ∧ d.digits % 10 = 0 then trimZeros fuel ⟨d.digits / 10, d.exponent + 1⟩ else d

/-- The decimal with `count` digits nearest to `m * 2 ^ e` in its rounding interval, if that
interval holds one. All quantities are scaled by `2 ^ two * 10 ^ ten` to be integers. -/
def nearestWith (tie : Tie) (m : Nat) (e : Int) (count : Nat) : Option Decimal :=
  let grid := pointPosition m e - count
  let two := (2 - e).toNat
  let ten := (-grid).toNat
  let scale := fun (n : Nat) (k : Int) => n * Nat.pow 2 (k + two).toNat * Nat.pow 10 ten
  let value := scale m e
  let low :=
    if m = Nat.pow 2 52 ∧ -1074 < e then scale (4 * m - 1) (e - 2) else scale (2 * m - 1) (e - 1)
  let high := scale (2 * m + 1) (e - 1)
  let inside := fun x => if m % 2 = 0 then low ≤ x ∧ x ≤ high else low < x ∧ x < high
  let unit := Nat.pow 2 two * Nat.pow 10 (grid + ten).toNat
  let below := value / unit
  let above := below + 1
  let hitBelow := decide (inside (below * unit))
  let hitAbove := decide (inside (above * unit))
  let pick :=
    match hitBelow, hitAbove with
    | false, false => none
    | true, false => some below
    | false, true => some above
    | true, true =>
      let down := value - below * unit
      let up := above * unit - value
      if down < up then some below
      else if up < down then some above
      else match tie with
        | .up => some above
        | .even => if below % 2 = 0 then some below else some above
  pick.map fun digits => ⟨digits, grid⟩

def shortest (tie : Tie) (m : Nat) (e : Int) : Decimal :=
  match (List.range 17).findSome? fun i => nearestWith tie m e (i + 1) with
  | some d => trimZeros 18 d
  | none => ⟨0, 0⟩

end UpdaterBootstrap
