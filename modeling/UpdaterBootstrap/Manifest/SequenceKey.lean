import UpdaterBootstrap.Decimal.Layout
import UpdaterBootstrap.Decimal.Read
import UpdaterBootstrap.Text.CharClass

/-!
# Sequence keys

The numbers that order action lists: finite doubles, where both zeros are one key.
-/

namespace UpdaterBootstrap

structure SequenceKey where
  value : Float
  finite : isFinite value = true
  not_negative_zero : value.toBits ≠ 0x8000000000000000
  deriving DecidableEq

namespace SequenceKey

def zero : SequenceKey :=
  ⟨0.0, by decide, by decide⟩

def default : SequenceKey :=
  ⟨0.1, by decide, by decide⟩

instance : Inhabited SequenceKey :=
  ⟨default⟩

def ofFloat? (x : Float) : Option SequenceKey :=
  if hx : isFinite x = true then
    if hz : x.toBits ≠ 0x8000000000000000 then some ⟨x, hx, hz⟩ else some zero
  else none

def ofText? (s : String) : Option SequenceKey :=
  (readFloatChars? (trim s.toList)).bind ofFloat?

def invalidText (s : String) : String :=
  "'" ++ s ++ "' is not a valid sequence key"

def display (k : SequenceKey) : String :=
  writeExact k.value

/-- The place among all keys: the bits without the sign, negated for negative numbers. -/
def rank (k : SequenceKey) : Int :=
  let bits := k.value.toBits
  let magnitude : Int := (bits.toNat % Nat.pow 2 63 : Nat)
  if Binary64.signBit bits then -magnitude else magnitude

instance : Ord SequenceKey :=
  ⟨fun a b => compare a.rank b.rank⟩

instance : LT SequenceKey :=
  ⟨fun a b => a.rank < b.rank⟩

instance (a b : SequenceKey) : Decidable (a < b) :=
  inferInstanceAs (Decidable (a.rank < b.rank))

def insertAscending (k : SequenceKey) : List SequenceKey → List SequenceKey
  | [] => [k]
  | l :: ls =>
    if k < l then k :: l :: ls else if k = l then l :: ls else l :: insertAscending k ls

def ascending (ks : List SequenceKey) : List SequenceKey :=
  ks.foldr insertAscending []

end SequenceKey

end UpdaterBootstrap
